/-
Reading a line.

A line is a definition, which binds a name to an expression, or an expression, or
nothing.  The token that tells which is looked at and, unless it is the keyword or
the end, put back.  Behind a tree the end has to follow.

The budget of an expression is enough for a line too, because the token that tells
comes back before the expression is read.
-/
import Calculator.Parser.Budget

namespace Calculator

namespace Parser

variable {σ : Type}

/-- A definition behind its keyword. -/
def definition [TokenStream σ] (g : Grammar) (fuel : Nat) : Parser σ Tree := do
  let name ← token
  if name.kind = .name then
    let sign ← token
    if sign.kind = .equals then
      let value ← expression g fuel 0
      return .define name.text value
    else fail (.missingEquals name.text sign.display)
  else fail (.missingName name.display)

/-- The end behind a tree. -/
def finish [TokenStream σ] (tree : Tree) : Parser σ (Option Tree) := do
  let t ← token
  if t.isStop then
    emit (.parsed tree)
    return some tree
  else fail (.trailing t.display)

/-- A line: its tree, or none if it is empty. -/
def line [TokenStream σ] (g : Grammar) (fuel : Nat) : Parser σ (Option Tree) := do
  let t ← token
  match t.kind with
  | .stop => return none
  | .keyword =>
    let tree ← definition g fuel
    finish tree
  | _ =>
    putBack
    let tree ← expression g fuel 0
    finish tree

/-! ### Coming to an end -/

variable [TokenStream σ] {M : PushBack σ → Nat → Prop} {g : Grammar} {p : PushBack σ} {n : Nat}

private theorem isSome_definition (hM : Measure M) {fuel : Nat} (hn : M p n)
    (h : g.budget n ≤ fuel) :
    (definition g fuel p).isSome = true := by
  refine isSome_bind isSome_token fun name p₁ hname => ?_
  split
  · refine isSome_bind isSome_token fun sign p₂ hsign => ?_
    split
    · obtain ⟨m, hm, hp₁⟩ := hM.token hn hname
      obtain ⟨k, hk, hp₂⟩ := hM.token hp₁ hsign
      have hbudget := g.budget_mono (Nat.le_of_lt (Nat.lt_trans hk hm))
      exact isSome_bind (isSome_expression hM hp₂ (Nat.le_trans hbudget h)) fun _ _ _ =>
        isSome_pure _
    · exact isSome_fail _
  · exact isSome_fail _

private theorem isSome_finish (tree : Tree) : (finish tree p).isSome = true := by
  refine isSome_bind isSome_token fun t p₁ _ => ?_
  split
  · exact isSome_emit_bind (isSome_pure _)
  · exact isSome_fail _

/-- A line ends within the budget. -/
theorem isSome_line (hM : Measure M) {fuel : Nat} (hn : M p n) (h : g.budget n ≤ fuel) :
    (line g fuel p).isSome = true := by
  refine isSome_bind isSome_token fun t p₁ ht => ?_
  obtain ⟨k, hk, hp₁⟩ := hM.token hn ht
  cases t.kind with
  | stop => exact isSome_pure _
  | keyword =>
      have hbudget := g.budget_mono (Nat.le_of_lt hk)
      exact isSome_bind (isSome_definition hM hp₁ (Nat.le_trans hbudget h)) fun tree _ _ =>
        isSome_finish tree
  | number | name | symbol | leftParen | rightParen | equals =>
      refine isSome_bind isSome_putBack fun _ p₂ hput => ?_
      have hbudget := g.budget_mono (Nat.succ_le_of_lt hk)
      exact isSome_bind (isSome_expression hM (hM.putBack hp₁ hput) (Nat.le_trans hbudget h))
        fun tree _ _ => isSome_finish tree

end Parser

end Calculator
