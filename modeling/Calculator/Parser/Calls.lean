/-
The calls that the parsers of an expression make.

`Calls` lists them, one constructor for each place in the parsers where a call stands, with
what has been read before it.  It lists all of them: a parser gives a step as soon as the
calls that it makes do (`isSome_of_calls`).  So whether reading comes to an end is a
question about chains of calls, and no longer one about the parsers.
-/
import Calculator.Parser.Expression

namespace Calculator

namespace Parser

variable {σ : Type} [TokenStream σ]

/-- The parser of a part. -/
def part (g : Grammar) (fuel : Nat) : Part → Parser σ Tree
  | .expression level => expression g fuel level
  | .chain level left => chain g fuel level left
  | .operand => operand g fuel

/-- The parser of the first part, on the first stream, calls the parser of the second on the
second, if what it has read so far was read as the constructor says. -/
inductive Calls (g : Grammar) : Part × PushBack σ → Part × PushBack σ → Prop
  /-- Past the last level an expression is an operand. -/
  | operand {level : Nat} {p : PushBack σ} (hlevel : g.height ≤ level) :
      Calls g (.expression level, p) (.operand, p)
  /-- Any other level begins with the next tighter one. -/
  | tighter {level : Nat} {p : PushBack σ} (hlevel : level < g.height) :
      Calls g (.expression level, p) (.expression (level + 1), p)
  /-- Behind an operator that groups from the right comes the level again. -/
  | right {fuel level : Nat} {p p₁ p₂ : PushBack σ} {left : Tree} {op : BinaryOp}
      (hlevel : level < g.height) (hleft : (expression g fuel (level + 1)).Returns p left p₁)
      (hgroups : g.groupsFromRight level = true)
      (hop : (operator g level).Returns p₁ (some op) p₂) :
      Calls g (.expression level, p) (.expression level, p₂)
  /-- A level that groups from the left goes on with a chain. -/
  | chain {fuel level : Nat} {p p₁ : PushBack σ} {left : Tree} (hlevel : level < g.height)
      (hleft : (expression g fuel (level + 1)).Returns p left p₁)
      (hgroups : g.groupsFromRight level = false) :
      Calls g (.expression level, p) (.chain level left, p₁)
  /-- Behind an operator of a chain comes the next tighter level. -/
  | link {level : Nat} {p p₁ : PushBack σ} {left : Tree} {op : BinaryOp}
      (hop : (operator g level).Returns p (some op) p₁) :
      Calls g (.chain level left, p) (.expression (level + 1), p₁)
  /-- Behind that the chain goes round. -/
  | again {fuel level : Nat} {p p₁ p₂ : PushBack σ} {left right : Tree} {op : BinaryOp}
      (hop : (operator g level).Returns p (some op) p₁)
      (hright : (expression g fuel (level + 1)).Returns p₁ right p₂) :
      Calls g (.chain level left, p) (.chain level (.binary op left right), p₂)
  /-- Behind a bracket comes the loosest level. -/
  | bracket {p p₁ : PushBack σ} {t : Token} (ht : (token : Parser σ Token).Returns p t p₁)
      (hkind : t.kind = .leftParen) : Calls g (.operand, p) (.expression 0, p₁)
  /-- Behind a sign comes the level of its operand. -/
  | sign {p p₁ : PushBack σ} {t : Token} {priority : Nat} {op : UnaryOp}
      (ht : (token : Parser σ Token).Returns p t p₁) (hkind : t.kind = .symbol)
      (hpriority : g.priorityOf t.text = .ok (some priority)) (hop : g.unaryOp t.text = .ok op) :
      Calls g (.operand, p) (.expression (g.operandLevel priority), p₁)

/-- How many levels a part may still go through, an operand being the last. -/
def rank (g : Grammar) : Part → Nat
  | .expression level | .chain level _ => g.height - level + 1
  | .operand => 0

theorem rank_le (g : Grammar) (c : Part) : rank g c ≤ g.height + 1 := by
  cases c with
  | expression | chain => exact Nat.succ_le_succ (Nat.sub_le _ _)
  | operand => exact Nat.zero_le _

variable {g : Grammar} {p : PushBack σ}

private theorem isSome_operator (g : Grammar) (level : Nat) (p : PushBack σ) :
    (operator g level p).isSome = true := by
  refine isSome_bind isSome_token fun t p₁ _ => ?_
  cases g.tokenOp? level t with
  | some op => exact isSome_pure _
  | none => exact isSome_bind isSome_putBack fun _ _ _ => isSome_pure _

/-- **A parser gives a step as soon as the calls that it makes do.** -/
theorem isSome_of_calls {fuel : Nat} {c : Part}
    (h : ∀ c' p', Calls g (c, p) (c', p') → (part g fuel c' p').isSome = true) :
    (part g (fuel + 1) c p).isSome = true := by
  cases c with
  | expression level =>
      rw [part, expression]
      split
      · rename_i hlevel
        exact h _ _ (.operand hlevel)
      · rename_i hlevel
        have hlt : level < g.height := Nat.lt_of_not_le hlevel
        refine isSome_bind (h _ _ (.tighter hlt)) fun left p₁ hleft => ?_
        split
        · rename_i hgroups
          refine isSome_bind (isSome_operator g level p₁) fun op? p₂ hop => ?_
          cases op? with
          | none => exact isSome_pure _
          | some op =>
              refine isSome_emit_bind ?_
              exact isSome_bind (h _ _ (.right hlt hleft hgroups hop)) fun _ _ _ => isSome_pure _
        · rename_i hgroups
          exact h _ _ (.chain hlt hleft (by simpa using hgroups))
  | chain level left =>
      rw [part, chain]
      refine isSome_bind (isSome_operator g level p) fun op? p₁ hop => ?_
      cases op? with
      | none => exact isSome_pure _
      | some op =>
          refine isSome_emit_bind ?_
          exact isSome_bind (h _ _ (.link hop)) fun right p₂ hright => h _ _ (.again hop hright)
  | operand =>
      rw [part, operand]
      refine isSome_bind isSome_token fun t p₁ ht => ?_
      cases hkind : t.kind with
      | number | name => exact isSome_pure _
      | leftParen =>
          refine isSome_bind (h _ _ (.bracket ht hkind)) fun inner p₂ _ => ?_
          refine isSome_bind isSome_token fun closing p₃ _ => ?_
          split
          · exact isSome_pure _
          · exact isSome_fail _
      | symbol =>
          refine isSome_ofTable_bind fun priority? hpriority => ?_
          cases priority? with
          | none => exact isSome_fail _
          | some priority =>
              refine isSome_ofTable_bind fun op hop => ?_
              exact isSome_bind (h _ _ (.sign ht hkind hpriority hop)) fun _ _ _ => isSome_pure _
      | stop | rightParen | equals | keyword => exact isSome_fail _

end Parser

end Calculator
