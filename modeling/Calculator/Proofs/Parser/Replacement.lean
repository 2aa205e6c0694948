/-
Putting a tree in the place of a variable.

In the tokens of a chain a name gives way to a chain in brackets.  In its tree the
variable then gives way to the tree of that chain, and nothing else changes
(`IsChain.replace`): a bracket is an operand just as a name is, so the tokens are cut
at the same places, the links keep their levels, and a chain is split at its pivot
as before.
-/
import Calculator.Proofs.Parser.Chain
import Calculator.Proofs.Token.Replacement

namespace Calculator

/-- The tree with another in the place of a variable. -/
def Tree.replaceVar (tree : Tree) (name : String) (value : Tree) : Tree :=
  match tree with
  | .number digits => .number digits
  | .var x => if x = name then value else .var x
  | .unary op operand => .unary op (operand.replaceVar name value)
  | .binary op left right => .binary op (left.replaceVar name value) (right.replaceVar name value)
  | .define x tree => .define x (tree.replaceVar name value)

/-- The link with another operand. -/
def Link.mapOperand (f : Tree → Tree) (l : Link) : Link :=
  { l with operand := f l.operand }

namespace Grammar

variable {g : Grammar}

/-! ### Other operands in a chain -/

/-- Which link a chain is split at does not depend on the operands. -/
theorem Pivot.mapOperand {before after : List Link} {k : Link} (h : g.Pivot before k after)
    (f : Tree → Tree) :
    g.Pivot (before.map (.mapOperand f)) (k.mapOperand f) (after.map (.mapOperand f)) := by
  refine ⟨?_, ?_, ?_⟩
  · intro l' hl'
    rw [← List.map_append] at hl'
    obtain ⟨l, hl, rfl⟩ := List.mem_map.1 hl'
    exact h.loosest l hl
  · intro hleft l' hl'
    obtain ⟨l, hl, rfl⟩ := List.mem_map.1 hl'
    exact h.last hleft l hl
  · intro hright l' hl'
    obtain ⟨l, hl, rfl⟩ := List.mem_map.1 hl'
    exact h.first hright l hl

/-- **The tree of a chain changes with its operands alone.** -/
theorem Groups.mapOperand {f : Tree → Tree}
    (hf : ∀ op left right, f (.binary op left right) = .binary op (f left) (f right))
    {a tree : Tree} {links : List Link} (h : g.Groups a links tree) :
    g.Groups (f a) (links.map (.mapOperand f)) (f tree) := by
  induction h with
  | one a => exact .one (f a)
  | split hk _ _ ihleft ihright =>
      rw [List.map_append, List.map_cons, hf]
      exact .split (hk.mapOperand f) ihleft ihright

theorem Groups.replaceVar {a tree : Tree} {links : List Link} (h : g.Groups a links tree)
    (name : String) (value : Tree) :
    g.Groups (a.replaceVar name value) (links.map (.mapOperand (·.replaceVar name value)))
      (tree.replaceVar name value) :=
  h.mapOperand (f := (·.replaceVar name value)) fun _ _ _ => rfl

/-! ### A chain in the place of a name -/

/-- The piece with another operand in the place of each. -/
def Piece.mapOperand (f : Tree → Tree) : Piece → Piece
  | .operand tree => .operand (f tree)
  | .links ls => .links (ls.map (.mapOperand f))

variable {name : String} {new : List Token} {value : Tree}

/-- A bracket is no operator, so an operand ends where it ended. -/
theorem EndsAt.replaceTokens {level : Nat} {ts : List Token} (h : g.EndsAt level ts) :
    g.EndsAt level (replaceTokens name new ts) := by
  intro t ht l op hlevel ho
  rcases mem_head?_replaceTokens ht with ht | hmark
  · exact h t ht l op hlevel ho
  · exact hmark.2 ho.1

/-- **Tokens are cut as before** when a name gives way to a chain in brackets. -/
theorem Cuts.replace (hnew : ∀ rest, g.Cuts (.operand value) (Token.bracketed new ++ rest) rest)
    {piece : Piece} {ts rest : List Token} (h : g.Cuts piece ts rest) :
    g.Cuts (piece.mapOperand (·.replaceVar name value)) (replaceTokens name new ts)
      (replaceTokens name new rest) := by
  have hkeep : ∀ {t : Token} (ts : List Token), t.kind ≠ .name →
      replaceTokens name new (t :: ts) = t :: replaceTokens name new ts := by
    intro t ts ht
    rw [replaceTokens_cons, Token.replace_of_kind_ne ht]
    rfl
  induction h with
  | number ht =>
      rw [hkeep _ (by simp [ht])]
      exact .number ht
  | @name t rest ht =>
      rw [replaceTokens_cons, Token.replace]
      by_cases hname : t = ⟨.name, name⟩
      · have htree : (Tree.var t.text).replaceVar name value = value := by
          simp [Tree.replaceVar, hname]
        rw [if_pos hname, Piece.mapOperand, htree]
        exact hnew _
      · have htext : t.text ≠ name := by
          intro htext
          exact hname (by cases t; simp_all)
        have htree : (Tree.var t.text).replaceVar name value = .var t.text := if_neg htext
        rw [if_neg hname, Piece.mapOperand, htree]
        exact .name ht
  | bracket hl _ _ hr htree ihfirst ihlinks =>
      rw [hkeep _ (by simp [hl])]
      rw [hkeep _ (by simp [hr])] at ihlinks
      exact .bracket hl ihfirst ihlinks hr (htree.replaceVar name value)
  | sign ht _ _ htighter hwhole htree ihfirst ihlinks =>
      rw [hkeep _ (by simp [ht.1])]
      refine .sign ht ihfirst ihlinks ?_ hwhole.replaceTokens (htree.replaceVar name value)
      intro l' hl'
      obtain ⟨l, hl, rfl⟩ := List.mem_map.1 hl'
      exact htighter l hl
  | noLink ts => exact .noLink _
  | link ho _ _ ihoperand ihrest =>
      rw [hkeep _ (by simp [ho.1])]
      exact .link ho ihoperand ihrest

/-- **A name may give way to a chain in brackets**, and the variable then gives way to its tree. -/
theorem IsChain.replace {ts : List Token} {stop : Token} {tree : Tree} (hstop : stop.kind = .stop)
    (hnew : g.IsChain new stop value) (h : g.IsChain ts stop tree) :
    g.IsChain (replaceTokens name new ts) stop (tree.replaceVar name value) := by
  obtain ⟨a, links, mid, hfirst, hlinks, htree⟩ := h
  have hend : ∀ ts,
      replaceTokens name new (ts ++ [stop]) = replaceTokens name new ts ++ [stop] := by
    intro ts
    rw [replaceTokens, List.flatMap_append, List.flatMap_singleton,
      Token.replace_of_kind_ne (by simp [hstop])]
    rfl
  have hoperand : g.Cuts (.operand (a.replaceVar name value))
      (replaceTokens name new (ts ++ [stop])) (replaceTokens name new mid) :=
    hfirst.replace hnew.bracketed
  have hrest : g.Cuts (.links (links.map (.mapOperand (·.replaceVar name value))))
      (replaceTokens name new mid) (replaceTokens name new ([] ++ [stop])) :=
    hlinks.replace hnew.bracketed
  rw [hend] at hoperand hrest
  exact ⟨_, _, _, hoperand, hrest, htree.replaceVar name value⟩

end Grammar

end Calculator
