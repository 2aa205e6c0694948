/-
Where in a line each operation stands.

A tree says which operations a line writes, but not where: the brackets are gone, and
so are the tokens of the operators.  A `Phrase` is a tree that has kept both.  It has
tokens and it has a tree, and what is said of a node of it is said of a place in the
line.

Tokens alone can be laid out in as many ways as there are trees for them.  With the
tree there is one way only (`WellFormed.unique`).  What has to be shown is that a
bracket is never taken for the first operand of an operator.  It would close at the same
place in both (`behindClose`), and all leaves of the tree would stand before that place, but
the operator has one more behind it.
-/
import Calculator.Proofs.Parser.Derivation

namespace Calculator

/-! ### Leaves -/

/-- A token that becomes a leaf of the tree. -/
def Token.isLeaf (t : Token) : Bool :=
  decide (t.kind = .number ∨ t.kind = .name)

/-- How many leaves a tree has; the name that is defined is none. -/
def Tree.leafCount : Tree → Nat
  | .number _ | .var _ => 1
  | .unary _ operand => operand.leafCount
  | .binary _ left right => left.leafCount + right.leafCount
  | .define _ value => value.leafCount

private theorem Tree.leafCount_pos (tree : Tree) : 0 < tree.leafCount := by
  induction tree with
  | number | var => exact Nat.one_pos
  | unary _ _ ih => exact ih
  | binary _ _ _ ih _ => exact Nat.add_pos_left ih _
  | define _ _ ih => exact ih

/-! ### Phrases -/

/-- An expression with the tokens that write it. -/
inductive Phrase where
  /-- A number or a name. -/
  | leaf (t : Token)
  /-- A phrase in brackets. -/
  | bracket (opening : Token) (inner : Phrase) (closing : Token)
  /-- A unary operation, its token and its operand. -/
  | sign (op : UnaryOp) (t : Token) (operand : Phrase)
  /-- A binary operation and its token, between its operands. -/
  | joined (left : Phrase) (op : BinaryOp) (o : Token) (right : Phrase)
deriving DecidableEq

namespace Phrase

/-- The tokens of a phrase, in the order of the line. -/
def tokens : Phrase → List Token
  | leaf t => [t]
  | bracket opening inner closing => opening :: (inner.tokens ++ [closing])
  | sign _ t operand => t :: operand.tokens
  | joined left _ o right => left.tokens ++ o :: right.tokens

/-- The tree of a phrase. -/
def tree : Phrase → Tree
  | leaf t => if t.kind = .number then .number t.text else .var t.text
  | bracket _ inner _ => inner.tree
  | sign op _ operand => .unary op operand.tree
  | joined left op _ right => .binary op left.tree right.tree

theorem tokens_bracket_append (opening : Token) (inner : Phrase) (closing : Token)
    (rest : List Token) :
    (bracket opening inner closing).tokens ++ rest
      = opening :: (inner.tokens ++ closing :: rest) := by
  simp [tokens]

theorem tokens_joined_append (left : Phrase) (op : BinaryOp) (o : Token) (right : Phrase)
    (rest : List Token) :
    (joined left op o right).tokens ++ rest = left.tokens ++ o :: (right.tokens ++ rest) := by
  simp [tokens]

/-- Every token of the phrase writes what the phrase takes it for. -/
inductive WellFormed (g : Grammar) : Phrase → Prop
  | leaf {t : Token} (ht : t.kind = .number ∨ t.kind = .name) : WellFormed g (.leaf t)
  | bracket {opening closing : Token} {inner : Phrase} (hopening : opening.kind = .leftParen)
      (hinner : WellFormed g inner) (hclosing : closing.kind = .rightParen) :
      WellFormed g (.bracket opening inner closing)
  | sign {op : UnaryOp} {priority : Nat} {t : Token} {operand : Phrase}
      (ht : g.IsSignOf op priority t) (hoperand : WellFormed g operand) :
      WellFormed g (.sign op t operand)
  | joined {left right : Phrase} {op : BinaryOp} {level : Nat} {o : Token}
      (hleft : WellFormed g left) (ho : g.IsOperatorOf level op o) (hright : WellFormed g right) :
      WellFormed g (.joined left op o right)

variable {g : Grammar}

/-! ### The leaves of a phrase are those of its tree -/

/-- **As many leaves stand in the line as in the tree.** -/
theorem WellFormed.countP_isLeaf {c : Phrase} (h : c.WellFormed g) :
    c.tokens.countP Token.isLeaf = c.tree.leafCount := by
  induction h with
  | @leaf t ht =>
      have hleaf : t.isLeaf = true := by simpa [Token.isLeaf] using ht
      rcases ht with ht | ht <;> simp [tokens, tree, Tree.leafCount, hleaf, ht]
  | @bracket opening closing inner hopening _ hclosing ih =>
      have hopen : opening.isLeaf = false := by simp [Token.isLeaf, hopening]
      have hclose : closing.isLeaf = false := by simp [Token.isLeaf, hclosing]
      simp [tokens, tree, hopen, hclose, ih]
  | @sign _ _ t _ ht _ ih =>
      have hsign : t.isLeaf = false := by simp [Token.isLeaf, ht.1]
      simp [tokens, tree, Tree.leafCount, hsign, ih]
  | @joined _ _ _ _ o _ ho _ ihleft ihright =>
      have hop : o.isLeaf = false := by simp [Token.isLeaf, ho.1]
      simp [tokens, tree, Tree.leafCount, hop, ihleft, ihright]

/-! ### Brackets close in one place -/

/-- What stands behind the bracket that closes so many others and one more. -/
def behindClose : Nat → List Token → List Token
  | _, [] => []
  | depth, t :: ts =>
    if t.kind = .leftParen then behindClose (depth + 1) ts
    else if t.kind = .rightParen then
      match depth with
      | 0 => ts
      | depth + 1 => behindClose depth ts
    else behindClose depth ts

/-- The tokens of a phrase close no bracket before it. -/
theorem WellFormed.behindClose_tokens_append {c : Phrase} (h : c.WellFormed g) (depth : Nat)
    (rest : List Token) : behindClose depth (c.tokens ++ rest) = behindClose depth rest := by
  induction h generalizing depth rest with
  | leaf ht => rcases ht with ht | ht <;> simp [tokens, behindClose, ht]
  | bracket hopening _ hclosing ih => simp [tokens, behindClose, hopening, hclosing, ih]
  | sign ht _ ih => simp [tokens, behindClose, ht.1, ih]
  | joined _ ho _ ihleft ihright => simp [tokens, behindClose, ho.1, ihleft, ihright]

/-- A closing bracket behind a phrase is the one that closes what was opened before the phrase. -/
theorem WellFormed.behindClose_append {c : Phrase} {closing : Token} (h : c.WellFormed g)
    (hclosing : closing.kind = .rightParen) (rest : List Token) :
    behindClose 0 (c.tokens ++ closing :: rest) = rest := by
  rw [h.behindClose_tokens_append]
  simp [behindClose, hclosing]

/-- A phrase has a first token. -/
private theorem exists_tokens_eq_cons (c : Phrase) : ∃ t us, c.tokens = t :: us := by
  induction c with
  | leaf | bracket | sign => exact ⟨_, _, rfl⟩
  | joined left _ o right ih _ =>
      obtain ⟨t, us, hleft⟩ := ih
      exact ⟨t, us ++ o :: right.tokens, by rw [tokens, hleft, List.cons_append]⟩

/-- A phrase that begins with a bracket begins with all of it, up to where it closes. -/
theorem WellFormed.exists_inner {c : Phrase} {opening : Token} {us : List Token}
    (h : c.WellFormed g) (hc : c.tokens = opening :: us) (hopening : opening.kind = .leftParen) :
    ∃ inner closing mid, WellFormed g inner ∧ closing.kind = .rightParen ∧
      us = inner.tokens ++ closing :: mid := by
  induction h generalizing us with
  | leaf ht =>
      obtain ⟨rfl, -⟩ := List.cons.inj hc
      simp [hopening] at ht
  | @bracket _ closing inner _ hinner hclosing _ =>
      obtain ⟨-, rfl⟩ := List.cons.inj hc
      exact ⟨inner, closing, [], hinner, hclosing, rfl⟩
  | sign ht =>
      obtain ⟨rfl, -⟩ := List.cons.inj hc
      simp [Grammar.IsSignOf, hopening] at ht
  | @joined left right _ _ o _ _ _ ih _ =>
      obtain ⟨t, vs, hleft⟩ := left.exists_tokens_eq_cons
      rw [tokens, hleft, List.cons_append] at hc
      obtain ⟨rfl, rfl⟩ := List.cons.inj hc
      obtain ⟨inner, closing, mid, hinner, hclosing, rfl⟩ := ih hleft
      exact ⟨inner, closing, mid ++ o :: right.tokens, hinner, hclosing, by simp⟩

/-! ### A line is laid out in one way -/

/-- **A bracket is not the beginning of an operation** that has the same tree. -/
theorem bracket_ne_joined {c left right : Phrase} {opening closing o : Token} {op : BinaryOp}
    {rest rest' : List Token} (h : WellFormed g (bracket opening c closing))
    (h' : WellFormed g (joined left op o right))
    (htree : (joined left op o right).tree = (bracket opening c closing).tree) :
    (bracket opening c closing).tokens ++ rest ≠ (joined left op o right).tokens ++ rest' := by
  intro htokens
  -- Behind the two stand equally many leaves, because in them there are.
  have hleaves : (bracket opening c closing).tokens.countP Token.isLeaf
      = (joined left op o right).tokens.countP Token.isLeaf := by
    rw [h.countP_isLeaf, h'.countP_isLeaf, htree]
  have hcount := congrArg (List.countP Token.isLeaf) htokens
  rw [List.countP_append, List.countP_append, hleaves, Nat.add_left_cancel_iff] at hcount
  cases h with
  | bracket hopening hc hclosing =>
      cases h' with
      | joined hleft _ hright =>
          -- But the first operand begins with a bracket too, which closes where this one does.
          obtain ⟨t, us, hus⟩ := left.exists_tokens_eq_cons
          rw [tokens_bracket_append, tokens_joined_append, hus, List.cons_append] at htokens
          obtain ⟨rfl, htail⟩ := List.cons.inj htokens
          obtain ⟨inner, closing', mid, hinner, hclosing', rfl⟩ :=
            hleft.exists_inner hus hopening
          rw [List.append_assoc, List.cons_append] at htail
          have hrest : rest = mid ++ o :: (right.tokens ++ rest') := by
            rw [← hc.behindClose_append hclosing rest, htail, hinner.behindClose_append hclosing']
          have hpos : 0 < right.tokens.countP Token.isLeaf :=
            hright.countP_isLeaf ▸ right.tree.leafCount_pos
          rw [hrest, List.countP_append, List.countP_cons, List.countP_append] at hcount
          omega

/-- **The tokens and the tree of a line leave one way to lay it out.** -/
theorem WellFormed.unique {c c' : Phrase} {rest rest' : List Token} (h : c.WellFormed g)
    (h' : c'.WellFormed g) (htokens : c.tokens ++ rest = c'.tokens ++ rest')
    (htree : c'.tree = c.tree) : c' = c ∧ rest' = rest := by
  induction h generalizing c' rest rest' with
  | @leaf t ht =>
      cases h' with
      | leaf => simp_all [tokens]
      | bracket hopening => simp_all [tokens]
      | sign ht' => simp_all [tokens, Grammar.IsSignOf]
      | joined => rcases ht with ht | ht <;> simp [tree, ht] at htree
  | @bracket opening closing inner hopening hinner hclosing ih =>
      cases h' with
      | leaf ht' => simp_all [tokens]
      | @bracket opening' closing' inner' _ hinner' _ =>
          rw [tokens_bracket_append, tokens_bracket_append] at htokens
          obtain ⟨rfl, hinside⟩ := List.cons.inj htokens
          obtain ⟨rfl, hclose⟩ := ih hinner' hinside htree
          obtain ⟨rfl, rfl⟩ := List.cons.inj hclose
          exact ⟨rfl, rfl⟩
      | sign ht' => simp_all [tokens, Grammar.IsSignOf]
      | joined hleft' ho' hright' =>
          exact absurd htokens (bracket_ne_joined (.bracket hopening hinner hclosing)
            (.joined hleft' ho' hright') htree)
  | @sign op _ t operand ht hoperand ih =>
      cases h' with
      | leaf ht' => simp_all [tokens, Grammar.IsSignOf]
      | bracket hopening' => simp_all [tokens, Grammar.IsSignOf]
      | sign _ hoperand' =>
          obtain ⟨rfl, hbehind⟩ := List.cons.inj htokens
          obtain ⟨rfl, hoperands⟩ := Tree.unary.inj htree
          obtain ⟨rfl, rfl⟩ := ih hoperand' hbehind hoperands
          exact ⟨rfl, rfl⟩
      | joined => cases htree
  | @joined left right op _ o hleft ho hright ihleft ihright =>
      cases h' with
      | leaf ht' => rcases ht' with ht' | ht' <;> simp [tree, ht'] at htree
      | bracket hopening' hinner' hclosing' =>
          exact absurd htokens.symm (bracket_ne_joined (.bracket hopening' hinner' hclosing')
            (.joined hleft ho hright) htree.symm)
      | sign => cases htree
      | joined hleft' _ hright' =>
          obtain ⟨rfl, hlefts, hrights⟩ := Tree.binary.inj htree
          rw [tokens_joined_append, tokens_joined_append] at htokens
          obtain ⟨rfl, hmid⟩ := ihleft hleft' htokens hlefts
          obtain ⟨rfl, hbehind⟩ := List.cons.inj hmid
          obtain ⟨rfl, rfl⟩ := ihright hright' hbehind.symm hrights
          exact ⟨rfl, rfl⟩

/-- Two phrases with the same tokens and the same tree are one. -/
theorem WellFormed.eq_of_tokens_eq {c c' : Phrase} (h : c.WellFormed g) (h' : c'.WellFormed g)
    (htokens : c'.tokens = c.tokens) (htree : c'.tree = c.tree) : c' = c := by
  have hnil : c.tokens ++ [] = c'.tokens ++ [] := by rw [htokens]
  exact (h.unique h' hnil htree).1

/-- The phrase is the expression of a line that has these tokens and this tree. -/
inductive LaysOut (g : Grammar) (c : Phrase) : List Token → Tree → Prop
  | expression {ts : List Token} {tree : Tree} (h : c.WellFormed g) (hts : c.tokens = ts)
      (htree : c.tree = tree) : LaysOut g c ts tree
  | definition {k x e : Token} {ts : List Token} {value : Tree} (hk : k.kind = .keyword)
      (hx : x.kind = .name) (he : e.kind = .equals) (h : c.WellFormed g) (hts : c.tokens = ts)
      (htree : c.tree = value) : LaysOut g c (k :: x :: e :: ts) (.define x.text value)

/-- A phrase defines nothing. -/
private theorem tree_ne_define (c : Phrase) (name : String) (value : Tree) :
    c.tree ≠ .define name value := by
  induction c with
  | leaf t =>
      rw [tree]
      split <;> simp
  | bracket _ _ _ ih => exact ih
  | sign | joined => simp [tree]

/-- **A line is laid out in one way.** -/
theorem LaysOut.unique {c c' : Phrase} {ts : List Token} {tree : Tree} (h : c.LaysOut g ts tree)
    (h' : c'.LaysOut g ts tree) : c' = c := by
  cases h with
  | expression h hts htree =>
      cases h' with
      | expression h' hts' htree' =>
          exact h.eq_of_tokens_eq h' (hts'.trans hts.symm) (htree'.trans htree.symm)
      | definition => exact absurd htree (c.tree_ne_define _ _)
  | definition _ _ _ h hts htree =>
      cases h' with
      | expression _ _ htree' => exact absurd htree' (c'.tree_ne_define _ _)
      | definition _ _ _ h' hts' htree' =>
          exact h.eq_of_tokens_eq h' (hts'.trans hts.symm) (htree'.trans htree.symm)

end Phrase

end Calculator
