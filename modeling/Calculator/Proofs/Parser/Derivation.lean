/-
The grammar of a line.

    line      ::=  keyword name "=" level(0)  |  level(0)
    level(p)  ::=  level(p+1) (op(p) level(p+1))*     if p groups from the left
    level(p)  ::=  level(p+1) (op(p) level(p))?       if p groups from the right
    level(n)  ::=  operand                            past the last level
    operand   ::=  number  |  name  |  "(" level(0) ")"
                |  sign level(min(priority(sign)+1, n))

`Derives` is this grammar with the tree that each derivation stands for; a line is a
`Sentence`.  Operators and signs are those of the table, said through its symbols
and not through its look-ups, so nothing here is taken from the parser.

The grammar is ambiguous.  A sign of low priority takes looser operators into its
operand, wherever it stands, and as a derivation may stop an operand before any of
them, the same tokens can have several trees.
-/
import Calculator.Table.Grammar
import Calculator.Token.Basic
import Calculator.Tree

namespace Calculator

namespace Grammar

/-- The token writes a binary operation of a level. -/
def IsOperatorOf (g : Grammar) (level : Nat) (op : BinaryOp) (t : Token) : Prop :=
  t.kind = .symbol ∧ g.binarySymbol op = some t.text ∧
    ∃ l, g.levels[level]? = some l ∧ l.has op = true

/-- The level of an operator is one of the grammar. -/
theorem IsOperatorOf.lt_height {g : Grammar} {level : Nat} {op : BinaryOp} {o : Token}
    (h : g.IsOperatorOf level op o) : level < g.height := by
  obtain ⟨-, -, l, hl, -⟩ := h
  exact (List.getElem?_eq_some_iff.1 hl).1

/-- The token writes a unary operation of a priority. -/
def IsSignOf (g : Grammar) (op : UnaryOp) (priority : Nat) (t : Token) : Prop :=
  t.kind = .symbol ∧ g.unarySymbol op = some t.text ∧ g.unaryPriority op = some priority

/-- The tokens are a part of a line, and the tree is one that they stand for. -/
inductive Derives (g : Grammar) : Part → List Token → Tree → Prop
  | operand {level : Nat} {ts : List Token} {tree : Tree} (hlevel : g.height ≤ level)
      (h : Derives g .operand ts tree) : Derives g (.expression level) ts tree
  | left {level : Nat} {ts us : List Token} {first tree : Tree}
      (hlevel : g.associativity? level = some .left)
      (hfirst : Derives g (.expression (level + 1)) ts first)
      (hrest : Derives g (.chain level first) us tree) :
      Derives g (.expression level) (ts ++ us) tree
  | chainEnd (level : Nat) (left : Tree) : Derives g (.chain level left) [] left
  | chainLink {level : Nat} {op : BinaryOp} {o : Token} {ts us : List Token}
      {left right tree : Tree} (hop : g.IsOperatorOf level op o)
      (hright : Derives g (.expression (level + 1)) ts right)
      (hrest : Derives g (.chain level (.binary op left right)) us tree) :
      Derives g (.chain level left) (o :: (ts ++ us)) tree
  | rightOne {level : Nat} {ts : List Token} {tree : Tree}
      (hlevel : g.associativity? level = some .right)
      (h : Derives g (.expression (level + 1)) ts tree) : Derives g (.expression level) ts tree
  | right {level : Nat} {op : BinaryOp} {o : Token} {ts us : List Token} {left right : Tree}
      (hlevel : g.associativity? level = some .right)
      (hleft : Derives g (.expression (level + 1)) ts left) (hop : g.IsOperatorOf level op o)
      (hright : Derives g (.expression level) us right) :
      Derives g (.expression level) (ts ++ o :: us) (.binary op left right)
  | number {t : Token} (ht : t.kind = .number) : Derives g .operand [t] (.number t.text)
  | name {t : Token} (ht : t.kind = .name) : Derives g .operand [t] (.var t.text)
  | bracket {l r : Token} {ts : List Token} {tree : Tree} (hl : l.kind = .leftParen)
      (h : Derives g (.expression 0) ts tree) (hr : r.kind = .rightParen) :
      Derives g .operand (l :: (ts ++ [r])) tree
  | sign {op : UnaryOp} {priority : Nat} {t : Token} {ts : List Token} {tree : Tree}
      (ht : g.IsSignOf op priority t)
      (h : Derives g (.expression (min (priority + 1) g.height)) ts tree) :
      Derives g .operand (t :: ts) (.unary op tree)

/-- The tokens are a line, and the tree is one that they stand for. -/
inductive Sentence (g : Grammar) : List Token → Tree → Prop
  | expression {ts : List Token} {tree : Tree} (h : g.Derives (.expression 0) ts tree) :
      Sentence g ts tree
  | definition {k x e : Token} {ts : List Token} {value : Tree} (hk : k.kind = .keyword)
      (hx : x.kind = .name) (he : e.kind = .equals) (h : g.Derives (.expression 0) ts value) :
      Sentence g (k :: x :: e :: ts) (.define x.text value)

/-! ### Every part but a chain has a token -/

/-- How many tokens a part has at least. -/
def minimum : Part → Nat
  | .expression _ | .operand => 1
  | .chain _ _ => 0

theorem Derives.minimum_le {g : Grammar} {part : Part} {ts : List Token} {tree : Tree}
    (h : g.Derives part ts tree) : minimum part ≤ ts.length := by
  induction h with
  | operand _ _ ih => exact ih
  | left _ _ _ ih _ =>
      rw [List.length_append]
      exact Nat.le_trans ih (Nat.le_add_right _ _)
  | chainEnd => exact Nat.zero_le _
  | chainLink => exact Nat.zero_le _
  | rightOne _ _ ih => exact ih
  | right _ _ _ _ ih _ =>
      rw [List.length_append]
      exact Nat.le_trans ih (Nat.le_add_right _ _)
  | number => exact Nat.le_refl _
  | name => exact Nat.le_refl _
  | bracket => exact Nat.succ_le_succ (Nat.zero_le _)
  | sign => exact Nat.succ_le_succ (Nat.zero_le _)

/-- A line is not empty. -/
theorem Sentence.ne_nil {g : Grammar} {ts : List Token} {tree : Tree} (h : g.Sentence ts tree) :
    ts ≠ [] := by
  cases h with
  | expression h =>
      have hpos : 1 ≤ ts.length := h.minimum_le
      rintro rfl
      exact absurd hpos (by simp)
  | definition => simp

end Grammar

end Calculator
