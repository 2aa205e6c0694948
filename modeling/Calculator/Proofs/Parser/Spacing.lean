/-
The numbers of the levels do not matter, only their order.

Take a grammar and put its levels at other numbers, in the same order, with empty
levels between them, and give every sign the new number of its priority
(`Respaces`).  A chain is cut and split by comparing levels with each other and with
priorities, and no comparison comes out differently.  Where the comparison is with
all levels behind one, as for what may follow the operand of a sign, it is enough
that nothing stands in the levels that are new (`source`).

A priority need not be the number of a level; it keeps its side of each of them.
-/
import Calculator.Proofs.Parser.Chain
import Calculator.Proofs.Parser.Marks
import Mathlib.Order.Monotone.Basic

namespace Calculator

/-- The link at the new number of its level. -/
def Link.move (place : Nat → Nat) (l : Link) : Link :=
  { l with level := place l.level }

namespace Grammar

/-- The piece with its links at the new numbers of their levels. -/
def Piece.move (place : Nat → Nat) : Piece → Piece
  | .operand tree => .operand tree
  | .links ls => .links (ls.map (.move place))

/-- The levels of the first grammar stand in the second one at new numbers, in the same order.
What else there is in the second grammar is empty, and the two write their operations alike. -/
structure Respaces (g g' : Grammar) (place : Nat → Nat) : Prop where
  /-- A tighter level, or priority, stays tighter. -/
  strictMono : StrictMono place
  binarySymbol : g.binarySymbol = g'.binarySymbol
  unarySymbol : g.unarySymbol = g'.unarySymbol
  /-- A level stands at its new number. -/
  level : ∀ {i : Nat} {l : Level}, g.levels[i]? = some l → g'.levels[place i]? = some l
  /-- Nothing stands in a level that is new. -/
  source : ∀ {j : Nat} {l : Level} {op : BinaryOp}, g'.levels[j]? = some l → l.has op = true →
    ∃ i, g.levels[i]? = some l ∧ place i = j
  /-- A priority has its new number. -/
  priority : ∀ op, g'.unaryPriority op = (g.unaryPriority op).map place

namespace Respaces

variable {g g' : Grammar} {place : Nat → Nat} (h : g.Respaces g' place)

include h

/-- Nothing is written otherwise, and nothing loses its place. -/
theorem sameOperations : g.SameOperations g' := by
  refine ⟨h.binarySymbol, h.unarySymbol, ?_, ?_⟩
  · intro op
    constructor
    · rintro ⟨i, l, hl, hop⟩
      exact ⟨place i, l, h.level hl, hop⟩
    · rintro ⟨j, l, hl, hop⟩
      obtain ⟨i, hi, -⟩ := h.source hl hop
      exact ⟨i, l, hi, hop⟩
  · intro op
    rw [h.priority, Option.isSome_map]

/-- An operator is one at the new number of its level. -/
theorem isOperatorOf {level : Nat} {op : BinaryOp} {t : Token} (ht : g.IsOperatorOf level op t) :
    g'.IsOperatorOf (place level) op t := by
  obtain ⟨hkind, hsymbol, l, hl, hop⟩ := ht
  exact ⟨hkind, h.binarySymbol ▸ hsymbol, l, h.level hl, hop⟩

/-- There are no other operators. -/
theorem exists_isOperatorOf {level : Nat} {op : BinaryOp} {t : Token}
    (ht : g'.IsOperatorOf level op t) : ∃ i, g.IsOperatorOf i op t ∧ place i = level := by
  obtain ⟨hkind, hsymbol, l, hl, hop⟩ := ht
  obtain ⟨i, hi, hplace⟩ := h.source hl hop
  exact ⟨i, ⟨hkind, h.binarySymbol ▸ hsymbol, l, hi, hop⟩, hplace⟩

private theorem isSignOf {op : UnaryOp} {priority : Nat} {t : Token}
    (ht : g.IsSignOf op priority t) :
    g'.IsSignOf op (place priority) t := by
  obtain ⟨hkind, hsymbol, hpriority⟩ := ht
  exact ⟨hkind, h.unarySymbol ▸ hsymbol, by rw [h.priority, hpriority, Option.map_some]⟩

/-- A level groups as it did. -/
theorem associativity?_eq {level : Nat} (hlevel : (g.associativity? level).isSome = true) :
    g'.associativity? (place level) = g.associativity? level := by
  rw [associativity?, Option.isSome_map] at hlevel
  obtain ⟨l, hl⟩ := Option.isSome_iff_exists.1 hlevel
  rw [associativity?, associativity?, hl, h.level hl]

/-- No operator is tighter than a sign if none was. -/
theorem endsAt {priority : Nat} {ts : List Token} (hend : g.EndsAt (priority + 1) ts) :
    g'.EndsAt (place priority + 1) ts := by
  intro t ht level op hlevel ho
  obtain ⟨i, hi, rfl⟩ := h.exists_isOperatorOf ho
  exact hend t ht i op (h.strictMono.lt_iff_lt.1 hlevel) hi

/-! ### Chains -/

/-- A chain is split where it was. -/
theorem pivot {before after : List Link} {k : Link}
    (hk : (g.associativity? k.level).isSome = true) (hpivot : g.Pivot before k after) :
    g'.Pivot (before.map (.move place)) (k.move place) (after.map (.move place)) := by
  have hassoc : g'.associativity? (k.move place).level = g.associativity? k.level :=
    h.associativity?_eq hk
  refine ⟨?_, ?_, ?_⟩
  · intro l' hl'
    rw [← List.map_append] at hl'
    obtain ⟨l, hl, rfl⟩ := List.mem_map.1 hl'
    exact h.strictMono.monotone (hpivot.loosest l hl)
  · intro hleft l' hl'
    obtain ⟨l, hl, rfl⟩ := List.mem_map.1 hl'
    exact h.strictMono.injective.ne (hpivot.last (hassoc ▸ hleft) l hl)
  · intro hright l' hl'
    obtain ⟨l, hl, rfl⟩ := List.mem_map.1 hl'
    exact h.strictMono.injective.ne (hpivot.first (hassoc ▸ hright) l hl)

/-- **A chain keeps its tree.** -/
theorem groups {a tree : Tree} {links : List Link} (htree : g.Groups a links tree)
    (hlinks : ∀ l ∈ links, (g.associativity? l.level).isSome = true) :
    g'.Groups a (links.map (.move place)) tree := by
  induction htree with
  | one a => exact .one a
  | @split a left right before after k hk _ _ ihleft ihright =>
      rw [List.forall_mem_append, List.forall_mem_cons] at hlinks
      obtain ⟨hbefore, hlevel, hafter⟩ := hlinks
      rw [List.map_append, List.map_cons]
      exact .split (h.pivot hlevel hk) (ihleft hbefore) (ihright hafter)

/-- **Tokens are cut as they were.** -/
theorem cuts {piece : Piece} {ts rest : List Token} (hc : g.Cuts piece ts rest) :
    g'.Cuts (piece.move place) ts rest := by
  induction hc with
  | number ht => exact .number ht
  | name ht => exact .name ht
  | bracket hl _ hlinks hr htree ihfirst ihlinks =>
      exact .bracket hl ihfirst ihlinks hr (h.groups htree hlinks.isSome_associativity?)
  | sign ht _ hlinks htighter hwhole htree ihfirst ihlinks =>
      refine .sign (h.isSignOf ht) ihfirst ihlinks ?_ (h.endsAt hwhole)
        (h.groups htree hlinks.isSome_associativity?)
      intro l' hl'
      obtain ⟨l, hl, rfl⟩ := List.mem_map.1 hl'
      exact h.strictMono (htighter l hl)
  | noLink ts => exact .noLink ts
  | link ho _ _ ihoperand ihrest => exact .link (h.isOperatorOf ho) ihoperand ihrest

theorem isChain {ts : List Token} {stop : Token} {tree : Tree} (hc : g.IsChain ts stop tree) :
    g'.IsChain ts stop tree := by
  obtain ⟨a, links, mid, hfirst, hlinks, htree⟩ := hc
  exact ⟨a, _, mid, h.cuts hfirst, h.cuts hlinks, h.groups htree hlinks.isSome_associativity?⟩

/-- **A line is the chain of the same tree.** -/
theorem isChainLine {ts : List Token} {stop : Token} {tree : Tree}
    (hc : g.IsChainLine ts stop tree) : g'.IsChainLine ts stop tree := by
  cases hc with
  | expression hc => exact .expression (h.isChain hc)
  | definition hk hx he hc => exact .definition hk hx he (h.isChain hc)

end Respaces

end Grammar

end Calculator
