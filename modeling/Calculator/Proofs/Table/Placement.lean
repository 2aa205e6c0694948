/-
Every operation of a table has one place, and a symbol if it has a place.

`Table.Sound` is about symbols: which of them a line is cut at, and that each writes
one operation of a kind.  What is added here is about places.  A binary operation
stands in one level, so the level of an operator is a fact about its token, and an
operation that stands somewhere can be written.

The check of the places walks through the groups with all the operations before them
in hand.  `repeated?_eq_none_iff` says what it has found out in the end, without the
walk: no operation of a group stands in an earlier one.
-/
import Calculator.Proofs.Table.Sound

namespace Calculator

namespace Plan

variable {Op : Type} [DecidableEq Op]

/-- **No operation is repeated** exactly if none stands in two groups, or in one and before them. -/
theorem repeated?_eq_none_iff {earlier : List Op} {groups : List (List Op)} :
    repeated? earlier groups = none ↔
      (∀ group ∈ groups, ∀ op ∈ group, op ∉ earlier) ∧
        groups.Pairwise fun a b => ∀ op ∈ b, op ∉ a := by
  induction groups generalizing earlier with
  | nil => simp [repeated?]
  | cons group rest ih =>
      rw [repeated?, Option.or_eq_none_iff, ih, List.pairwise_cons, List.forall_mem_cons]
      simp only [List.find?_eq_none, decide_eq_true_eq, List.mem_append, not_or]
      constructor
      · intro h
        obtain ⟨hgroup, hrest, hpairwise⟩ := h
        exact ⟨⟨hgroup, fun g hg op hop => (hrest g hg op hop).1⟩,
          fun g hg op hop => (hrest g hg op hop).2, hpairwise⟩
      · intro h
        obtain ⟨⟨hgroup, hearlier⟩, hlater, hpairwise⟩ := h
        exact ⟨hgroup, fun g hg op hop => ⟨hearlier g hg op hop, hlater g hg op hop⟩, hpairwise⟩

/-- Where no operation is repeated, two groups that hold the same one are the same group. -/
theorem eq_of_mem_of_mem [Operation Op] {plan : Plan Op} (h : plan.placementFault? = none)
    {i j : Nat} {a b : List Op} (ha : plan.groups[i]? = some a) (hb : plan.groups[j]? = some b)
    {op : Op} (hopa : op ∈ a) (hopb : op ∈ b) : i = j := by
  have hpairwise := (repeated?_eq_none_iff.1 (Option.map_eq_none_iff.1 h)).2
  rw [List.pairwise_iff_getElem] at hpairwise
  obtain ⟨hi, rfl⟩ := List.getElem?_eq_some_iff.1 ha
  obtain ⟨hj, rfl⟩ := List.getElem?_eq_some_iff.1 hb
  rcases Nat.lt_trichotomy i j with hlt | heq | hlt
  · exact absurd hopa (hpairwise i j hi hj hlt op hopb)
  · exact heq
  · exact absurd hopb (hpairwise j i hj hi hlt op hopa)

/-- Where no symbol is missing, a placed operation has one. -/
theorem exists_symbol_of_mem_placed [Operation Op] {plan : Plan Op}
    (h : plan.omissionFault? = none) {op : Op} (hop : op ∈ plan.placed) :
    ∃ s, plan.symbol op = some s := by
  have hall := List.find?_eq_none.1 (Option.map_eq_none_iff.1 h) op hop
  simpa [Option.isNone_iff_eq_none, Option.ne_none_iff_exists'] using hall

end Plan

/-- Each operation has one place at most, and a symbol if it has one. -/
structure Grammar.Orderly (g : Grammar) : Prop where
  /-- A binary operation stands in one level. -/
  one_level : ∀ {op : BinaryOp} {i j : Nat} {l m : Level}, g.levels[i]? = some l →
    l.has op = true → g.levels[j]? = some m → m.has op = true → i = j
  /-- A binary operation that stands in a level can be written. -/
  binary_written : ∀ {op : BinaryOp}, g.Places op → ∃ s, g.binarySymbol op = some s
  /-- A unary operation that has a priority can be written. -/
  unary_written : ∀ {op : UnaryOp} {priority : Nat}, g.unaryPriority op = some priority →
    ∃ s, g.unarySymbol op = some s

namespace Draft

/-- **A table that is built is orderly.** -/
theorem orderly_of_build {d : Draft} {t : Table} (h : d.build = .ok t) : t.grammar.Orderly := by
  obtain ⟨hfault, rfl⟩ := build_eq_ok_iff.1 h
  obtain ⟨hbinary, hunary⟩ := fault?_eq_none_iff.1 hfault
  refine ⟨?_, ?_, ?_⟩
  · intro op i j l m hi hl hj hm
    obtain ⟨a, ha, hopa⟩ := exists_group_of_level hi hl
    obtain ⟨b, hb, hopb⟩ := exists_group_of_level hj hm
    exact Plan.eq_of_mem_of_mem hbinary.placed ha hb hopa hopb
  · intro op hop
    exact Plan.exists_symbol_of_mem_placed hbinary.written (placed_binary_iff.2 hop)
  · intro op priority hpriority
    exact Plan.exists_symbol_of_mem_placed hunary.written (Plan.mem_placed_iff.2 ⟨priority, hpriority⟩)

end Draft

end Calculator
