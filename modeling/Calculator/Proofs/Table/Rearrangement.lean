/-
The order in which a table is described.

The order of the levels and of the groups is what a table is about.  No other order
is: the operations of a level or group may be listed in any order and more than once,
so may the symbols, and what is said of one kind may come before, between or behind
what is said of the other.  `SameCalls` is that relation between two sequences of
registrations.

The checks of a draft do depend on all this, in what they report.  Whether they report
anything does not, because that is whether the plans are consistent, and a consistent
plan is consistent however it is listed.  A look-up goes by the first of the symbols
that are registered for an operation; in a consistent plan it is the only one.
-/
import Calculator.Proofs.Table.Consistency
import Calculator.Proofs.Table.Views
import Mathlib.Data.Finset.Dedup

namespace Calculator

/-- Leaving out repetitions before a renaming is the same as leaving them out after it, if no two
elements get one name. -/
private theorem eraseDups_filterMap {α β : Type} [DecidableEq α] [DecidableEq β] {f : α → Option β}
    (hinj : ∀ {x y : α} {t : β}, f x = some t → f y = some t → x = y) (l : List α) :
    (l.filterMap f).eraseDups = l.eraseDups.filterMap f := by
  cases l with
  | nil => rfl
  | cons x l =>
      have ih := eraseDups_filterMap hinj (l.filter fun y => !y == x)
      rw [List.eraseDups_cons]
      cases hx : f x with
      | none =>
          -- An element without a name is passed over wherever it stands.
          have hskip : (l.filter fun y => !y == x).filterMap f = l.filterMap f := by
            rw [List.filterMap_filter]
            refine List.filterMap_congr fun y _ => ?_
            by_cases hyx : y = x <;> simp [hyx, hx]
          rw [List.filterMap_cons_none hx, List.filterMap_cons_none hx, ← ih, hskip]
      | some t =>
          have hskip : (l.filter fun y => !y == x).filterMap f
              = (l.filterMap f).filter fun u => !u == t := by
            rw [List.filterMap_filter, List.filter_filterMap]
            refine List.filterMap_congr fun y _ => ?_
            cases hy : f y with
            | none => simp
            | some u =>
                have hiff : y = x ↔ u = t := by
                  constructor
                  · rintro rfl
                    exact Option.some.inj (hy.symm.trans hx)
                  · rintro rfl
                    exact hinj hy hx
                simp [Option.filter, hiff]
          rw [List.filterMap_cons_some hx, List.filterMap_cons_some hx, List.eraseDups_cons, ← ih,
            hskip]
termination_by l.length
decreasing_by exact Nat.lt_succ_of_le (List.length_filter_le _ _)

/-! ### Plans -/

namespace Plan

variable {Op : Type} [DecidableEq Op]

/-- The two plans have the same operations in each group, and the same symbols. -/
structure Rearranges (plan plan' : Plan Op) : Prop where
  /-- The groups are the same sets of operations, in the same order. -/
  groups : plan.groups.map List.toFinset = plan'.groups.map List.toFinset
  /-- The same symbols are registered, in whatever order. -/
  symbols : plan.symbols.toFinset = plan'.symbols.toFinset

namespace Rearranges

variable {plan plan' : Plan Op}

theorem symm (h : plan.Rearranges plan') : plan'.Rearranges plan :=
  ⟨h.groups.symm, h.symbols.symm⟩

private theorem mem_symbols (h : plan.Rearranges plan') (entry : Op × String) :
    entry ∈ plan.symbols ↔ entry ∈ plan'.symbols := by
  rw [← List.mem_toFinset, h.symbols, List.mem_toFinset]

/-- A group has a group with the same operations at its place. -/
private theorem exists_group (h : plan.Rearranges plan') {i : Nat} {b : List Op}
    (hb : plan'.groups[i]? = some b) :
    ∃ a, plan.groups[i]? = some a ∧ ∀ op, op ∈ a ↔ op ∈ b := by
  have hset : (plan.groups.map List.toFinset)[i]? = some b.toFinset := by
    rw [h.groups, List.getElem?_map, hb, Option.map_some]
  rw [List.getElem?_map, Option.map_eq_some_iff] at hset
  obtain ⟨a, ha, hmem⟩ := hset
  exact ⟨a, ha, fun op => by rw [← List.mem_toFinset, hmem, List.mem_toFinset]⟩

/-- **A plan is consistent however it is listed.** -/
theorem consistent (h : plan.Rearranges plan') (hc : plan.Consistent) : plan'.Consistent := by
  refine ⟨?_, ?_, ?_, ?_, ?_⟩
  · intro op htwice
    obtain ⟨i, j, b, b', hne, hb, hop, hb', hop'⟩ := htwice
    obtain ⟨a, ha, hmem⟩ := h.exists_group hb
    obtain ⟨a', ha', hmem'⟩ := h.exists_group hb'
    exact hc.one_group op ⟨i, j, a, a', hne, ha, (hmem op).2 hop, ha', (hmem' op).2 hop'⟩
  · intro op s hs
    exact hc.lexable ((h.mem_symbols _).2 hs)
  · intro op s s' hs hs'
    exact hc.one_symbol ((h.mem_symbols _).2 hs) ((h.mem_symbols _).2 hs')
  · intro op op' s hs hs'
    exact hc.one_op ((h.mem_symbols _).2 hs) ((h.mem_symbols _).2 hs')
  · intro b hb op hop
    obtain ⟨i, hi⟩ := List.mem_iff_getElem?.1 hb
    obtain ⟨a, ha, hmem⟩ := h.exists_group hi
    obtain ⟨s, hs⟩ := hc.written a (List.mem_iff_getElem?.2 ⟨i, ha⟩) op ((hmem op).2 hop)
    exact ⟨s, (h.mem_symbols _).1 hs⟩

private theorem consistent_iff (h : plan.Rearranges plan') : plan.Consistent ↔ plan'.Consistent :=
  ⟨h.consistent, h.symm.consistent⟩

/-- An operation has the same priority. -/
theorem priority_eq (h : plan.Rearranges plan') : plan.priority = plan'.priority := by
  have hset : ∀ (p : Plan Op) (op : Op),
      p.priority op = (p.groups.map List.toFinset).findIdx? fun s => decide (op ∈ s) := by
    intro p op
    rw [priority, List.findIdx?_map]
    simp only [Function.comp_def, List.mem_toFinset]
  funext op
  rw [hset, hset, h.groups]

variable [Operation Op]

/-- An operation has the same symbol, as it has only one. -/
theorem symbol_eq (h : plan.Rearranges plan') (hc : plan.Consistent) :
    plan.symbol = plan'.symbol := by
  have hagree : Agree plan.symbols := hc.faultless.agree
  have hagree' : Agree plan'.symbols := (h.consistent hc).faultless.agree
  funext op
  ext s
  rw [hagree.symbol_eq_some_iff, hagree'.symbol_eq_some_iff, h.mem_symbols]

/-- The symbols are listed alike if the operations are first named in the same order. -/
theorem placedSymbols_eq (h : plan.Rearranges plan') (hc : plan.Consistent)
    (horder : plan.placed.eraseDups = plan'.placed.eraseDups) :
    plan.placedSymbols = plan'.placedSymbols := by
  have hagree : Agree plan.symbols := hc.faultless.agree
  have hagree' : Agree plan'.symbols := (h.consistent hc).faultless.agree
  rw [placedSymbols, placedSymbols, eraseDups_filterMap hagree.symbol_inj,
    eraseDups_filterMap hagree'.symbol_inj, horder, h.symbol_eq hc]

end Rearranges

end Plan

/-! ### Registrations -/

/-- How the levels among some registrations are grouped, in order. -/
def associativitiesOf (registrations : List Registration) : List Associativity :=
  registrations.filterMap fun
    | .level _ associativity => some associativity
    | .group _ | .binarySymbol _ _ | .unarySymbol _ _ => none

/-- The two sequences register the same levels and the same groups in the same order, each with the
same operations in any order and number, and the same symbols.  How the registrations of levels,
groups and symbols are interleaved is left open. -/
structure SameCalls (registrations registrations' : List Registration) : Prop where
  binary : (Plan.binaryOf registrations).Rearranges (Plan.binaryOf registrations')
  unary : (Plan.unaryOf registrations).Rearranges (Plan.unaryOf registrations')
  /-- A level is grouped alike in both. -/
  associativities : associativitiesOf registrations = associativitiesOf registrations'

/-! ### Drafts -/

namespace Draft

/-- The two drafts say the same of each kind, and group each level alike. -/
structure Rearranges (d d' : Draft) : Prop where
  binary : d.binary.Rearranges d'.binary
  unary : d.unary.Rearranges d'.unary
  associativities : d.levels.map Prod.snd = d'.levels.map Prod.snd

private theorem associativities_registerAll (d : Draft) (registrations : List Registration) :
    (d.registerAll registrations).levels.map Prod.snd
      = d.levels.map Prod.snd ++ associativitiesOf registrations := by
  induction registrations generalizing d with
  | nil => simp [registerAll, associativitiesOf]
  | cons r rest ih =>
      have hcons : d.registerAll (r :: rest) = (d.register r).registerAll rest := rfl
      rw [hcons, ih]
      cases r <;> simp [register, associativitiesOf]

theorem rearranges_of_sameCalls {registrations registrations' : List Registration}
    (h : SameCalls registrations registrations') :
    (empty.registerAll registrations).Rearranges (empty.registerAll registrations') := by
  refine ⟨?_, ?_, ?_⟩
  · rw [binary_empty_registerAll, binary_empty_registerAll]
    exact h.binary
  · rw [unary_empty_registerAll, unary_empty_registerAll]
    exact h.unary
  · rw [associativities_registerAll, associativities_registerAll, h.associativities]

/-- The levels of a table are the sets of the operations in the groups, with their groupings. -/
theorem levels_table (d : Draft) : d.table.grammar.levels
    = List.zipWith (fun ops associativity => ⟨fun op => decide (op ∈ ops), associativity⟩)
        (d.binary.groups.map List.toFinset) (d.levels.map Prod.snd) := by
  simp [table, binary, List.zipWith_map, Level.ofList]

namespace Rearranges

variable {d d' : Draft} (h : d.Rearranges d')

include h

/-- **A draft is built or not, however it is listed.** -/
theorem isOk_build_iff : (∃ t, d.build = .ok t) ↔ ∃ t, d'.build = .ok t := by
  simp only [build_eq_ok_iff_consistent, exists_and_left, exists_eq', and_true,
    h.binary.consistent_iff, h.unary.consistent_iff]

variable {t t' : Table} (hb : d.build = .ok t) (hb' : d'.build = .ok t')

include hb hb'

/-- **The two tables have one grammar.** -/
theorem grammar_eq : t.grammar = t'.grammar := by
  obtain ⟨⟨hbinary, hunary⟩, rfl⟩ := build_eq_ok_iff_consistent.1 hb
  obtain ⟨-, rfl⟩ := build_eq_ok_iff_consistent.1 hb'
  have hlevels : d.table.grammar.levels = d'.table.grammar.levels := by
    rw [levels_table, levels_table, h.binary.groups, h.associativities]
  rw [Grammar.mk.injEq]
  exact ⟨hlevels, h.binary.symbol_eq hbinary, h.unary.symbol_eq hunary, h.unary.priority_eq⟩

/-- They have one lexicon too if the operations are first named in the same order. -/
theorem lexicon_eq (hbinaryOrder : d.binary.placed.eraseDups = d'.binary.placed.eraseDups)
    (hunaryOrder : d.unary.placed.eraseDups = d'.unary.placed.eraseDups) :
    t.lexicon = t'.lexicon := by
  obtain ⟨⟨hbinary, hunary⟩, rfl⟩ := build_eq_ok_iff_consistent.1 hb
  obtain ⟨-, rfl⟩ := build_eq_ok_iff_consistent.1 hb'
  rw [table, table, h.binary.placedSymbols_eq hbinary hbinaryOrder,
    h.unary.placedSymbols_eq hunary hunaryOrder]

end Rearranges

end Draft

end Calculator
