/-
Putting an empty level into a table.

A level that holds nothing, and an empty group with the same number, take a place and
change nothing else: the levels and the priorities from there on have numbers that
are greater by one.  `makeRoom` is that renumbering.  It keeps the order, so the new
grammar is the old one respaced (`respaces_insertLevel`), and what could contradict
something in it did so before (`Consistent.insertGroup`).

The empty group is left out where the groups end before it.  Nothing is lost by
that, as all priorities are then smaller.
-/
import Calculator.Proofs.Parser.Spacing
import Calculator.Proofs.Table.Consistency
import Mathlib.Data.List.InsertIdx

namespace Calculator

/-! ### One more place -/

/-- The number that a place has once one more is put in at `k`. -/
def makeRoom (k i : Nat) : Nat :=
  if i < k then i else i + 1

private theorem strictMono_makeRoom (k : Nat) : StrictMono (makeRoom k) := by
  intro i j h
  unfold makeRoom
  split <;> split <;> omega

section Lists

variable {α : Type} {l : List α} {x : α} {k : Nat}

/-- What stood in a list is found at its new place. -/
private theorem getElem?_insertIdx_makeRoom (i : Nat) :
    (l.insertIdx k x)[makeRoom k i]? = l[i]? := by
  unfold makeRoom
  split
  · exact List.getElem?_insertIdx_of_lt ‹_›
  · rw [List.getElem?_insertIdx_of_gt (by omega), Nat.add_sub_cancel]

/-- What is found in a list is new, or stood in it before. -/
private theorem eq_or_exists_of_getElem?_insertIdx {j : Nat} {y : α}
    (h : (l.insertIdx k x)[j]? = some y) : y = x ∨ ∃ i, l[i]? = some y ∧ makeRoom k i = j := by
  rcases Nat.lt_trichotomy j k with hlt | rfl | hgt
  · rw [List.getElem?_insertIdx_of_lt hlt] at h
    exact Or.inr ⟨j, h, if_pos hlt⟩
  · rw [List.getElem?_insertIdx_self] at h
    split at h
    · exact Or.inl (Option.some.inj h).symm
    · cases h
  · rw [List.getElem?_insertIdx_of_gt hgt] at h
    refine Or.inr ⟨j - 1, h, ?_⟩
    rw [makeRoom, if_neg (by omega)]
    omega

/-- What is looked for is found at its new place if it is not the new element. -/
private theorem findIdx?_insertIdx {p : α → Bool} (hx : p x = false) (hk : k ≤ l.length) :
    (l.insertIdx k x).findIdx? p = (l.findIdx? p).map (makeRoom k) := by
  induction k generalizing l with
  | zero =>
      rw [List.insertIdx_zero, List.findIdx?_cons, hx]
      rfl
  | succ k ih =>
      cases l with
      | nil => cases hk
      | cons y l =>
          rw [List.insertIdx_succ_cons, List.findIdx?_cons, List.findIdx?_cons,
            ih (Nat.le_of_succ_le_succ hk)]
          split
          · rfl
          · cases l.findIdx? p with
            | none => rfl
            | some i =>
                simp only [Option.map_some, Option.some.injEq, makeRoom]
                split <;> split <;> omega

private theorem flatten_insertIdx_nil (ls : List (List α)) (k : Nat) :
    (ls.insertIdx k []).flatten = ls.flatten := by
  induction ls generalizing k with
  | nil => cases k <;> rfl
  | cons group ls ih =>
      cases k with
      | zero => rfl
      | succ k => rw [List.insertIdx_succ_cons, List.flatten_cons, List.flatten_cons, ih]

end Lists

/-! ### One more group -/

namespace Plan

variable {Op : Type}

/-- The plan with an empty group at `k`. -/
def insertGroup (plan : Plan Op) (k : Nat) : Plan Op :=
  { plan with groups := plan.groups.insertIdx k [] }

/-- **An empty group contradicts nothing.** -/
theorem Consistent.insertGroup {plan : Plan Op} (h : plan.Consistent) (k : Nat) :
    (plan.insertGroup k).Consistent := by
  refine ⟨?_, h.lexable, h.one_symbol, h.one_op, ?_⟩
  · intro op htwice
    -- Both groups that hold the operation stood in the plan before, and at different places.
    have hsource : ∀ {j : Nat} {b : List Op}, (plan.groups.insertIdx k [])[j]? = some b → op ∈ b →
        ∃ i, plan.groups[i]? = some b ∧ makeRoom k i = j := by
      intro j b hb hop
      rcases eq_or_exists_of_getElem?_insertIdx hb with rfl | hold
      · cases hop
      · exact hold
    obtain ⟨j, j', b, b', hne, hb, hop, hb', hop'⟩ := htwice
    obtain ⟨i, hi, rfl⟩ := hsource hb hop
    obtain ⟨i', hi', rfl⟩ := hsource hb' hop'
    exact h.one_group op ⟨i, i', b, b', mt (congrArg _) hne, hi, hop, hi', hop'⟩
  · intro group hgroup op hop
    rcases List.eq_or_mem_of_mem_insertIdx hgroup with rfl | hold
    · cases hop
    · exact h.written group hold op hop

variable [DecidableEq Op]

/-- What comes behind the empty group has a priority that is greater by one. -/
theorem priority_insertGroup {plan : Plan Op} {k : Nat} (hk : k ≤ plan.groups.length) (op : Op) :
    (plan.insertGroup k).priority op = (plan.priority op).map (makeRoom k) :=
  findIdx?_insertIdx (by simp) hk

/-- A priority is the number of a group. -/
private theorem lt_length_of_priority {plan : Plan Op} {op : Op} {priority : Nat}
    (h : plan.priority op = some priority) : priority < plan.groups.length :=
  (List.findIdx?_eq_some_iff_findIdx_eq.1 h).1

private theorem placedSymbols_insertGroup (plan : Plan Op) (k : Nat) :
    (plan.insertGroup k).placedSymbols = plan.placedSymbols := by
  have hplaced : (plan.insertGroup k).placed = plan.placed := flatten_insertIdx_nil plan.groups k
  rw [placedSymbols, placedSymbols, hplaced]
  rfl

end Plan

/-! ### One more level -/

namespace Draft

/-- The draft with an empty level at `k`, and with an empty group at `k` if there are more groups
than that. -/
def insertLevel (d : Draft) (k : Nat) (associativity : Associativity) : Draft :=
  { d with
    levels := d.levels.insertIdx k ([], associativity)
    groups := if k < d.groups.length then d.groups.insertIdx k [] else d.groups }

variable (d : Draft) (k : Nat) (associativity : Associativity)

private theorem binary_insertLevel :
    (d.insertLevel k associativity).binary = d.binary.insertGroup k := by
  simp [insertLevel, binary, Plan.insertGroup, List.map_insertIdx]

private theorem unary_insertLevel : (d.insertLevel k associativity).unary
    = if k < d.groups.length then d.unary.insertGroup k else d.unary := by
  unfold insertLevel unary Plan.insertGroup
  split <;> rfl

/-- The levels of the table behind the new one have moved up by one. -/
theorem levels_insertLevel : (d.insertLevel k associativity).table.grammar.levels
    = d.table.grammar.levels.insertIdx k (.ofList [] associativity) :=
  List.map_insertIdx _ _ _ _

/-- A line is cut at the same symbols. -/
theorem lexicon_insertLevel : (d.insertLevel k associativity).table.lexicon = d.table.lexicon := by
  have hunary : (d.insertLevel k associativity).unary.placedSymbols = d.unary.placedSymbols := by
    rw [unary_insertLevel]
    split
    · exact d.unary.placedSymbols_insertGroup k
    · rfl
  rw [table, table, binary_insertLevel, Plan.placedSymbols_insertGroup, hunary]

/-- The priorities from `k` on are greater by one. -/
theorem unaryPriority_insertLevel (op : UnaryOp) :
    (d.insertLevel k associativity).table.grammar.unaryPriority op
      = (d.table.grammar.unaryPriority op).map (makeRoom k) := by
  show (d.insertLevel k associativity).unary.priority op = (d.unary.priority op).map (makeRoom k)
  rw [unary_insertLevel]
  split
  · rename_i hlt
    exact Plan.priority_insertGroup (Nat.le_of_lt hlt) op
  · rename_i hge
    cases hpriority : d.unary.priority op with
    | none => rfl
    | some priority =>
        have hlt : priority < d.groups.length := Plan.lt_length_of_priority hpriority
        rw [Option.map_some, makeRoom, if_pos (by omega)]

/-- **The grammar is respaced.** -/
theorem respaces_insertLevel :
    d.table.grammar.Respaces (d.insertLevel k associativity).table.grammar (makeRoom k) := by
  refine ⟨strictMono_makeRoom k, ?_, rfl, ?_, ?_, d.unaryPriority_insertLevel k associativity⟩
  · show d.binary.symbol = (d.insertLevel k associativity).binary.symbol
    rw [binary_insertLevel]
    rfl
  · intro i l hl
    rw [levels_insertLevel, getElem?_insertIdx_makeRoom, hl]
  · intro j l op hl hop
    rw [levels_insertLevel] at hl
    rcases eq_or_exists_of_getElem?_insertIdx hl with rfl | hold
    · simp [Level.ofList] at hop
    · exact hold

variable {d} in
/-- **An empty level can be put into every table.** -/
theorem build_insertLevel {t : Table} (hb : d.build = .ok t) :
    (d.insertLevel k associativity).build = .ok (d.insertLevel k associativity).table := by
  obtain ⟨⟨hbinary, hunary⟩, -⟩ := build_eq_ok_iff_consistent.1 hb
  refine build_eq_ok_iff_consistent.2 ⟨⟨?_, ?_⟩, rfl⟩
  · rw [binary_insertLevel]
    exact hbinary.insertGroup k
  · rw [unary_insertLevel]
    split
    · exact hunary.insertGroup k
    · exact hunary

end Draft

end Calculator
