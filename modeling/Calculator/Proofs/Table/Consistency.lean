/-
A table is built exactly from registrations that do not contradict each other.

The checks walk through the registrations in order, each with what came before it in
hand, and they have to tell a repetition from a contradiction: an operation may stand
twice in one level, and a symbol may be given to the same operation again.
`Plan.Consistent` says the same without any order, and for each kind of operation by
itself.  `Plan.Violates` says when an error names something that is really there.

Two facts about each walk give both halves.  One that finds no fault has found out
all that `Consistent` asks for; a fault that is found is a violation.  As a
consistent plan has no violation, it is found without fault.
-/
import Calculator.Proofs.Table.Placement

namespace Calculator

/-! ### What registrations say -/

namespace Registration

/-- The operations of the level that is registered, if one is. -/
def level? : Registration → Option (List BinaryOp)
  | .level ops _ => some ops
  | .group _ | .binarySymbol _ _ | .unarySymbol _ _ => none

/-- The operations of the unary group that is registered, if one is. -/
def group? : Registration → Option (List UnaryOp)
  | .group ops => some ops
  | .level _ _ | .binarySymbol _ _ | .unarySymbol _ _ => none

/-- The symbol of a binary operation that is registered, if one is. -/
def binarySymbol? : Registration → Option (BinaryOp × String)
  | .binarySymbol op symbol => some (op, symbol)
  | .level _ _ | .group _ | .unarySymbol _ _ => none

/-- The symbol of a unary operation that is registered, if one is. -/
def unarySymbol? : Registration → Option (UnaryOp × String)
  | .unarySymbol op symbol => some (op, symbol)
  | .level _ _ | .group _ | .binarySymbol _ _ => none

end Registration

namespace Plan

/-- The groups and the symbols among some registrations, as far as they are those of one kind of
operation. -/
def select {Op : Type} (group? : Registration → Option (List Op))
    (symbol? : Registration → Option (Op × String)) (registrations : List Registration) :
    Plan Op where
  groups := registrations.filterMap group?
  symbols := registrations.filterMap symbol?

/-- The levels and the symbols of binary operations among some registrations. -/
def binaryOf : List Registration → Plan BinaryOp :=
  select Registration.level? Registration.binarySymbol?

/-- The groups and the symbols of unary operations among some registrations. -/
def unaryOf : List Registration → Plan UnaryOp :=
  select Registration.group? Registration.unarySymbol?

variable {Op : Type}

/-- The operation stands in two different groups. -/
def StandsTwice (groups : List (List Op)) (op : Op) : Prop :=
  ∃ (i j : Nat) (a b : List Op), i ≠ j ∧ groups[i]? = some a ∧ op ∈ a ∧ groups[j]? = some b ∧ op ∈ b

/-- No group and no symbol contradicts another. -/
structure Consistent (plan : Plan Op) : Prop where
  /-- No operation stands in two different groups. -/
  one_group : ∀ op, ¬ StandsTwice plan.groups op
  /-- Every registered symbol can be cut out of a line. -/
  lexable : ∀ {op : Op} {s : String}, (op, s) ∈ plan.symbols → isLexable s = true
  /-- No operation is registered with two different symbols. -/
  one_symbol : ∀ {op : Op} {s s' : String}, (op, s) ∈ plan.symbols → (op, s') ∈ plan.symbols →
    s = s'
  /-- No symbol is registered for two different operations. -/
  one_op : ∀ {op op' : Op} {s : String}, (op, s) ∈ plan.symbols → (op', s) ∈ plan.symbols →
    op = op'
  /-- An operation that stands in a group has a symbol. -/
  written : ∀ group ∈ plan.groups, ∀ op ∈ group, ∃ s, (op, s) ∈ plan.symbols

/-- The error names something that is wrong with the plan. -/
def Violates [Operation Op] (plan : Plan Op) : TableError → Prop
  | .placedTwice kind name => kind = Operation.kind Op ∧
      ∃ op, Operation.name op = name ∧ StandsTwice plan.groups op
  | .unlexable s => isLexable s = false ∧ ∃ op, (op, s) ∈ plan.symbols
  | .conflictingSymbols kind name first second => kind = Operation.kind Op ∧
      ∃ op, Operation.name op = name ∧ first ≠ second ∧
        (op, first) ∈ plan.symbols ∧ (op, second) ∈ plan.symbols
  | .sharedSymbol kind s => kind = Operation.kind Op ∧
      ∃ op op', op ≠ op' ∧ (op, s) ∈ plan.symbols ∧ (op', s) ∈ plan.symbols
  | .missingSymbol kind name => kind = Operation.kind Op ∧ ∃ op, Operation.name op = name ∧
      (∃ group ∈ plan.groups, op ∈ group) ∧ ∀ s, (op, s) ∉ plan.symbols
  | .noBinaryOp _ | .noUnaryOp _ | .noUnaryPriority _ => False

/-- Nothing is wrong with a consistent plan. -/
theorem Consistent.not_violates [Operation Op] {plan : Plan Op} (h : plan.Consistent)
    (e : TableError) : ¬ plan.Violates e := by
  intro hv
  cases e with
  | placedTwice kind name =>
      obtain ⟨-, op, -, htwice⟩ := hv
      exact h.one_group op htwice
  | unlexable s =>
      obtain ⟨hs, op, hop⟩ := hv
      rw [h.lexable hop] at hs
      cases hs
  | conflictingSymbols kind name first second =>
      obtain ⟨-, op, -, hne, hfirst, hsecond⟩ := hv
      exact hne (h.one_symbol hfirst hsecond)
  | sharedSymbol kind s =>
      obtain ⟨-, op, op', hne, hop, hop'⟩ := hv
      exact hne (h.one_op hop hop')
  | missingSymbol kind name =>
      obtain ⟨-, op, -, ⟨group, hgroup, hop⟩, hnone⟩ := hv
      obtain ⟨s, hs⟩ := h.written group hgroup op hop
      exact hnone s hs
  | noBinaryOp | noUnaryOp | noUnaryPriority => exact hv

/-! ### A walk without a fault -/

variable [DecidableEq Op] [Operation Op]

/-- **A plan in which no fault is found is consistent.** -/
theorem Faultless.consistent {plan : Plan Op} (h : plan.Faultless) : plan.Consistent := by
  have hagree : Agree plan.symbols := h.agree
  refine ⟨?_, ?_, ?_, ?_, ?_⟩
  · intro op htwice
    obtain ⟨i, j, a, b, hne, ha, hopa, hb, hopb⟩ := htwice
    exact hne (eq_of_mem_of_mem h.placed ha hb hopa hopb)
  · intro op s hs
    exact hagree.lexable _ hs
  · intro op s s' hs hs'
    exact hagree.symbol _ hs _ hs' rfl
  · intro op op' s hs hs'
    exact hagree.op _ hs _ hs' rfl
  · intro group hgroup op hop
    have hmem : op ∈ plan.placed := List.mem_flatten.2 ⟨group, hgroup, hop⟩
    obtain ⟨s, hs⟩ := exists_symbol_of_mem_placed h.written hmem
    exact ⟨s, mem_of_symbolIn hs⟩

/-! ### A fault that is found -/

omit [Operation Op] in
/-- An operation that is repeated stands in one of the groups and before them, or in two. -/
private theorem of_repeated?_eq_some {earlier : List Op} {groups : List (List Op)} {op : Op}
    (h : repeated? earlier groups = some op) :
    (∃ group ∈ groups, op ∈ group ∧ op ∈ earlier) ∨ StandsTwice groups op := by
  induction groups generalizing earlier with
  | nil => cases h
  | cons group rest ih =>
      rw [repeated?, Option.or_eq_some_iff] at h
      rcases h with hfound | ⟨-, hrest⟩
      · have hearlier : op ∈ earlier := by simpa using List.find?_some hfound
        exact Or.inl ⟨group, by simp, List.mem_of_find?_eq_some hfound, hearlier⟩
      · rcases ih hrest with ⟨g, hg, hop, hmem⟩ | ⟨i, j, a, b, hne, ha, hopa, hb, hopb⟩
        · rcases List.mem_append.1 hmem with hearlier | hgroup
          · exact Or.inl ⟨g, by simp [hg], hop, hearlier⟩
          · obtain ⟨j, hj⟩ := List.mem_iff_getElem?.1 hg
            exact Or.inr ⟨0, j + 1, group, g, by omega, rfl, hgroup, by simpa using hj, hop⟩
        · exact Or.inr ⟨i + 1, j + 1, a, b, by omega, by simpa using ha, hopa,
            by simpa using hb, hopb⟩

private theorem violates_of_placementFault? {plan : Plan Op} {e : TableError}
    (h : plan.placementFault? = some e) : plan.Violates e := by
  obtain ⟨op, hop, rfl⟩ := Option.map_eq_some_iff.1 h
  rcases of_repeated?_eq_some hop with ⟨group, -, -, hnil⟩ | htwice
  · exact absurd hnil (by simp)
  · exact ⟨rfl, op, rfl, htwice⟩

/-- The fault of a registration is a violation, wherever in the plan it stands. -/
theorem violates_of_symbolFault? {plan : Plan Op} {earlier : List (Op × String)} {op : Op}
    {s : String} {e : TableError} (hearlier : ∀ entry ∈ earlier, entry ∈ plan.symbols)
    (hs : (op, s) ∈ plan.symbols) (h : symbolFault? earlier op s = some e) : plan.Violates e := by
  unfold symbolFault? at h
  by_cases hlex : isLexable s = true
  · rw [if_neg (by simp [hlex])] at h
    cases hfirst : symbolIn earlier op with
    | some first =>
        have hmem : (op, first) ∈ plan.symbols := hearlier _ (mem_of_symbolIn hfirst)
        simp only [hfirst] at h
        by_cases heq : first = s
        · rw [if_pos heq] at h
          cases h
        · rw [if_neg heq] at h
          cases h
          exact ⟨rfl, op, rfl, heq, hmem, hs⟩
    | none =>
        simp only [hfirst] at h
        by_cases htaken : earlier.any (fun entry => decide (entry.2 = s)) = true
        · rw [if_pos htaken] at h
          cases h
          obtain ⟨⟨op', s'⟩, hentry, hs'⟩ := List.any_eq_true.1 htaken
          obtain rfl : s' = s := by simpa using hs'
          have hne : op' ≠ op := ne_of_symbolIn_eq_none hfirst _ hentry
          exact ⟨rfl, op', op, hne, hearlier _ hentry, hs⟩
        · rw [if_neg htaken] at h
          cases h
  · rw [if_pos (by simp [hlex])] at h
    cases h
    exact ⟨by simpa using hlex, op, hs⟩

private theorem violates_of_misspelled? {plan : Plan Op} {earlier later : List (Op × String)}
    {e : TableError} (hplan : plan.symbols = earlier ++ later)
    (h : misspelled? earlier later = some e) : plan.Violates e := by
  induction later generalizing earlier with
  | nil => cases h
  | cons entry later ih =>
      obtain ⟨op, s⟩ := entry
      rw [misspelled?, Option.or_eq_some_iff] at h
      rcases h with hfault | ⟨-, hrest⟩
      · refine violates_of_symbolFault? ?_ ?_ hfault
        · intro entry hentry
          rw [hplan]
          exact List.mem_append_left _ hentry
        · simp [hplan]
      · exact ih (by rw [hplan, List.append_cons]) hrest

private theorem violates_of_omissionFault? {plan : Plan Op} {e : TableError}
    (h : plan.omissionFault? = some e) : plan.Violates e := by
  obtain ⟨op, hop, rfl⟩ := Option.map_eq_some_iff.1 h
  have hplaced : op ∈ plan.placed := List.mem_of_find?_eq_some hop
  have hnone : symbolIn plan.symbols op = none := by simpa [symbol] using List.find?_some hop
  refine ⟨rfl, op, rfl, List.mem_flatten.1 hplaced, ?_⟩
  intro s hs
  exact ne_of_symbolIn_eq_none hnone _ hs rfl

/-- **No fault is found in a consistent plan**, as it would be a violation. -/
theorem Consistent.faultless {plan : Plan Op} (h : plan.Consistent) : plan.Faultless := by
  have hnone : ∀ fault? : Option TableError,
      (∀ e, fault? = some e → plan.Violates e) → fault? = none := by
    intro fault? hv
    cases fault? with
    | none => rfl
    | some e => exact absurd (hv e rfl) (h.not_violates e)
  exact ⟨hnone _ fun _ he => violates_of_placementFault? he,
    hnone _ fun _ he => violates_of_misspelled? rfl he,
    hnone _ fun _ he => violates_of_omissionFault? he⟩

private theorem faultless_iff_consistent {plan : Plan Op} : plan.Faultless ↔ plan.Consistent :=
  ⟨Faultless.consistent, Consistent.faultless⟩

end Plan

/-! ### Drafts -/

namespace Draft

/-- A share of a draft that grows with each registration by what it selects of it has grown by what
it selects of them all. -/
private theorem share_registerAll {Op : Type} {share : Draft → Plan Op}
    {group? : Registration → Option (List Op)} {symbol? : Registration → Option (Op × String)}
    (hstep : ∀ d r, share (d.register r)
      = ⟨(share d).groups ++ (group? r).toList, (share d).symbols ++ (symbol? r).toList⟩)
    (d : Draft) (registrations : List Registration) :
    share (d.registerAll registrations)
      = ⟨(share d).groups ++ (Plan.select group? symbol? registrations).groups,
          (share d).symbols ++ (Plan.select group? symbol? registrations).symbols⟩ := by
  induction registrations generalizing d with
  | nil => simp [registerAll, Plan.select]
  | cons r rest ih =>
      have hcons : d.registerAll (r :: rest) = (d.register r).registerAll rest := rfl
      rw [hcons, ih, hstep]
      cases hgroup : group? r <;> cases hsymbol : symbol? r <;> simp [Plan.select, hgroup, hsymbol]

/-- What a sequence of registrations says of binary operations. -/
theorem binary_empty_registerAll (registrations : List Registration) :
    (empty.registerAll registrations).binary = Plan.binaryOf registrations := by
  refine (share_registerAll ?_ empty registrations).trans rfl
  intro d r
  cases r <;> simp [register, binary, Registration.level?, Registration.binarySymbol?]

/-- What a sequence of registrations says of unary operations. -/
theorem unary_empty_registerAll (registrations : List Registration) :
    (empty.registerAll registrations).unary = Plan.unaryOf registrations := by
  refine (share_registerAll ?_ empty registrations).trans rfl
  intro d r
  cases r <;> simp [register, unary, Registration.group?, Registration.unarySymbol?]

/-- **The fault of a draft is a violation** of one kind or the other. -/
theorem violates_of_fault? {d : Draft} {e : TableError} (h : d.fault? = some e) :
    d.binary.Violates e ∨ d.unary.Violates e := by
  simp only [fault?, Option.or_eq_some_iff] at h
  rcases h with ((((h | ⟨-, h⟩) | ⟨-, h⟩) | ⟨-, h⟩) | ⟨-, h⟩) | ⟨-, h⟩
  · exact Or.inl (Plan.violates_of_placementFault? h)
  · exact Or.inr (Plan.violates_of_placementFault? h)
  · exact Or.inl (Plan.violates_of_misspelled? rfl h)
  · exact Or.inr (Plan.violates_of_misspelled? rfl h)
  · exact Or.inl (Plan.violates_of_omissionFault? h)
  · exact Or.inr (Plan.violates_of_omissionFault? h)

/-- A draft is built exactly if what it says of each kind is consistent. -/
theorem build_eq_ok_iff_consistent {d : Draft} {t : Table} :
    d.build = .ok t ↔ (d.binary.Consistent ∧ d.unary.Consistent) ∧ d.table = t := by
  rw [build_eq_ok_iff, fault?_eq_none_iff, Plan.faultless_iff_consistent,
    Plan.faultless_iff_consistent]

/-- **A table is built exactly from consistent registrations.**  Where it is not, the error names
something that is wrong with what was registered of one kind or the other. -/
theorem build_registerAll (registrations : List Registration) :
    ((∃ table, (empty.registerAll registrations).build = .ok table) ↔
      (Plan.binaryOf registrations).Consistent ∧ (Plan.unaryOf registrations).Consistent) ∧
    ∀ e, (empty.registerAll registrations).build = .error e →
      (Plan.binaryOf registrations).Violates e ∨ (Plan.unaryOf registrations).Violates e := by
  rw [← binary_empty_registerAll, ← unary_empty_registerAll]
  generalize empty.registerAll registrations = d
  refine ⟨⟨?_, ?_⟩, ?_⟩
  · intro h
    obtain ⟨table, hb⟩ := h
    obtain ⟨hbinary, hunary⟩ := fault?_eq_none_iff.1 (build_eq_ok_iff.1 hb).1
    exact ⟨hbinary.consistent, hunary.consistent⟩
  · intro h
    obtain ⟨hbinary, hunary⟩ := h
    cases hfault : d.fault? with
    | none => exact ⟨d.table, build_eq_ok_iff.2 ⟨hfault, rfl⟩⟩
    | some e =>
        -- A fault would be a violation, and a consistent draft has none.
        rcases violates_of_fault? hfault with hv | hv
        · exact absurd hv (hbinary.not_violates e)
        · exact absurd hv (hunary.not_violates e)
  · intro e he
    exact violates_of_fault? (build_eq_error_iff.1 he)

/-- Registrations that repeat themselves without harm, and give one symbol to two operations. -/
def sharedPlus : List Registration :=
  [.binarySymbol .add "+", .level [.add, .mul, .add] .left, .unarySymbol .pos "+",
   .binarySymbol .mul "×", .binarySymbol .add "+", .level [] .right, .group [.pos],
   .binarySymbol .pow "+", .group [.neg, .neg], .unarySymbol .pos "+"]

theorem build_sharedPlus :
    (empty.registerAll sharedPlus).build = .error (.sharedSymbol .binary "+") ∧
      ((Plan.binaryOf sharedPlus).Violates (.sharedSymbol .binary "+") ∨
        (Plan.unaryOf sharedPlus).Violates (.sharedSymbol .binary "+")) := by
  have he : (empty.registerAll sharedPlus).build = .error (.sharedSymbol .binary "+") :=
    build_eq_error_iff.2 (by decide +kernel)
  exact ⟨he, (build_registerAll sharedPlus).2 _ he⟩

end Draft

end Calculator
