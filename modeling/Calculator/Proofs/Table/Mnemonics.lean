/-
The two directions of the symbols are inverse to each other because the checks see to it.

A grammar keeps the symbol of each operation and searches for the operation of a symbol,
so its two directions could not disagree whatever was registered.  Here each direction is
a map of its own.  One walk through the registrations fills both, and refuses a
registration that would keep them from being inverse.

`Mnemonics.Hold` is the invariant of the walk: a map has an entry exactly where one has
been registered.  With it the walk refuses what the check of a plan finds wrong, and
where it comes to its end the maps are what the grammar answers, in both directions.
-/
import Calculator.Proofs.Table.Sound
import Mathlib.Logic.Function.Basic

namespace Calculator

/-- A map for each direction of the symbols of one kind of operation. -/
structure Mnemonics (Op : Type) where
  /-- The symbol of an operation. -/
  symbolOf : Op → Option String
  /-- The operation of a symbol. -/
  opOf : String → Option Op

namespace Mnemonics

variable {Op : Type} [DecidableEq Op] [Operation Op]

/-- The maps before anything is registered. -/
def empty : Mnemonics Op where
  symbolOf _ := none
  opOf _ := none

/-- Enters a registration in both maps.  One that is there already is left as it is. -/
def enter (m : Mnemonics Op) (op : Op) (symbol : String) : Except TableError (Mnemonics Op) :=
  if !isLexable symbol then .error (.unlexable symbol)
  else
    match m.symbolOf op with
    | some first =>
      if first = symbol then .ok m
      else .error (.conflictingSymbols (Operation.kind Op) (Operation.name op) first symbol)
    | none =>
      if (m.opOf symbol).isSome then .error (.sharedSymbol (Operation.kind Op) symbol)
      else
        .ok
          { symbolOf := Function.update m.symbolOf op (some symbol)
            opOf := Function.update m.opOf symbol (some op) }

/-- Enters registrations in order, until one is refused. -/
def enterAll (m : Mnemonics Op) : List (Op × String) → Except TableError (Mnemonics Op)
  | [] => .ok m
  | (op, symbol) :: rest =>
    match m.enter op symbol with
    | .ok m' => m'.enterAll rest
    | .error e => .error e

/-- The maps have the entries that have been registered, and no others. -/
structure Hold (m : Mnemonics Op) (entries : List (Op × String)) : Prop where
  symbol : ∀ op s, m.symbolOf op = some s ↔ (op, s) ∈ entries
  op : ∀ op s, m.opOf s = some op ↔ (op, s) ∈ entries

omit [DecidableEq Op] [Operation Op] in
private theorem hold_empty : (empty : Mnemonics Op).Hold [] :=
  ⟨by simp [empty], by simp [empty]⟩

namespace Hold

variable {m : Mnemonics Op} {entries : List (Op × String)}

omit [Operation Op] in
/-- The symbol that the registrations give to an operation is the one in the map. -/
private theorem symbolIn_eq (h : m.Hold entries) (op : Op) :
    Plan.symbolIn entries op = m.symbolOf op := by
  cases hfound : Plan.symbolIn entries op with
  | some s => exact ((h.symbol op s).2 (Plan.mem_of_symbolIn hfound)).symm
  | none =>
      cases hs : m.symbolOf op with
      | none => rfl
      | some s =>
          exact absurd rfl (Plan.ne_of_symbolIn_eq_none hfound _ ((h.symbol op s).1 hs))

omit [DecidableEq Op] [Operation Op] in
/-- A symbol is taken when the map has an operation for it. -/
private theorem any_eq_isSome (h : m.Hold entries) (s : String) :
    entries.any (fun entry => decide (entry.2 = s)) = (m.opOf s).isSome := by
  rw [Bool.eq_iff_iff, List.any_eq_true, Option.isSome_iff_exists]
  constructor
  · rintro ⟨⟨op, s'⟩, hmem, hs⟩
    obtain rfl : s' = s := by simpa using hs
    exact ⟨op, (h.op op _).2 hmem⟩
  · rintro ⟨op, hop⟩
    exact ⟨(op, s), (h.op op s).1 hop, by simp⟩

omit [DecidableEq Op] [Operation Op] in
/-- A registration that repeats one is in the maps already. -/
private theorem repeated (h : m.Hold entries) {op : Op} {s : String} (hs : (op, s) ∈ entries) :
    m.Hold (entries ++ [(op, s)]) := by
  have hmem : ∀ entry, entry ∈ entries ++ [(op, s)] ↔ entry ∈ entries := by
    intro entry
    simp only [List.mem_append, List.mem_singleton, or_iff_left_iff_imp]
    rintro rfl
    exact hs
  exact ⟨fun op' s' => (h.symbol op' s').trans (hmem _).symm,
    fun op' s' => (h.op op' s').trans (hmem _).symm⟩

omit [Operation Op] in
/-- A registration with a new operation and a new symbol is entered in both maps. -/
private theorem entered (h : m.Hold entries) {op : Op} {s : String} (hop : m.symbolOf op = none)
    (hs : m.opOf s = none) :
    Hold ⟨Function.update m.symbolOf op (some s), Function.update m.opOf s (some op)⟩
      (entries ++ [(op, s)]) := by
  have hold : ∀ op' s', (op', s') ∈ entries → op' ≠ op ∧ s' ≠ s := by
    intro op' s' hmem
    constructor
    · rintro rfl
      simp [(h.symbol _ _).2 hmem] at hop
    · rintro rfl
      simp [(h.op _ _).2 hmem] at hs
  refine ⟨?_, ?_⟩ <;> intro op' s' <;>
    simp only [List.mem_append, List.mem_singleton, Prod.mk.injEq]
  · by_cases heq : op' = op
    · subst heq
      have hnot : (op', s') ∉ entries := fun hmem => (hold _ _ hmem).1 rfl
      simp [hnot, eq_comm]
    · rw [Function.update_of_ne heq, h.symbol]
      simp [heq]
  · by_cases heq : s' = s
    · subst heq
      have hnot : (op', s') ∉ entries := fun hmem => (hold _ _ hmem).2 rfl
      simp [hnot, eq_comm]
    · rw [Function.update_of_ne heq, h.op]
      simp [heq]

/-- **One registration**: it is refused with the fault that the check finds in it, or it is
entered. -/
theorem enter (h : m.Hold entries) (op : Op) (s : String) :
    match m.enter op s with
    | .ok m' => Plan.symbolFault? entries op s = none ∧ m'.Hold (entries ++ [(op, s)])
    | .error e => Plan.symbolFault? entries op s = some e := by
  unfold Mnemonics.enter Plan.symbolFault?
  rw [h.symbolIn_eq, h.any_eq_isSome]
  by_cases hlex : isLexable s = true
  · simp only [hlex, Bool.not_true, Bool.false_eq_true, if_false]
    cases hop : m.symbolOf op with
    | some first =>
        by_cases heq : first = s
        · subst heq
          simpa using h.repeated ((h.symbol op first).1 hop)
        · simp [heq]
    | none =>
        cases hs : m.opOf s with
        | some op' => simp
        | none => simpa using h.entered hop hs
  · simp [hlex]

/-- **All registrations**, by induction on those that are still to be entered. -/
theorem enterAll (h : m.Hold entries) (later : List (Op × String)) :
    match m.enterAll later with
    | .ok m' => Plan.misspelled? entries later = none ∧ m'.Hold (entries ++ later)
    | .error e => Plan.misspelled? entries later = some e := by
  induction later generalizing m entries with
  | nil => simpa [Mnemonics.enterAll, Plan.misspelled?] using h
  | cons entry later ih =>
      obtain ⟨op, s⟩ := entry
      have hstep := h.enter op s
      rw [Mnemonics.enterAll, Plan.misspelled?]
      cases hm : m.enter op s with
      | error e =>
          simp only [hm] at hstep
          simp [hstep]
      | ok m' =>
          simp only [hm] at hstep
          obtain ⟨hfault, hm'⟩ := hstep
          simpa [hfault] using ih hm'

/-- The search for the operation of a symbol finds the one in the map. -/
theorem ofSymbol?_eq {plan : Plan Op} (h : m.Hold plan.symbols) :
    Operation.ofSymbol? plan.symbol = m.opOf := by
  have hsymbol : ∀ op s, plan.symbol op = some s ↔ m.opOf s = some op := by
    intro op s
    rw [Plan.symbol, h.symbolIn_eq, h.symbol, h.op]
  funext s
  cases hs : m.opOf s with
  | none =>
      refine Operation.ofSymbol?_eq_none_iff.2 ?_
      intro op hop
      simp [(hsymbol op s).1 hop] at hs
  | some op =>
      refine Operation.ofSymbol?_eq_some ?_ ((hsymbol op s).2 hs)
      intro a b t ha hb
      exact Option.some.inj (((hsymbol a t).1 ha).symm.trans ((hsymbol b t).1 hb))

end Hold

/-- **The walk through the symbols of a plan refuses what the check finds wrong**, and where it
refuses nothing its maps are the two directions. -/
theorem enterAll_symbols (plan : Plan Op) :
    match (empty : Mnemonics Op).enterAll plan.symbols with
    | .ok m => plan.spellingFault? = none ∧ plan.symbol = m.symbolOf ∧
        Operation.ofSymbol? plan.symbol = m.opOf
    | .error e => plan.spellingFault? = some e := by
  have hrun := (hold_empty : (empty : Mnemonics Op).Hold []).enterAll plan.symbols
  cases hm : (empty : Mnemonics Op).enterAll plan.symbols with
  | error e =>
      simp only [hm] at hrun
      exact hrun
  | ok m =>
      simp only [hm, List.nil_append] at hrun
      obtain ⟨hfault, hhold⟩ := hrun
      exact ⟨hfault, funext hhold.symbolIn_eq, hhold.ofSymbol?_eq⟩

/-- Where the check of a plan finds nothing, the maps can be filled. -/
theorem exists_of_faultless {plan : Plan Op} (h : plan.Faultless) :
    ∃ m, (empty : Mnemonics Op).enterAll plan.symbols = .ok m ∧ plan.symbol = m.symbolOf ∧
      Operation.ofSymbol? plan.symbol = m.opOf := by
  have hrun := enterAll_symbols plan
  cases hm : (empty : Mnemonics Op).enterAll plan.symbols with
  | error e =>
      simp only [hm, h.spelled] at hrun
      cases hrun
  | ok m =>
      simp only [hm] at hrun
      exact ⟨m, rfl, hrun.2⟩

end Mnemonics

/-- **What the grammar of a built table answers about symbols is what the filled maps hold**, in
both directions and for both kinds of operation. -/
theorem Draft.mnemonics_of_build {d : Draft} {t : Table} (hb : d.build = .ok t) :
    (∃ m, Mnemonics.empty.enterAll d.binarySymbols = .ok m ∧
      t.grammar.binarySymbol = m.symbolOf ∧ t.grammar.binaryOp? = m.opOf) ∧
    ∃ m, Mnemonics.empty.enterAll d.unarySymbols = .ok m ∧
      t.grammar.unarySymbol = m.symbolOf ∧ t.grammar.unaryOp? = m.opOf := by
  obtain ⟨hfault, rfl⟩ := build_eq_ok_iff.1 hb
  obtain ⟨hbinary, hunary⟩ := fault?_eq_none_iff.1 hfault
  exact ⟨Mnemonics.exists_of_faultless hbinary, Mnemonics.exists_of_faultless hunary⟩

end Calculator
