/-
What a built table guarantees.

A draft is checked once, and from then on the two views of its table are used
without further checks: the lexicon decides which symbols a line is cut at, and the
grammar decides what they mean.  `Table.Sound` is what the one may rely on about the
other, and `sound_of_build` is that the checks establish it.

The only check with a loop to it is the one of the symbols.  It goes through the
registrations in order and compares each with those before it; `Agree` is the
invariant, and it does not speak of any order.
-/
import Calculator.Table.Draft

namespace Calculator

namespace Plan

variable {Op : Type} [DecidableEq Op]

/-- None of the checks of a plan finds a fault. -/
structure Faultless [Operation Op] (plan : Plan Op) : Prop where
  /-- No operation is placed twice. -/
  placed : plan.placementFault? = none
  /-- No symbol is wrong. -/
  spelled : plan.spellingFault? = none
  /-- No symbol is missing. -/
  written : plan.omissionFault? = none

/-! ### The registered symbols agree -/

/-- Every symbol can be cut out of a line, no operation has two of them, and no two operations have
the same. -/
structure Agree (symbols : List (Op × String)) : Prop where
  lexable : ∀ e ∈ symbols, isLexable e.2 = true
  symbol : ∀ e ∈ symbols, ∀ e' ∈ symbols, e.1 = e'.1 → e.2 = e'.2
  op : ∀ e ∈ symbols, ∀ e' ∈ symbols, e.2 = e'.2 → e.1 = e'.1

theorem mem_of_symbolIn {symbols : List (Op × String)} {op : Op} {s : String}
    (h : symbolIn symbols op = some s) : (op, s) ∈ symbols := by
  obtain ⟨e, he, rfl⟩ := Option.map_eq_some_iff.1 h
  have hop : e.1 = op := by simpa using List.find?_some he
  rw [← hop]
  exact List.mem_of_find?_eq_some he

theorem ne_of_symbolIn_eq_none {symbols : List (Op × String)} {op : Op}
    (h : symbolIn symbols op = none) : ∀ e ∈ symbols, e.1 ≠ op := by
  simpa [symbolIn] using h

/-- One more registration without a fault keeps the agreement. -/
theorem Agree.concat [Operation Op] {earlier : List (Op × String)} {op : Op} {s : String}
    (h : Agree earlier) (hs : symbolFault? earlier op s = none) : Agree (earlier ++ [(op, s)]) := by
  unfold symbolFault? at hs
  split at hs
  · cases hs
  · rename_i hlex
    have hlex : isLexable s = true := by simpa using hlex
    -- A registration that is not new repeats an earlier one; a new one shares nothing with them.
    have hnew : (op, s) ∈ earlier ∨ ∀ e ∈ earlier, e.1 ≠ op ∧ e.2 ≠ s := by
      split at hs
      · rename_i first hfirst
        split at hs
        · rename_i heq
          exact Or.inl (heq ▸ mem_of_symbolIn hfirst)
        · cases hs
      · rename_i hnone
        split at hs
        · cases hs
        · rename_i hany
          refine Or.inr fun e he => ⟨ne_of_symbolIn_eq_none hnone e he, fun hes => hany ?_⟩
          exact List.any_eq_true.2 ⟨e, he, by simpa using hes⟩
    rcases hnew with hmem | hnew
    · have hsub : ∀ e ∈ earlier ++ [(op, s)], e ∈ earlier := by
        intro e he
        rcases List.mem_append.1 he with he | he
        · exact he
        · rw [List.mem_singleton.1 he]
          exact hmem
      exact ⟨fun e he => h.lexable e (hsub e he),
        fun e he e' he' => h.symbol e (hsub e he) e' (hsub e' he'),
        fun e he e' he' => h.op e (hsub e he) e' (hsub e' he')⟩
    · refine ⟨?_, ?_, ?_⟩ <;> simp only [List.mem_append, List.mem_singleton]
      · rintro e (he | rfl)
        · exact h.lexable e he
        · exact hlex
      · rintro e (he | rfl) e' (he' | rfl) heq
        · exact h.symbol e he e' he' heq
        · exact absurd heq (hnew e he).1
        · exact absurd heq.symm (hnew e' he').1
        · rfl
      · rintro e (he | rfl) e' (he' | rfl) heq
        · exact h.op e he e' he' heq
        · exact absurd heq (hnew e he).2
        · exact absurd heq.symm (hnew e' he').2
        · rfl

private theorem Agree.of_misspelled? [Operation Op] {earlier later : List (Op × String)}
    (h : Agree earlier) (hl : misspelled? earlier later = none) : Agree (earlier ++ later) := by
  induction later generalizing earlier with
  | nil => simpa using h
  | cons e later ih =>
      obtain ⟨op, s⟩ := e
      rw [misspelled?, Option.or_eq_none_iff] at hl
      have := ih (h.concat hl.1) hl.2
      simpa using this

/-- The symbols of a plan without a fault agree. -/
theorem Faultless.agree [Operation Op] {plan : Plan Op} (h : plan.Faultless) :
    Agree plan.symbols := by
  have hnil : Agree ([] : List (Op × String)) := ⟨by simp, by simp, by simp⟩
  exact hnil.of_misspelled? h.spelled

/-- Two operations with one symbol are one operation. -/
theorem Agree.symbol_inj {plan : Plan Op} (h : Agree plan.symbols) {a b : Op} {s : String}
    (ha : plan.symbol a = some s) (hb : plan.symbol b = some s) : a = b :=
  h.op _ (mem_of_symbolIn ha) _ (mem_of_symbolIn hb) rfl

/-! ### The placed operations and their symbols -/

theorem mem_placedSymbols {plan : Plan Op} {s : String} :
    s ∈ plan.placedSymbols ↔ ∃ op ∈ plan.placed, plan.symbol op = some s := by
  simp [placedSymbols]

/-- An operation has a priority when it is placed, and only then. -/
theorem mem_placed_iff {plan : Plan Op} {op : Op} :
    op ∈ plan.placed ↔ ∃ priority, plan.priority op = some priority := by
  rw [← Option.isSome_iff_exists, priority, List.findIdx?_isSome]
  simp [placed, List.mem_flatten]

end Plan

/-! ### Tables -/

/-- Where a symbol writes one operation only, looking it up finds that operation. -/
theorem Operation.ofSymbol?_eq_some {Op : Type} [Operation Op] {symbolOf : Op → Option String}
    (hinj : ∀ {a b : Op} {s : String}, symbolOf a = some s → symbolOf b = some s → a = b)
    {op : Op} {s : String} (h : symbolOf op = some s) : ofSymbol? symbolOf s = some op := by
  cases hfound : ofSymbol? symbolOf s with
  | none => exact absurd h (ofSymbol?_eq_none_iff.1 hfound op)
  | some op' => rw [hinj h (symbol_of_ofSymbol? hfound)]

/-- A symbol that writes one operation only writes it exactly if the operation has it. -/
theorem Operation.ofSymbol_eq_ok_iff {Op : Type} [Operation Op] {symbolOf : Op → Option String}
    {fault : String → TableError}
    (hinj : ∀ {a b : Op} {s : String}, symbolOf a = some s → symbolOf b = some s → a = b)
    {op : Op} {s : String} : ofSymbol symbolOf fault s = .ok op ↔ symbolOf op = some s := by
  unfold ofSymbol
  constructor
  · intro h
    split at h
    · rename_i hop
      cases h
      exact symbol_of_ofSymbol? hop
    · cases h
  · intro h
    exact ofSymbol_of_ofSymbol? (ofSymbol?_eq_some hinj h)

namespace Grammar

/-- The binary operation stands in a level. -/
def Places (g : Grammar) (op : BinaryOp) : Prop :=
  ∃ (level : Nat) (l : Level), g.levels[level]? = some l ∧ l.has op = true

end Grammar

/-- What the views of a table may rely on. -/
structure Table.Sound (t : Table) : Prop where
  /-- A symbol writes one binary operation. -/
  binary_inj : ∀ {a b : BinaryOp} {s : String},
    t.grammar.binarySymbol a = some s → t.grammar.binarySymbol b = some s → a = b
  /-- A symbol writes one unary operation. -/
  unary_inj : ∀ {a b : UnaryOp} {s : String},
    t.grammar.unarySymbol a = some s → t.grammar.unarySymbol b = some s → a = b
  /-- A line can be cut at every symbol. -/
  lexable : ∀ s ∈ t.lexicon.symbols, isLexable s = true
  /-- A line is cut at the symbols of the binary operations that stand in levels. -/
  mem_binary : ∀ s, s ∈ t.lexicon.binary ↔
    ∃ op, t.grammar.Places op ∧ t.grammar.binarySymbol op = some s
  /-- A line is cut at the symbols of the unary operations that have a priority. -/
  mem_unary : ∀ s, s ∈ t.lexicon.unary ↔
    ∃ op priority, t.grammar.unaryPriority op = some priority ∧
      t.grammar.unarySymbol op = some s

namespace Draft

/-- A draft is without a fault if both of its plans are. -/
theorem fault?_eq_none_iff {d : Draft} :
    d.fault? = none ↔ d.binary.Faultless ∧ d.unary.Faultless := by
  simp only [fault?, Option.or_eq_none_iff]
  constructor
  · intro h
    obtain ⟨⟨⟨⟨⟨hplaced, hplaced'⟩, hspelled⟩, hspelled'⟩, hwritten⟩, hwritten'⟩ := h
    exact ⟨⟨hplaced, hspelled, hwritten⟩, ⟨hplaced', hspelled', hwritten'⟩⟩
  · intro h
    obtain ⟨hbinary, hunary⟩ := h
    exact ⟨⟨⟨⟨⟨hbinary.placed, hunary.placed⟩, hbinary.spelled⟩, hunary.spelled⟩,
      hbinary.written⟩, hunary.written⟩

/-- What stands in a level of the table stands in the group of the plan with the same number. -/
theorem exists_group_of_level {d : Draft} {i : Nat} {l : Level} {op : BinaryOp}
    (hl : d.table.grammar.levels[i]? = some l) (hop : l.has op = true) :
    ∃ group, d.binary.groups[i]? = some group ∧ op ∈ group := by
  rw [show d.table.grammar.levels = d.levels.map fun level => Level.ofList level.1 level.2
    from rfl, List.getElem?_map] at hl
  obtain ⟨level, hlevel, rfl⟩ := Option.map_eq_some_iff.1 hl
  exact ⟨level.1, by simp [binary, hlevel], by simpa [Level.ofList] using hop⟩

theorem placed_binary_iff {d : Draft} {op : BinaryOp} :
    op ∈ d.binary.placed ↔ d.table.grammar.Places op := by
  constructor
  · intro h
    obtain ⟨group, hgroup, hop⟩ := List.mem_flatten.1 h
    obtain ⟨level, hlevel, rfl⟩ := List.mem_map.1 hgroup
    obtain ⟨i, hi⟩ := List.mem_iff_getElem?.1 hlevel
    exact ⟨i, Level.ofList level.1 level.2, by simp [table, hi], by simpa [Level.ofList] using hop⟩
  · rintro ⟨i, l, hl, hop⟩
    obtain ⟨group, hgroup, hmem⟩ := exists_group_of_level hl hop
    exact List.mem_flatten.2 ⟨group, List.mem_iff_getElem?.2 ⟨i, hgroup⟩, hmem⟩

/-- **A table that is built is sound.** -/
theorem sound_of_build {d : Draft} {t : Table} (h : d.build = .ok t) : t.Sound := by
  obtain ⟨hfault, rfl⟩ := build_eq_ok_iff.1 h
  obtain ⟨hbinary, hunary⟩ := fault?_eq_none_iff.1 hfault
  have hb := hbinary.agree
  have hu := hunary.agree
  refine ⟨fun ha hb' => hb.symbol_inj ha hb', fun ha hb' => hu.symbol_inj ha hb', ?_, ?_, ?_⟩
  · intro s hs
    rcases List.mem_append.1 hs with hs | hs
    · obtain ⟨op, -, hop⟩ := Plan.mem_placedSymbols.1 hs
      exact hb.lexable (op, s) (Plan.mem_of_symbolIn hop)
    · obtain ⟨op, -, hop⟩ := Plan.mem_placedSymbols.1 hs
      exact hu.lexable (op, s) (Plan.mem_of_symbolIn hop)
  · intro s
    show s ∈ d.binary.placedSymbols ↔
      ∃ op, d.table.grammar.Places op ∧ d.binary.symbol op = some s
    rw [Plan.mem_placedSymbols]
    exact exists_congr fun op => and_congr_left fun _ => placed_binary_iff
  · intro s
    show s ∈ d.unary.placedSymbols ↔
      ∃ op priority, d.unary.priority op = some priority ∧ d.unary.symbol op = some s
    rw [Plan.mem_placedSymbols]
    refine exists_congr fun op => ?_
    rw [Plan.mem_placed_iff, ← exists_and_right]

end Draft

end Calculator
