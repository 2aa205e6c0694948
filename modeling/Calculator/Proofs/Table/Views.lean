/-
The views of a table agree with each other.

A table is seen from two sides.  Cutting a line into tokens asks the lexicon for the
symbols, reading the tokens asks the grammar for levels, priorities and operations, and
each relies on the other without asking.  What makes it safe is said here for every
table that is built, in terms of what was registered: the symbols stand for operations
in both directions, an operator has one level, the lexicon lists the symbols of the
operations that have a place and no others, none of them holds a character that means
something else, and every symbol that a line is cut at means something to the grammar.

The lexicon lists its symbols in the order in which their operations were first placed.
The list is made by leaving out what has no symbol and what has come before, and
neither changes the order of what stays (`idxOf_filterMap_lt_iff`).
-/
import Calculator.Proofs.Session.Line
import Calculator.Proofs.Table.Consistency
import Mathlib.Data.List.Basic

namespace Calculator

/-! ### Lists without repetitions -/

section Lists

variable {α β : Type} [DecidableEq α] [DecidableEq β]

/-- What stays stands in the order in which it stood, if no two that stay become the same. -/
private theorem idxOf_filterMap_lt_iff {f : α → Option β} {l : List α} {a b : α} {s s' : β}
    (hinj : ∀ {x y : α} {t : β}, f x = some t → f y = some t → x = y) (ha : f a = some s)
    (hb : f b = some s') :
    (l.filterMap f).idxOf s < (l.filterMap f).idxOf s' ↔ l.idxOf a < l.idxOf b := by
  induction l with
  | nil => simp
  | cons x l ih =>
      cases hx : f x with
      | none =>
          have hne : ∀ {c : α} {t : β}, f c = some t → x ≠ c := by
            intro c t hc h
            rw [h, hc] at hx
            cases hx
          rw [List.filterMap_cons_none hx, List.idxOf_cons_ne _ (hne ha),
            List.idxOf_cons_ne _ (hne hb), ih, Nat.succ_lt_succ_iff]
      | some u =>
          -- What stays of an element is found first exactly where the element is.
          have hiff : ∀ {c : α} {t : β}, f c = some t → (u = t ↔ x = c) := by
            intro c t hc
            constructor
            · intro h
              exact hinj hx (h ▸ hc)
            · intro h
              rw [h, hc] at hx
              exact (Option.some.inj hx).symm
          rw [List.filterMap_cons_some hx]
          by_cases hxa : x = a
          · rw [List.idxOf_cons_eq _ ((hiff ha).2 hxa), List.idxOf_cons_eq _ hxa]
            by_cases hxb : x = b
            · rw [List.idxOf_cons_eq _ ((hiff hb).2 hxb), List.idxOf_cons_eq _ hxb]
            · rw [List.idxOf_cons_ne _ (mt (hiff hb).1 hxb), List.idxOf_cons_ne _ hxb]
              simp
          · rw [List.idxOf_cons_ne _ (mt (hiff ha).1 hxa), List.idxOf_cons_ne _ hxa]
            by_cases hxb : x = b
            · rw [List.idxOf_cons_eq _ ((hiff hb).2 hxb), List.idxOf_cons_eq _ hxb]
              simp
            · rw [List.idxOf_cons_ne _ (mt (hiff hb).1 hxb), List.idxOf_cons_ne _ hxb,
                Nat.succ_lt_succ_iff, Nat.succ_lt_succ_iff, ih]

/-- Leaving out what has come before keeps the order of what came first. -/
private theorem pairwise_eraseDups (l : List α) :
    l.eraseDups.Pairwise fun a b => l.idxOf a < l.idxOf b := by
  cases l with
  | nil => simp
  | cons x l =>
      have ih := pairwise_eraseDups (l.filter fun y => !y == x)
      rw [List.eraseDups_cons, List.pairwise_cons]
      refine ⟨?_, ?_⟩
      · intro y hy
        have hne : y ≠ x := by simpa using (List.mem_filter.1 (List.mem_eraseDups.1 hy)).2
        rw [List.idxOf_cons_eq _ rfl, List.idxOf_cons_ne _ hne.symm]
        exact Nat.succ_pos _
      · refine ih.imp_of_mem ?_
        intro a b ha hb hlt
        have hax : a ≠ x := by simpa using (List.mem_filter.1 (List.mem_eraseDups.1 ha)).2
        have hbx : b ≠ x := by simpa using (List.mem_filter.1 (List.mem_eraseDups.1 hb)).2
        rw [List.idxOf_cons_ne _ hax.symm, List.idxOf_cons_ne _ hbx.symm, Nat.succ_lt_succ_iff]
        rw [← List.filterMap_eq_filter] at hlt
        refine (idxOf_filterMap_lt_iff ?_ ?_ ?_).1 hlt
        · intro y z t hy hz
          rw [Option.guard_eq_some_iff] at hy hz
          exact hy.1.trans hz.1.symm
        · simp [hax]
        · simp [hbx]
termination_by l.length
decreasing_by exact Nat.lt_succ_of_le (List.length_filter_le _ _)

end Lists

/-! ### What each view has to say -/

/-- The symbols are those that a plan registers for the operations it places, each once, in the
order in which the operations are placed. -/
structure Plan.ListsSymbols {Op : Type} [DecidableEq Op] (plan : Plan Op) (symbols : List String) :
    Prop where
  /-- A symbol is listed exactly if it is registered for an operation that is placed. -/
  mem : ∀ s, s ∈ symbols ↔ ∃ op ∈ plan.placed, (op, s) ∈ plan.symbols
  /-- No symbol is listed twice. -/
  nodup : symbols.Nodup
  /-- A symbol stands before another one if its operation was placed before the other one's. -/
  ordered : symbols.Pairwise fun s s' => ∀ op op', (op, s) ∈ plan.symbols →
    (op', s') ∈ plan.symbols → plan.placed.idxOf op < plan.placed.idxOf op'

/-- The symbol means something: it writes an operation of one level and of no other, or a unary
operation that has a priority, or both. -/
def Grammar.Understands (g : Grammar) (symbol : String) : Prop :=
  (∃ level, g.isOpAt level symbol = true ∧ ∀ other, g.isOpAt other symbol = true → other = level) ∨
    ∃ priority, g.priorityOf symbol = .ok (some priority)

/-- The two views of a table agree with each other and with what was registered. -/
structure Table.Coherent (table : Table) (registrations : List Registration) : Prop where
  /-- The symbol of a binary operation is the one that was registered for it. -/
  binary_registered : ∀ op s, table.grammar.binarySymbol op = some s ↔
    (op, s) ∈ (Plan.binaryOf registrations).symbols
  /-- The symbol of a unary operation is the one that was registered for it. -/
  unary_registered : ∀ op s, table.grammar.unarySymbol op = some s ↔
    (op, s) ∈ (Plan.unaryOf registrations).symbols
  /-- A binary operation has a symbol exactly if the symbol writes it. -/
  binary_inverse : ∀ op s, table.grammar.binarySymbol op = some s ↔
    table.grammar.binaryOp s = .ok op
  /-- A unary operation has a symbol exactly if the symbol writes it. -/
  unary_inverse : ∀ op s, table.grammar.unarySymbol op = some s ↔
    table.grammar.unaryOp s = .ok op
  /-- A binary operation stands in one level. -/
  op_level : ∀ (op : BinaryOp) (i j : Nat) (l m : Level), table.grammar.levels[i]? = some l →
    l.has op = true → table.grammar.levels[j]? = some m → m.has op = true → i = j
  /-- A symbol is one of the operators of one level. -/
  symbol_level : ∀ (s : String) (i j : Nat), table.grammar.isOpAt i s = true →
    table.grammar.isOpAt j s = true → i = j
  /-- The binary symbols of the lexicon are those of the operations placed in levels. -/
  binary_listed : (Plan.binaryOf registrations).ListsSymbols table.lexicon.binary
  /-- The unary symbols of the lexicon are those of the operations placed in groups. -/
  unary_listed : (Plan.unaryOf registrations).ListsSymbols table.lexicon.unary
  /-- No character of a symbol means anything else. -/
  symbolic : ∀ c, table.lexicon.isSymbolChar c = true → c.isAlphanum = false ∧
    Text.isBlank c = false ∧ Text.isControl c = false ∧ c ∉ punctuation
  /-- Whatever symbol a line is cut at, wherever the cutting has got to, the grammar understands
  it. -/
  understood : ∀ (s s' : Scanner) (t : Token), s.lexicon = table.lexicon → s.next = (.ok t, s') →
    t.kind = .symbol → table.grammar.Understands t.text

/-! ### The symbols of a lexicon -/

namespace Plan

variable {Op : Type} [DecidableEq Op] {plan : Plan Op}

/-- Where the registrations agree, the symbol of an operation is the one registered for it. -/
theorem Agree.symbol_eq_some_iff (h : Agree plan.symbols) {op : Op} {s : String} :
    plan.symbol op = some s ↔ (op, s) ∈ plan.symbols := by
  constructor
  · intro hs
    exact mem_of_symbolIn hs
  · intro hs
    cases hfound : plan.symbol op with
    | none => exact absurd rfl (ne_of_symbolIn_eq_none hfound _ hs)
    | some first => exact congrArg some (h.symbol _ (mem_of_symbolIn hfound) _ hs rfl)

/-- **The placed symbols of a plan are listed as they should be** if its registrations agree. -/
theorem Agree.listsSymbols (h : Agree plan.symbols) : plan.ListsSymbols plan.placedSymbols := by
  have hpairwise := pairwise_eraseDups (plan.placed.filterMap plan.symbol)
  refine ⟨?_, ?_, ?_⟩
  · intro s
    rw [mem_placedSymbols]
    exact exists_congr fun op => and_congr_right fun _ => h.symbol_eq_some_iff
  · refine hpairwise.imp ?_
    rintro a b hlt rfl
    exact Nat.lt_irrefl _ hlt
  · refine hpairwise.imp ?_
    intro s s' hlt op op' hop hop'
    exact (idxOf_filterMap_lt_iff h.symbol_inj (h.symbol_eq_some_iff.2 hop)
      (h.symbol_eq_some_iff.2 hop')).1 hlt

end Plan

/-! ### Looking a symbol up -/

namespace Grammar

variable {table : Table} (hs : table.Sound)

include hs

/-- A symbol is an operator of a level exactly if it is the symbol of an operation there. -/
theorem isOpAt_iff {level : Nat} {s : String} :
    table.grammar.isOpAt level s = true ↔ ∃ op l, table.grammar.binarySymbol op = some s ∧
      table.grammar.levels[level]? = some l ∧ l.has op = true := by
  have htoken : table.grammar.opAt? level s = table.grammar.tokenOp? level ⟨.symbol, s⟩ := by
    simp [tokenOp?]
  rw [isOpAt, htoken, Option.isSome_iff_exists]
  constructor
  · intro h
    obtain ⟨op, hop⟩ := h
    obtain ⟨-, hsymbol, l, hl, hhas⟩ := isOperatorOf_of_tokenOp? hop
    exact ⟨op, l, hsymbol, hl, hhas⟩
  · intro h
    obtain ⟨op, l, hsymbol, hl, hhas⟩ := h
    exact ⟨op, IsOperatorOf.tokenOp? hs ⟨rfl, hsymbol, l, hl, hhas⟩⟩

variable (ho : table.grammar.Orderly)

include ho

/-- A symbol is an operator of one level at most. -/
theorem eq_of_isOpAt {s : String} {i j : Nat} (hi : table.grammar.isOpAt i s = true)
    (hj : table.grammar.isOpAt j s = true) : i = j := by
  obtain ⟨op, l, hop, hl, hhas⟩ := (isOpAt_iff hs).1 hi
  obtain ⟨op', m, hop', hm, hhas'⟩ := (isOpAt_iff hs).1 hj
  obtain rfl : op = op' := hs.binary_inj hop hop'
  exact ho.one_level hl hhas hm hhas'

/-- **The grammar understands every symbol of the lexicon.** -/
theorem understands_of_mem_symbols {s : String} (h : s ∈ table.lexicon.symbols) :
    table.grammar.Understands s := by
  rcases List.mem_append.1 h with hbinary | hunary
  · obtain ⟨op, ⟨level, l, hl, hhas⟩, hop⟩ := (hs.mem_binary s).1 hbinary
    have hlevel : table.grammar.isOpAt level s = true :=
      (isOpAt_iff hs).2 ⟨op, l, hop, hl, hhas⟩
    exact Or.inl ⟨level, hlevel, fun other hother => eq_of_isOpAt hs ho hother hlevel⟩
  · obtain ⟨op, priority, hpriority, hop⟩ := (hs.mem_unary s).1 hunary
    refine Or.inr ⟨priority, ?_⟩
    rw [priorityOf, unaryOp?_eq hs hop]
    simp [hpriority]

end Grammar

/-- A symbol that a scanner delivers is one of its lexicon. -/
theorem Scanner.isSymbol_of_next {s s' : Scanner} {t : Token} (h : s.next = (.ok t, s'))
    (ht : t.kind = .symbol) : s.lexicon.isSymbol t.text = true := by
  unfold next at h
  split at h
  · cases h
  · simp only at h
    split at h
    · cases h
    · rename_i hscan
      cases h
      cases hrest : skipSpaces s.rest with
      | nil =>
          rw [hrest] at hscan
          cases hscan
          cases ht
      | cons c r =>
          rw [hrest] at hscan
          have hwf := (Token.scan_sound hscan).1
          simpa only [Token.WellFormed, ht] using hwf

/-! ### Tables that are built -/

namespace Draft

/-- **The two views of a table that is built agree**, with each other and with what was
registered. -/
theorem coherent_of_build (registrations : List Registration) {table : Table}
    (hb : (empty.registerAll registrations).build = .ok table) :
    table.Coherent registrations := by
  have hs : table.Sound := sound_of_build hb
  have ho : table.grammar.Orderly := orderly_of_build hb
  obtain ⟨hfault, htable⟩ := build_eq_ok_iff.1 hb
  obtain ⟨hbinary, hunary⟩ := fault?_eq_none_iff.1 hfault
  refine ⟨?_, ?_, ?_, ?_, ?_, ?_, ?_, ?_, ?_, ?_⟩
  · intro op s
    rw [← htable, ← binary_empty_registerAll]
    exact hbinary.agree.symbol_eq_some_iff
  · intro op s
    rw [← htable, ← unary_empty_registerAll]
    exact hunary.agree.symbol_eq_some_iff
  · intro op s
    exact (Operation.ofSymbol_eq_ok_iff hs.binary_inj).symm
  · intro op s
    exact (Operation.ofSymbol_eq_ok_iff hs.unary_inj).symm
  · intro op i j l m hl hhas hm hhas'
    exact ho.one_level hl hhas hm hhas'
  · intro s i j hi hj
    exact Grammar.eq_of_isOpAt hs ho hi hj
  · rw [← htable, ← binary_empty_registerAll]
    exact hbinary.agree.listsSymbols
  · rw [← htable, ← unary_empty_registerAll]
    exact hunary.agree.listsSymbols
  · intro c hc
    have hsymbolic : isSymbolicChar c = true := Token.isSymbolicChar_of_isSymbolChar hs.lexable hc
    simp only [isSymbolicChar, Bool.and_eq_true, Bool.not_eq_true', decide_eq_false_iff_not]
      at hsymbolic
    obtain ⟨⟨⟨halphanum, hblank⟩, hcontrol⟩, hmark⟩ := hsymbolic
    exact ⟨halphanum, hblank, hcontrol, hmark⟩
  · intro s s' t hlexicon hnext ht
    have hsymbol : s.lexicon.isSymbol t.text = true := Scanner.isSymbol_of_next hnext ht
    rw [hlexicon] at hsymbol
    exact Grammar.understands_of_mem_symbols hs ho (Lexicon.isSymbol_iff.1 hsymbol)

/-- Registrations with a symbol for a sign and a difference, a sign that stands nowhere, an
operation that is repeated in its level, and symbols that stand in another order than their
operations. -/
def sharedDash : List Registration :=
  [.unarySymbol .neg "−", .binarySymbol .mul "××", .level [.sub, .add, .sub] .right,
   .binarySymbol .sub "−", .group [], .binarySymbol .div "÷", .level [] .left,
   .unarySymbol .pos "÷", .group [.neg], .binarySymbol .add "×", .level [.mul] .left,
   .binarySymbol .sub "−"]

theorem coherent_sharedDash :
    (empty.registerAll sharedDash).build = .ok (empty.registerAll sharedDash).table ∧
      (empty.registerAll sharedDash).table.Coherent sharedDash ∧
      (empty.registerAll sharedDash).table.lexicon = ⟨["−", "×", "××"], ["−"]⟩ := by
  have hb : (empty.registerAll sharedDash).build = .ok (empty.registerAll sharedDash).table :=
    build_eq_ok_iff.2 ⟨by decide +kernel, rfl⟩
  exact ⟨hb, coherent_of_build sharedDash hb, by decide +kernel⟩

end Draft

end Calculator
