/-
How operations are arranged does not decide which lines are accepted.

Take two tables that have the same symbols and place the same operations, in whatever
levels, however these group, and with whatever priorities.  They cut every text into
the same tokens, since a scanner asks only whether something is a symbol
(`delivers_congr`), and the tokens are followed alike (`follow_congr`).  So a text is
empty for both, or refused by both with one error, or read by both, to trees that
differ in how they are nested and in nothing else.
-/
import Calculator.Proofs.Parser.Marks
import Calculator.Proofs.Session.Line

namespace Calculator

/-! ### Lexicons with the same symbols -/

section Lexicons

variable {v v' : Lexicon} (h : ∀ s, s ∈ v.symbols ↔ s ∈ v'.symbols)

include h

theorem Lexicon.isSymbol_congr (text : String) : v.isSymbol text = v'.isSymbol text := by
  rw [Bool.eq_iff_iff, isSymbol_iff, isSymbol_iff, h]

theorem Lexicon.isSymbolChar_congr : v.isSymbolChar = v'.isSymbolChar := by
  funext c
  rw [Bool.eq_iff_iff, isSymbolChar_iff, isSymbolChar_iff]
  simp only [h]

/-- A token is read off characters alike with both. -/
theorem scan_congr : scan v = scan v' := by
  funext cs
  cases cs with
  | nil => rfl
  | cons c r =>
      simp only [scan, scanSymbol, Lexicon.isSymbolChar_congr h, Lexicon.isSymbol_congr h]

end Lexicons

namespace Scanner

/-- A scanner with another lexicon at the same place. -/
def withLexicon (s : Scanner) (v : Lexicon) : Scanner :=
  { s with lexicon := v }

private theorem next_withLexicon {s : Scanner} {v : Lexicon} (h : scan s.lexicon = scan v) :
    (s.withLexicon v).next = (s.next.1, s.next.2.withLexicon v) := by
  by_cases hfinished : s.finished = true
  · simp [next, withLexicon, hfinished]
  · cases hscan : scan s.lexicon (skipSpaces s.rest) with
    | error e => simp [next, withLexicon, hfinished, ← h, hscan]
    | ok found => simp [next, withLexicon, hfinished, ← h, hscan]

/-- **A lexicon with the same symbols delivers the same.** -/
theorem delivers_congr {s m : Scanner} {is : List Item} {v : Lexicon} (hd : Delivers s is m)
    (h : scan s.lexicon = scan v) : Delivers (s.withLexicon v) is (m.withLexicon v) := by
  -- One request is answered alike, and leaves the two lexicons as they were.
  have hstep : ∀ {s s' : Scanner} {i : Item}, TokenStream.next s = (i, s') →
      scan s.lexicon = scan v → TokenStream.next (s.withLexicon v) = (i, s'.withLexicon v) ∧
        scan s'.lexicon = scan v := by
    intro s s' i hnext h
    have hs : s.next = (i, s') := hnext
    have hkeep : s'.lexicon = s.lexicon := by rw [← s.lexicon_next, hs]
    refine ⟨?_, by rw [hkeep, h]⟩
    show (s.withLexicon v).next = _
    rw [next_withLexicon h, hs]
  induction hd with
  | nil => exact .nil _
  | token hnext hlast _ ih =>
      obtain ⟨hnext', hlexicon⟩ := hstep hnext h
      exact .token hnext' hlast (ih hlexicon)
  | error hnext _ ih =>
      obtain ⟨hnext', hlexicon⟩ := hstep hnext h
      exact .error hnext' (ih hlexicon)

end Scanner

namespace Table

/-- Tables that place the same operations cut lines at the same symbols. -/
theorem mem_symbols_congr {t t' : Table} (ht : t.Sound) (ht' : t'.Sound)
    (h : t.grammar.SameOperations t'.grammar) (s : String) :
    s ∈ t.lexicon.symbols ↔ s ∈ t'.lexicon.symbols := by
  have hbinary : s ∈ t.lexicon.binary ↔ s ∈ t'.lexicon.binary := by
    rw [ht.mem_binary, ht'.mem_binary, h.binarySymbol]
    simp only [h.places]
  have hunary : s ∈ t.lexicon.unary ↔ s ∈ t'.lexicon.unary := by
    have hprioritized : ∀ op, (∃ priority, t.grammar.unaryPriority op = some priority) ↔
        ∃ priority, t'.grammar.unaryPriority op = some priority := by
      intro op
      rw [← Option.isSome_iff_exists, ← Option.isSome_iff_exists, h.prioritized]
    rw [ht.mem_unary, ht'.mem_unary, h.unarySymbol]
    simp only [exists_and_right, hprioritized]
  simp only [Lexicon.symbols, List.mem_append, hbinary, hunary]

/-- **How operations are arranged never decides whether a line is accepted.**  Two tables that write
the same operations in the same way and place the same of them answer every text alike: it is empty
for both, or refused with the same error, or read to trees with the same numbers, variables, signs
and operators in the same order. -/
theorem reading_of_sameOperations {d d' : Draft} {table table' : Table}
    (hb : d.build = .ok table) (hb' : d'.build = .ok table')
    (h : table.grammar.SameOperations table'.grammar) (text : String) :
    (table.reading text).answer.map (Option.map Tree.marks)
      = (table'.reading text).answer.map (Option.map Tree.marks) := by
  have ht : table.Sound := Draft.sound_of_build hb
  have ht' : table'.Sound := Draft.sound_of_build hb'
  obtain ⟨ts, last, m, hd, hc, -, -⟩ := exists_delivery ht text
  have hd' : Delivers ((Scanner.new table'.lexicon).reset text) (ts.map .ok ++ [last])
      (m.withLexicon table'.lexicon) :=
    Scanner.delivers_congr hd (scan_congr (mem_symbols_congr ht ht' h))
  obtain ⟨-, hanswer⟩ := answers_of_delivers hd hc
  obtain ⟨-, hanswer'⟩ := answers_of_delivers hd' hc
  exact hanswer.map_marks_eq h hanswer'

/-- The standard operations all in one level that groups from the right, with a group for each sign
behind an empty one. -/
def oneLevel : Draft :=
  Draft.empty.registerAll
    [.group [], .group [.neg], .group [.pos],
     .level [.pow, .div, .mul, .sub, .add] .right,
     .unarySymbol .neg "-", .unarySymbol .pos "+",
     .binarySymbol .pow "**", .binarySymbol .div "/", .binarySymbol .mul "*",
     .binarySymbol .sub "-", .binarySymbol .add "+"]

theorem reading_oneLevel :
    (Draft.standard.build = .ok .standard ∧ oneLevel.build = .ok oneLevel.table ∧
      Table.standard.grammar.SameOperations oneLevel.table.grammar) ∧
    (Table.standard.reading "6 / -3 * x").answer.map (Option.map Tree.marks)
      = (oneLevel.table.reading "6 / -3 * x").answer.map (Option.map Tree.marks) ∧
    (Table.standard.reading "6 / -3 * x").answer.toOption
      ≠ (oneLevel.table.reading "6 / -3 * x").answer.toOption := by
  have hb : oneLevel.build = .ok oneLevel.table :=
    Draft.build_eq_ok_iff.2 ⟨by decide +kernel, rfl⟩
  have hplaces : ∀ op, Table.standard.grammar.Places op ↔ oneLevel.table.grammar.Places op := by
    intro op
    show Draft.standard.table.grammar.Places op ↔ _
    rw [← Draft.placed_binary_iff, ← Draft.placed_binary_iff]
    cases op <;> decide
  have h : Table.standard.grammar.SameOperations oneLevel.table.grammar := by
    refine ⟨by decide, by decide, hplaces, ?_⟩
    intro op
    cases op <;> decide
  exact ⟨⟨Draft.build_standard, hb, h⟩,
    reading_of_sameOperations Draft.build_standard hb h "6 / -3 * x", by decide +kernel⟩

end Table

end Calculator
