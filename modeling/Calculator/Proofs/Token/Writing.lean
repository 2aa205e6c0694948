/-
Writing tokens out and cutting the text again.

A writing of some tokens is their lexemes in order with spaces anywhere around them.
Spaces may be left out everywhere but in two places, between two words and between
two symbols: those would run together.  A scanner cuts every writing back into its
tokens (`delivers_of_writing`), and whatever it cuts a text into, the text is a
writing of (`exists_delivery`).

Both go through one fact, that a gap of the right kind is the same as the lexeme
coming to its end (`endsBefore_iff`).  One direction follows the writing, the other
the text from the left, because an error may come at any place.
-/
import Calculator.Proofs.Table.Sound
import Calculator.Proofs.Token.Delivery
import Calculator.Proofs.Token.Lexeme
import Calculator.Table.Standard

namespace Calculator

/-! ### Writings -/

/-- The two tokens would run together if they were written without a space between them. -/
def Token.RunsInto (t u : Token) : Prop :=
  t.isWord = true ∧ u.isWord = true ∨ t.kind = .symbol ∧ u.kind = .symbol

/-- The characters are so many spaces and then the lexemes of the tokens, with spaces around them
and at least one between two tokens that would run together. -/
inductive Writing : Nat → List Token → List Char → Prop
  | nil (gap : Nat) : Writing gap [] (List.replicate gap ' ')
  | cons (gap : Nat) {after : Nat} {t : Token} {ts : List Token} {cs : List Char}
      (h : Writing after ts cs) (hgap : ∀ u ∈ ts.head?, t.RunsInto u → 0 < after) :
      Writing gap (t :: ts) (List.replicate gap ' ' ++ t.lexeme ++ cs)

/-! ### Marks

A bracket or an equals sign stands next to anything.  So a writing may begin with one,
and two writings may be put together with one between them.
-/

/-- The token is neither a word nor a symbol. -/
def Token.IsMark (t : Token) : Prop :=
  t.isWord = false ∧ t.kind ≠ .symbol

private theorem Token.IsMark.not_runsInto {t : Token} (ht : t.IsMark) (u : Token) :
    ¬ t.RunsInto u := by
  simp [RunsInto, ht.1, ht.2]

theorem Token.IsMark.not_runsInto_self {t : Token} (ht : t.IsMark) (u : Token) :
    ¬ u.RunsInto t := by
  simp [RunsInto, ht.1, ht.2]

namespace Writing

/-- There may be one more space in front. -/
theorem space {gap : Nat} {ts : List Token} {cs : List Char} (h : Writing gap ts cs) :
    Writing (gap + 1) ts (' ' :: cs) := by
  cases h with
  | nil => exact .nil (gap + 1)
  | cons _ h hgap => exact .cons (gap + 1) h hgap

/-- A mark is written in front of a writing. -/
theorem cons_mark (gap : Nat) {after : Nat} {t : Token} {ts : List Token} {cs : List Char}
    (ht : t.IsMark) (h : Writing after ts cs) :
    Writing gap (t :: ts) (List.replicate gap ' ' ++ t.lexeme ++ cs) :=
  .cons gap h fun u _ hruns => absurd hruns (ht.not_runsInto u)

/-- Any token is written in front of a mark. -/
theorem cons_before_mark (gap : Nat) {after : Nat} {t : Token} {ts : List Token} {cs : List Char}
    (hmark : ∀ u ∈ ts.head?, u.IsMark) (h : Writing after ts cs) :
    Writing gap (t :: ts) (List.replicate gap ' ' ++ t.lexeme ++ cs) :=
  .cons gap h fun u hu hruns => absurd hruns ((hmark u hu).not_runsInto_self t)

/-- **Two writings with a mark between them are a writing.** -/
theorem append_mark {gap after : Nat} {t : Token} {ts us : List Token} {cs ds : List Char}
    (ht : t.IsMark) (h : Writing gap ts cs) (h' : Writing after us ds) :
    Writing gap (ts ++ t :: us) (cs ++ t.lexeme ++ ds) := by
  induction h with
  | nil gap => exact cons_mark gap ht h'
  | @cons gap between u ts cs h hgap ih =>
      have hgap' : ∀ w ∈ (ts ++ t :: us).head?, u.RunsInto w → 0 < between := by
        intro w hw hruns
        cases ts with
        | nil =>
            obtain rfl : t = w := by simpa using hw
            exact absurd hruns (ht.not_runsInto_self u)
        | cons x ts => exact hgap w hw hruns
      simpa using Writing.cons gap ih hgap'

end Writing

namespace Token

/-- The tokens in brackets. -/
def bracketed (ts : List Token) : List Token :=
  .bare .leftParen :: (ts ++ [.bare .rightParen])

theorem bracketed_append (ts us : List Token) :
    bracketed ts ++ us = .bare .leftParen :: (ts ++ .bare .rightParen :: us) := by
  simp [bracketed]

theorem isMark_of_mem_head?_bracketed {ts us : List Token} :
    ∀ u ∈ (bracketed ts ++ us).head?, u.IsMark := by
  intro u hu
  obtain rfl : bare .leftParen = u := by simpa [bracketed] using hu
  exact ⟨rfl, by decide⟩

/-- The brackets are tokens that any line can hold. -/
theorem wellFormed_bracketed {v : Lexicon} {ts : List Token} (h : ∀ t ∈ ts, t.WellFormed v) :
    ∀ t ∈ bracketed ts, t.WellFormed v := by
  have hparens : (bare .leftParen).WellFormed v ∧ (bare .rightParen).WellFormed v := ⟨rfl, rfl⟩
  refine List.forall_mem_cons.2 ⟨hparens.1, List.forall_mem_append.2 ⟨h, ?_⟩⟩
  simpa using hparens.2

end Token

/-- **Tokens in brackets are written as a bracket around a writing of them.** -/
theorem Writing.bracketed (gap : Nat) {inner after : Nat} {ts us : List Token} {cs ds : List Char}
    (h : Writing inner ts cs) (h' : Writing after us ds) :
    Writing gap (Token.bracketed ts ++ us)
      (List.replicate gap ' ' ++ '(' :: (cs ++ ')' :: ds)) := by
  have hopen : (Token.bare .leftParen).IsMark := ⟨rfl, by decide⟩
  have hclose : (Token.bare .rightParen).IsMark := ⟨rfl, by decide⟩
  rw [Token.bracketed_append]
  simpa [Token.lexeme, Token.bare] using cons_mark gap hopen (append_mark hclose h h')

/-- **A definition is written as its name and a writing of its value**, after the keyword. -/
theorem Writing.definition (name : String) {gap : Nat} {ts : List Token} {cs : List Char}
    (h : Writing gap ts cs) :
    Writing 0 (⟨.keyword, keyword⟩ :: ⟨.name, name⟩ :: .bare .equals :: ts)
      ("let ".toList ++ name.toList ++ " =".toList ++ cs) := by
  have hequals : (Token.bare .equals).IsMark := ⟨rfl, by decide⟩
  have hvalue : Writing 1 (.bare .equals :: ts) (' ' :: '=' :: cs) := cons_mark 1 hequals h
  have hname : Writing 1 (⟨.name, name⟩ :: .bare .equals :: ts)
      (' ' :: (name.toList ++ ' ' :: '=' :: cs)) :=
    cons_before_mark 1 (by simpa using hequals) hvalue
  have hkeyword := Writing.cons 0 hname (t := ⟨.keyword, keyword⟩) fun _ _ _ => Nat.one_pos
  simpa [Token.lexeme, keyword] using hkeyword

/-- A text is written with the spaces in front of it and the rest. -/
theorem exists_replicate_append_skipSpaces (cs : List Char) :
    ∃ gap, cs = List.replicate gap ' ' ++ skipSpaces cs := by
  induction cs with
  | nil => exact ⟨0, rfl⟩
  | cons c r ih =>
      by_cases hc : c = ' '
      · obtain ⟨gap, hgap⟩ := ih
        refine ⟨gap + 1, ?_⟩
        have hskip : skipSpaces (c :: r) = skipSpaces r := by simp [skipSpaces, hc]
        rw [hskip, List.replicate_succ, List.cons_append, ← hgap, hc]
      · exact ⟨0, by simp [skipSpaces, hc]⟩

theorem skipSpaces_replicate_append (gap : Nat) (cs : List Char) :
    skipSpaces (List.replicate gap ' ' ++ cs) = skipSpaces cs := by
  induction gap with
  | zero => rfl
  | succ gap ih =>
      rw [List.replicate_succ, List.cons_append, ← ih]
      simp [skipSpaces]

section Lexable

variable {v : Lexicon} (hv : ∀ s ∈ v.symbols, isLexable s = true)

include hv

theorem skipSpaces_lexeme_append {t : Token} (ht : t.WellFormed v) (cs : List Char) :
    skipSpaces (t.lexeme ++ cs) = t.lexeme ++ cs := by
  obtain ⟨c, r, hlexeme, hspace, -, -⟩ := Token.exists_lexeme_eq_cons hv ht
  simp [hlexeme, skipSpaces, hspace]

/-- **A gap keeps tokens apart exactly where they would run together.** -/
theorem endsBefore_iff {t : Token} {ts : List Token} {gap : Nat} {cs : List Char}
    (hts : ∀ u ∈ ts, u.WellFormed v) (h : Writing gap ts cs) :
    t.EndsBefore v cs ↔ ∀ u ∈ ts.head?, t.RunsInto u → 0 < gap := by
  have hspace : ∀ cs, t.EndsBefore v (' ' :: cs) := by
    intro cs
    have hsymbol : v.isSymbolChar ' ' = false := Token.isSymbolChar_eq_false_of_mem hv (by decide)
    exact Token.endsBefore_cons.2 ⟨fun _ => by decide, fun _ => hsymbol⟩
  cases h with
  | nil =>
      refine iff_of_true ?_ (by simp)
      cases gap with
      | zero => exact Token.endsBefore_nil v t
      | succ gap => exact hspace _
  | @cons _ after u us cs h hgap =>
      cases gap with
      | succ gap => exact iff_of_true (hspace _) fun _ _ _ => Nat.succ_pos gap
      | zero =>
          -- Without a gap the next lexeme follows at once, and its first character decides.
          obtain ⟨c, r, hlexeme, -, hword, hsymbol⟩ :=
            Token.exists_lexeme_eq_cons hv (hts u List.mem_cons_self)
          rw [List.replicate_zero, List.nil_append, hlexeme, List.cons_append,
            Token.endsBefore_cons, hword, hsymbol]
          simp [Token.RunsInto]

end Lexable

namespace Scanner

/-! ### One request -/

theorem next_of_scan {s : Scanner} {t : Token} {after : List Char} (hs : s.finished = false)
    (h : scan s.lexicon (skipSpaces s.rest) = .ok (t, after)) :
    s.next = (.ok t, { s with rest := after, finished := t.isStop, last? := some t }) := by
  simp [next, hs, h]

theorem next_of_scan_error {s : Scanner} {e : TokenError} (hs : s.finished = false)
    (h : scan s.lexicon (skipSpaces s.rest) = .error e) :
    s.next = (.error e, { s with rest := skipSpaces s.rest }) := by
  simp [next, hs, h]

/-- At the end of the text there is the end of the line. -/
theorem next_of_skipSpaces_eq_nil {s : Scanner} (hs : s.finished = false)
    (h : skipSpaces s.rest = []) :
    s.next = (.ok (.bare .stop),
      { s with rest := [], finished := true, last? := some (.bare .stop) }) :=
  next_of_scan hs (by rw [h]; rfl)

/-! ### What a scanner delivers -/

/-- **A writing is cut into its tokens.** -/
theorem delivers_of_writing {s : Scanner} (hv : ∀ x ∈ s.lexicon.symbols, isLexable x = true)
    (hs : s.finished = false) {gap : Nat} {ts : List Token} (h : Writing gap ts s.rest)
    (hts : ∀ t ∈ ts, t.WellFormed s.lexicon) :
    ∃ m, Delivers s (lineItems ts (.bare .stop)) m := by
  generalize hrest : s.rest = cs at h
  induction h generalizing s with
  | nil gap =>
      have hskip : skipSpaces s.rest = [] := by
        rw [hrest, ← List.append_nil (List.replicate gap ' '), skipSpaces_replicate_append]
        rfl
      exact ⟨_, .token (next_of_skipSpaces_eq_nil hs hskip) rfl (.nil _)⟩
  | @cons gap after t ts cs h hgap ih =>
      obtain ⟨ht, hts⟩ := List.forall_mem_cons.1 hts
      have hscan : scan s.lexicon (skipSpaces s.rest) = .ok (t, cs) := by
        rw [hrest, List.append_assoc, skipSpaces_replicate_append, skipSpaces_lexeme_append hv ht]
        exact Token.scan_complete hv ht ((endsBefore_iff hv hts h).2 hgap)
      have hstop : t.isStop = false := by simpa [Token.isStop] using ht.kind_ne_stop
      obtain ⟨m, hm⟩ := ih (s := { s with rest := cs, finished := t.isStop, last? := some t })
        hv hstop hts rfl
      exact ⟨m, .token (next_of_scan hs hscan) rfl hm⟩

/-- **Whatever the text, it is cut into well-formed tokens** up to its end or to an error that the
text causes; in the first case it is a writing of them. -/
theorem exists_delivery {s : Scanner} (hv : ∀ x ∈ s.lexicon.symbols, isLexable x = true)
    (hs : s.finished = false) :
    ∃ (ts : List Token) (last : Item) (m : Scanner), Delivers s (ts.map .ok ++ [last]) m ∧
      (∀ t ∈ ts, t.WellFormed s.lexicon) ∧
      ((last = .ok (.bare .stop) ∧ ∃ gap, Writing gap ts s.rest) ∨
        ∃ e, last = .error e ∧ e.IsLexical) := by
  -- The induction is on a bound of the length, because each token shortens the text.
  generalize hk : s.rest.length + 1 = k
  replace hk : s.rest.length < k := by omega
  induction k generalizing s with
  | zero => omega
  | succ k ih =>
      obtain ⟨gap, hgap⟩ := exists_replicate_append_skipSpaces s.rest
      cases hskip : skipSpaces s.rest with
      | nil =>
          rw [hskip, List.append_nil] at hgap
          have hwriting : Writing gap [] s.rest := by
            rw [hgap]
            exact .nil gap
          exact ⟨[], .ok (.bare .stop), _, .token (next_of_skipSpaces_eq_nil hs hskip) rfl (.nil _),
            by simp, Or.inl ⟨rfl, gap, hwriting⟩⟩
      | cons c r =>
          cases hscan : scan s.lexicon (c :: r) with
          | error e =>
              rw [← hskip] at hscan
              exact ⟨[], .error e, _, .error (next_of_scan_error hs hscan) (.nil _), by simp,
                Or.inr ⟨e, rfl, isLexical_of_scan hscan⟩⟩
          | ok found =>
              obtain ⟨t, after⟩ := found
              obtain ⟨ht, hcs, hend⟩ := Token.scan_sound hscan
              obtain ⟨hlt, hstop⟩ := length_lt_of_scan hscan
              have hle : (c :: r).length ≤ s.rest.length := by
                rw [hgap, hskip, List.length_append]
                exact Nat.le_add_left _ _
              rw [← hskip] at hscan
              obtain ⟨ts, last, m, hm, hts, hlast⟩ := ih
                (s := { s with rest := after, finished := t.isStop, last? := some t })
                hv hstop (by simp only; omega)
              refine ⟨t :: ts, last, m, .token (next_of_scan hs hscan) rfl hm,
                List.forall_mem_cons.2 ⟨ht, hts⟩, ?_⟩
              rcases hlast with ⟨rfl, after', hwriting⟩ | herror
              · refine Or.inl ⟨rfl, gap, ?_⟩
                rw [hgap, hskip, hcs, ← List.append_assoc]
                exact .cons gap hwriting ((endsBefore_iff hv hts hwriting).1 hend)
              · exact Or.inr herror

/-! ### Both ways -/

/-- **Cutting a text into tokens and writing them out are inverse.**  Every writing of well-formed
tokens is read to these tokens and the end, and every text that is read without an error is a
writing of what it is read to. -/
theorem readAll_writing {d : Draft} {table : Table} (hb : d.build = .ok table) {s : Scanner}
    (hs : s.lexicon = table.lexicon) (text : String) :
    (∀ ts : List Token, (∀ t ∈ ts, t.WellFormed table.lexicon) →
      (∃ gap, Writing gap ts text.toList) →
        (TokenStream.readAll (s.reset text)).error? = none ∧
          (TokenStream.readAll (s.reset text)).tokens = ts ++ [.bare .stop]) ∧
    ((TokenStream.readAll (s.reset text)).error? = none →
      ∃ ts : List Token, (TokenStream.readAll (s.reset text)).tokens = ts ++ [.bare .stop] ∧
        (∀ t ∈ ts, t.WellFormed table.lexicon) ∧ ∃ gap, Writing gap ts text.toList) := by
  have hv : ∀ x ∈ (s.reset text).lexicon.symbols, isLexable x = true := by
    show ∀ x ∈ s.lexicon.symbols, isLexable x = true
    rw [hs]
    exact (Draft.sound_of_build hb).lexable
  rw [← hs]
  constructor
  · rintro ts hts ⟨gap, h⟩
    obtain ⟨m, hm⟩ := delivers_of_writing (s := s.reset text) hv rfl h hts
    have hread := readAll_of_delivers_stop (fun t ht => (hts t ht).kind_ne_stop) rfl hm
    rw [hread]
    exact ⟨rfl, rfl⟩
  · intro herror
    obtain ⟨ts, last, m, hm, hts, hlast⟩ := exists_delivery (s := s.reset text) hv rfl
    have hstops : ∀ t ∈ ts, t.kind ≠ .stop := fun t ht => (hts t ht).kind_ne_stop
    rcases hlast with ⟨rfl, hwriting⟩ | ⟨e, rfl, -⟩
    · rw [readAll_of_delivers_stop hstops rfl hm]
      exact ⟨ts, rfl, hts, hwriting⟩
    · rw [readAll_of_delivers_error hstops hm] at herror
      cases herror

/-- The tokens of `2** -(x1)`, where only one space is needed. -/
def twoSymbols : List Token :=
  [⟨.number, "2"⟩, ⟨.symbol, "**"⟩, ⟨.symbol, "-"⟩, .bare .leftParen, ⟨.name, "x1"⟩,
    .bare .rightParen]

theorem readAll_twoSymbols :
    (Scanner.new Table.standard.lexicon).lexicon = Table.standard.lexicon ∧
      (∀ t ∈ twoSymbols, t.WellFormed Table.standard.lexicon) ∧
      Writing 0 twoSymbols "2** -(x1)".toList ∧
      (TokenStream.readAll ((Scanner.new Table.standard.lexicon).reset "2** -(x1)")).tokens
        = twoSymbols ++ [.bare .stop] := by
  have hts : ∀ t ∈ twoSymbols, t.WellFormed Table.standard.lexicon := by decide
  have h : Writing 0 twoSymbols "2** -(x1)".toList := by
    refine .cons 0 (.cons 0 (.cons 1 (.cons 0 (.cons 0 (.cons 0 (.nil 0) ?_) ?_) ?_) ?_) ?_) ?_
    all_goals simp [Token.RunsInto, Token.isWord, Token.bare]
  refine ⟨rfl, hts, h, ?_⟩
  exact ((readAll_writing Draft.build_standard rfl "2** -(x1)").1 twoSymbols hts ⟨0, h⟩).2

end Scanner

end Calculator
