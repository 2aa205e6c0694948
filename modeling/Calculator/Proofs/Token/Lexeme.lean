/-
What a token looks like in a line.

A well-formed token has a lexeme, the characters that it is written with.  `scan` and
the lexemes are inverse to each other: a token that is scanned is well formed and its
lexeme is what was taken, and a lexeme is scanned back to its token.  The second
needs the characters behind it to leave the lexeme alone (`EndsBefore`), because words
and symbols go on as long as they can; the first says that they do.

Three classes of characters begin a lexeme: letters and digits, characters of the
lexicon, and the three marks.  In a lexicon whose symbols are lexable the classes do not
meet, and none of them has the space.  That is all that is used of it
(`exists_lexeme_eq_cons`).
-/
import Calculator.Text.Decimal
import Calculator.Token.Scanner

namespace Calculator

/-! ### Runs of characters -/

/-- Cutting off the longest run of a class of characters: all of the run belong to the class, and
what follows does not begin with one that does. -/
theorem span_eq_iff {p : Char → Bool} {cs run after : List Char} :
    (cs.takeWhile p = run ∧ cs.dropWhile p = after) ↔
      cs = run ++ after ∧ (∀ c ∈ run, p c = true) ∧ ∀ c ∈ after.head?, p c = false := by
  constructor
  · rintro ⟨rfl, rfl⟩
    refine ⟨List.takeWhile_append_dropWhile.symm, ?_, ?_⟩
    · intro c hc
      exact List.all_eq_true.1 List.all_takeWhile c hc
    · intro c hc
      have hnot := List.head?_dropWhile_not p cs
      rw [Option.mem_def.1 hc] at hnot
      exact hnot
  · rintro ⟨rfl, hrun, hafter⟩
    rw [List.takeWhile_append_of_pos hrun, List.dropWhile_append_of_pos hrun]
    cases after with
    | nil => simp
    | cons c r => simp [hafter c rfl]

/-- A run as long as possible takes the first character if it belongs to the class. -/
private theorem exists_run_eq_cons {p : Char → Bool} {c : Char} {r run after : List Char}
    (hc : p c = true) (h : c :: r = run ++ after) (hafter : ∀ d ∈ after.head?, p d = false) :
    ∃ tail, run = c :: tail := by
  cases run with
  | nil =>
      have hfalse : p c = false := hafter c (by rw [← List.nil_append after, ← h]; rfl)
      rw [hc] at hfalse
      cases hfalse
  | cons d tail =>
      rw [List.cons_append] at h
      exact ⟨tail, by rw [(List.cons.inj h).1]⟩

private theorem scanNumber_eq_ok_iff {cs after : List Char} {t : Token} :
    scanNumber cs = .ok (t, after) ↔ ∃ digits, t = ⟨.number, String.ofList digits⟩ ∧
      cs = digits ++ after ∧ (∀ c ∈ digits, c.isDigit = true) ∧
      ∀ c ∈ after.head?, c.isDigit = false ∧ c.isAlpha = false := by
  constructor
  · intro h
    rw [scanNumber] at h
    generalize hdigits : cs.takeWhile Char.isDigit = digits at h
    generalize hrest : cs.dropWhile Char.isDigit = rest at h
    obtain ⟨hcs, hdigit, hend⟩ := span_eq_iff.1 ⟨hdigits, hrest⟩
    cases rest with
    | nil =>
        cases h
        exact ⟨digits, rfl, hcs, hdigit, by simp⟩
    | cons c r =>
        simp only at h
        split at h
        · cases h
        · rename_i halpha
          cases h
          refine ⟨digits, rfl, hcs, hdigit, ?_⟩
          intro d hd
          cases hd
          exact ⟨hend c rfl, by simpa using halpha⟩
  · rintro ⟨digits, rfl, rfl, hdigit, hend⟩
    obtain ⟨hdigits, hrest⟩ := span_eq_iff.2 ⟨rfl, hdigit, fun c hc => (hend c hc).1⟩
    rw [scanNumber, hdigits, hrest]
    cases after with
    | nil => rfl
    | cons c r => simp [(hend c rfl).2]

private theorem scanWord_eq_iff {cs after : List Char} {t : Token} :
    scanWord cs = (t, after) ↔ ∃ word, t = wordToken (String.ofList word) ∧ cs = word ++ after ∧
      (∀ c ∈ word, c.isAlphanum = true) ∧ ∀ c ∈ after.head?, c.isAlphanum = false := by
  constructor
  · intro h
    cases h
    exact ⟨_, rfl, span_eq_iff.1 ⟨rfl, rfl⟩⟩
  · rintro ⟨word, rfl, hspan⟩
    obtain ⟨hword, hafter⟩ := span_eq_iff.2 hspan
    rw [scanWord, hword, hafter]

private theorem scanSymbol_eq_ok_iff {v : Lexicon} {cs after : List Char} {t : Token} :
    scanSymbol v cs = .ok (t, after) ↔ ∃ run, t = ⟨.symbol, String.ofList run⟩ ∧
      v.isSymbol (String.ofList run) = true ∧ cs = run ++ after ∧
      (∀ c ∈ run, v.isSymbolChar c = true) ∧ ∀ c ∈ after.head?, v.isSymbolChar c = false := by
  constructor
  · intro h
    rw [scanSymbol] at h
    split at h
    · rename_i hsymbol
      cases h
      exact ⟨_, rfl, hsymbol, span_eq_iff.1 ⟨rfl, rfl⟩⟩
    · cases h
  · rintro ⟨run, rfl, hsymbol, hspan⟩
    obtain ⟨hrun, hafter⟩ := span_eq_iff.2 hspan
    rw [scanSymbol, hrun, hafter]
    simp [hsymbol]

private theorem scanMark_eq_ok_iff {c : Char} {r after : List Char} {t : Token} :
    scanMark c r = .ok (t, after) ↔ after = r ∧ (c = '(' ∧ t = .bare .leftParen ∨
      c = ')' ∧ t = .bare .rightParen ∨ c = '=' ∧ t = .bare .equals) := by
  constructor
  · intro h
    unfold scanMark at h
    split at h <;> cases h <;> simp
  · rintro ⟨rfl, ⟨rfl, rfl⟩ | ⟨rfl, rfl⟩ | ⟨rfl, rfl⟩⟩ <;> rfl

theorem not_isDigit_of_isAlpha {c : Char} (h : c.isAlpha = true) : ¬ c.isDigit = true := by
  intro hd
  have hdigit : (decide (c.val ≥ '0'.val) && decide (c.val ≤ '9'.val)) = true := hd
  have hletter : (decide (c.val ≥ 'A'.val ∧ c.val ≤ 'Z'.val) ||
      decide (c.val ≥ 'a'.val) && decide (c.val ≤ 'z'.val)) = true := h
  simp only [Bool.or_eq_true, Bool.and_eq_true, decide_eq_true_eq, UInt32.le_iff_toNat_le,
    ge_iff_le] at hdigit hletter
  have : 'A'.val.toNat = 65 := rfl
  have : 'a'.val.toNat = 97 := rfl
  have : '9'.val.toNat = 57 := rfl
  omega

/-- The error is one that a text can cause. -/
def TokenError.IsLexical : TokenError → Prop
  | .mergedNumber _ | .unknownSymbol _ | .strayCharacter _ => True
  | .afterEnd _ | .nothingRead | .cannotPutBack => False

/-- What a scan fails with: a number or a symbol that is none, or a character that begins no token,
with all that follows it. -/
theorem scan_error_cases {v : Lexicon} {cs : List Char} {e : TokenError}
    (h : scan v cs = .error e) :
    (∃ text, e = .mergedNumber text) ∨ (∃ run, e = .unknownSymbol run) ∨
      e = .strayCharacter (String.ofList cs) := by
  cases cs with
  | nil => cases h
  | cons c r =>
      rw [scan] at h
      split at h
      · rw [scanNumber] at h
        split at h
        · cases h
        · split at h
          · cases h
            exact Or.inl ⟨_, rfl⟩
          · cases h
      · split at h
        · cases h
        · split at h
          · rw [scanSymbol] at h
            split at h
            · cases h
            · cases h
              exact Or.inr (Or.inl ⟨_, rfl⟩)
          · unfold scanMark at h
            split at h
            · cases h
            · cases h
            · cases h
            · cases h
              exact Or.inr (Or.inr rfl)

/-- A scan fails for what stands in the text, and for nothing else. -/
theorem isLexical_of_scan {v : Lexicon} {cs : List Char} {e : TokenError}
    (h : scan v cs = .error e) : e.IsLexical := by
  rcases scan_error_cases h with ⟨text, rfl⟩ | ⟨run, rfl⟩ | rfl <;> trivial

/-- A character that begins no token is shown with all that follows it. -/
theorem eq_of_scan_eq_strayCharacter {v : Lexicon} {cs : List Char} {rest : String}
    (h : scan v cs = .error (.strayCharacter rest)) : rest = String.ofList cs := by
  rcases scan_error_cases h with ⟨text, he⟩ | ⟨run, he⟩ | he
  · cases he
  · cases he
  · cases he
    rfl

namespace Token

/-! ### Well-formed tokens -/

/-- The text is a letter, then letters and digits. -/
def isIdentifier (text : String) : Bool :=
  match text.toList with
  | [] => false
  | c :: r => c.isAlpha && r.all Char.isAlphanum

/-- The token is one that a line can hold. -/
def WellFormed (v : Lexicon) (t : Token) : Prop :=
  match t.kind with
  | .number => Decimal.isNumeral t.text = true
  | .name => isIdentifier t.text = true ∧ t.text ≠ Calculator.keyword
  | .keyword => t.text = Calculator.keyword
  | .symbol => v.isSymbol t.text = true
  | .leftParen | .rightParen | .equals => t.text = ""
  | .stop => False

instance (v : Lexicon) (t : Token) : Decidable (t.WellFormed v) := by
  unfold WellFormed
  cases t.kind <;> exact inferInstance

theorem WellFormed.kind_ne_stop {v : Lexicon} {t : Token} (h : t.WellFormed v) :
    t.kind ≠ .stop := by
  intro hkind
  simp [WellFormed, hkind] at h

/-- The characters that a token is written with. -/
def lexeme (t : Token) : List Char :=
  match t.kind with
  | .number | .name | .keyword | .symbol => t.text.toList
  | .leftParen => ['(']
  | .rightParen => [')']
  | .equals => ['=']
  | .stop => []

/-- The token is written with letters and digits. -/
def isWord (t : Token) : Bool :=
  match t.kind with
  | .number | .name | .keyword => true
  | .symbol | .leftParen | .rightParen | .equals | .stop => false

/-- The characters behind the token do not carry its lexeme on. -/
def EndsBefore (v : Lexicon) (t : Token) (after : List Char) : Prop :=
  ∀ c ∈ after.head?,
    (t.isWord = true → c.isAlphanum = false) ∧ (t.kind = .symbol → v.isSymbolChar c = false)

theorem endsBefore_nil (v : Lexicon) (t : Token) : t.EndsBefore v [] := by
  intro c hc
  cases hc

theorem endsBefore_cons {v : Lexicon} {t : Token} {c : Char} {r : List Char} :
    t.EndsBefore v (c :: r) ↔
      (t.isWord = true → c.isAlphanum = false) ∧ (t.kind = .symbol → v.isSymbolChar c = false) := by
  simp [EndsBefore]

variable {v : Lexicon}

/-! ### What is scanned -/

theorem text_wordToken (word : String) : (wordToken word).text = word := by
  unfold wordToken
  split <;> rfl

private theorem kind_wordToken (word : String) :
    (wordToken word).kind = .keyword ∧ word = Calculator.keyword ∨
      (wordToken word).kind = .name ∧ word ≠ Calculator.keyword := by
  unfold wordToken
  split
  · rename_i hkeyword
    exact Or.inl ⟨rfl, hkeyword⟩
  · rename_i hname
    exact Or.inr ⟨rfl, hname⟩

private theorem wellFormed_wordToken {word : String} (h : isIdentifier word = true) :
    (wordToken word).WellFormed v := by
  rcases kind_wordToken word with ⟨hkind, hword⟩ | ⟨hkind, hword⟩
  · simpa [WellFormed, hkind, text_wordToken] using hword
  · simp [WellFormed, hkind, text_wordToken, h, hword]

private theorem lexeme_wordToken (word : String) : (wordToken word).lexeme = word.toList := by
  rcases kind_wordToken word with ⟨hkind, -⟩ | ⟨hkind, -⟩ <;>
    simp [lexeme, hkind, text_wordToken]

private theorem endsBefore_wordToken {word : String} {after : List Char}
    (h : ∀ c ∈ after.head?, c.isAlphanum = false) : (wordToken word).EndsBefore v after := by
  intro c hc
  refine ⟨fun _ => h c hc, ?_⟩
  rcases kind_wordToken word with ⟨hkind, -⟩ | ⟨hkind, -⟩ <;> simp [hkind]

/-- **What is scanned is the lexeme of a well-formed token**, and it goes as far as it can. -/
theorem scan_sound {c : Char} {r after : List Char} {t : Token}
    (h : scan v (c :: r) = .ok (t, after)) :
    t.WellFormed v ∧ c :: r = t.lexeme ++ after ∧ t.EndsBefore v after := by
  rw [scan] at h
  split at h
  · rename_i hdigit
    obtain ⟨digits, rfl, hcs, hdigits, hend⟩ := scanNumber_eq_ok_iff.1 h
    obtain ⟨tail, rfl⟩ := exists_run_eq_cons hdigit hcs fun d hd => (hend d hd).1
    refine ⟨?_, by simpa [lexeme] using hcs, ?_⟩
    · simpa [WellFormed, Decimal.isNumeral] using hdigits
    · intro d hd
      simp [Char.isAlphanum, hend d hd]
  · split at h
    · rename_i halpha
      obtain ⟨word, rfl, hcs, hword, hend⟩ := scanWord_eq_iff.1 (Except.ok.inj h)
      have halphanum : c.isAlphanum = true := by simp [Char.isAlphanum, halpha]
      obtain ⟨tail, rfl⟩ := exists_run_eq_cons halphanum hcs hend
      refine ⟨wellFormed_wordToken ?_, ?_, endsBefore_wordToken hend⟩
      · simpa [isIdentifier, halpha] using (List.forall_mem_cons.1 hword).2
      · simpa [lexeme_wordToken] using hcs
    · split at h
      · obtain ⟨run, rfl, hsymbol, hcs, -, hend⟩ := scanSymbol_eq_ok_iff.1 h
        refine ⟨hsymbol, by simpa [lexeme] using hcs, ?_⟩
        intro d hd
        simp [isWord, hend d hd]
      · obtain ⟨rfl, ⟨rfl, rfl⟩ | ⟨rfl, rfl⟩ | ⟨rfl, rfl⟩⟩ := scanMark_eq_ok_iff.1 h
        · exact ⟨rfl, rfl, fun d _ => by simp [isWord, bare]⟩
        · exact ⟨rfl, rfl, fun d _ => by simp [isWord, bare]⟩
        · exact ⟨rfl, rfl, fun d _ => by simp [isWord, bare]⟩

/-! ### What is scanned back -/

section Lexable

variable (hv : ∀ s ∈ v.symbols, isLexable s = true)

include hv

/-- A character of the lexicon is symbolic. -/
theorem isSymbolicChar_of_isSymbolChar {c : Char} (h : v.isSymbolChar c = true) :
    isSymbolicChar c = true := by
  obtain ⟨s, hs, hc⟩ := Lexicon.isSymbolChar_iff.1 h
  have hlexable := hv s hs
  simp only [isLexable, Bool.and_eq_true, List.all_eq_true] at hlexable
  exact hlexable.2 c hc

private theorem isAlphanum_of_isSymbolChar {c : Char} (h : v.isSymbolChar c = true) :
    c.isAlphanum = false := by
  have hsymbolic := isSymbolicChar_of_isSymbolChar hv h
  simp only [isSymbolicChar, Bool.and_eq_true, Bool.not_eq_true'] at hsymbolic
  exact hsymbolic.1.1.1

/-- A symbol is a run of characters of the lexicon, and not empty. -/
private theorem exists_symbol_eq_cons {text : String} (h : v.isSymbol text = true) :
    ∃ c r, text.toList = c :: r ∧ ∀ d ∈ text.toList, v.isSymbolChar d = true := by
  have hmem := Lexicon.isSymbol_iff.1 h
  have hlexable := hv text hmem
  cases htext : text.toList with
  | nil => simp [isLexable, htext] at hlexable
  | cons c r =>
      refine ⟨c, r, rfl, ?_⟩
      intro d hd
      exact Lexicon.isSymbolChar_iff.2 ⟨text, hmem, htext ▸ hd⟩

private theorem isSymbolChar_eq_false_of_isAlphanum {c : Char} (h : c.isAlphanum = true) :
    v.isSymbolChar c = false := by
  rw [Bool.eq_false_iff]
  intro hc
  rw [isAlphanum_of_isSymbolChar hv hc] at h
  cases h

theorem isSymbolChar_eq_false_of_mem {c : Char} (h : c ∈ ' ' :: punctuation) :
    v.isSymbolChar c = false := by
  rw [Bool.eq_false_iff]
  intro hc
  have hsymbolic := isSymbolicChar_of_isSymbolChar hv hc
  simp only [punctuation, List.mem_cons, List.not_mem_nil, or_false] at h
  rcases h with rfl | rfl | rfl | rfl <;> revert hsymbolic <;> decide

omit hv in
private theorem scan_number {text : String} {after : List Char} (h : Decimal.isNumeral text = true)
    (hend : ∀ c ∈ after.head?, c.isAlphanum = false) :
    scan v (text.toList ++ after) = .ok (⟨.number, text⟩, after) := by
  simp only [Decimal.isNumeral, Bool.and_eq_true, List.all_eq_true] at h
  have hscan : scanNumber (text.toList ++ after) = .ok (⟨.number, text⟩, after) := by
    refine scanNumber_eq_ok_iff.2 ⟨text.toList, by simp, rfl, h.2, ?_⟩
    intro c hc
    simpa [Char.isAlphanum, and_comm] using hend c hc
  cases htext : text.toList with
  | nil => simp [htext] at h
  | cons c r =>
      have hdigit : c.isDigit = true := h.2 c (by simp [htext])
      rw [htext] at hscan
      rw [List.cons_append, scan, if_pos hdigit]
      exact hscan

omit hv in
private theorem scan_word {text : String} {after : List Char} (h : isIdentifier text = true)
    (hend : ∀ c ∈ after.head?, c.isAlphanum = false) :
    scan v (text.toList ++ after) = .ok (wordToken text, after) := by
  cases htext : text.toList with
  | nil => simp [isIdentifier, htext] at h
  | cons c r =>
      simp only [isIdentifier, htext, Bool.and_eq_true, List.all_eq_true] at h
      have hdigit : ¬ c.isDigit = true := not_isDigit_of_isAlpha h.1
      have hword : ∀ d ∈ c :: r, d.isAlphanum = true := by
        refine List.forall_mem_cons.2 ⟨?_, h.2⟩
        simp [Char.isAlphanum, h.1]
      rw [List.cons_append, scan, if_neg hdigit, if_pos h.1]
      exact congrArg Except.ok (scanWord_eq_iff.2 ⟨c :: r, by simp [← htext], rfl, hword, hend⟩)

private theorem scan_symbol {text : String} {after : List Char} (h : v.isSymbol text = true)
    (hend : ∀ c ∈ after.head?, v.isSymbolChar c = false) :
    scan v (text.toList ++ after) = .ok (⟨.symbol, text⟩, after) := by
  obtain ⟨c, r, htext, hrun⟩ := exists_symbol_eq_cons hv h
  have hscan : scanSymbol v (text.toList ++ after) = .ok (⟨.symbol, text⟩, after) :=
    scanSymbol_eq_ok_iff.2 ⟨text.toList, by simp, by simpa using h, rfl, hrun, hend⟩
  rw [htext] at hscan hrun ⊢
  have hc : v.isSymbolChar c = true := hrun c List.mem_cons_self
  have halphanum : c.isAlphanum = false := isAlphanum_of_isSymbolChar hv hc
  simp only [Char.isAlphanum, Bool.or_eq_false_iff] at halphanum
  rw [List.cons_append, scan, if_neg (by simp [halphanum.2]), if_neg (by simp [halphanum.1]),
    if_pos hc]
  exact hscan

private theorem scan_mark {c : Char} {r after : List Char} {t : Token} (hc : c ∈ punctuation)
    (h : scanMark c r = .ok (t, after)) : scan v (c :: r) = .ok (t, after) := by
  have hsymbol : ¬ v.isSymbolChar c = true := by
    simp [isSymbolChar_eq_false_of_mem hv (List.mem_cons_of_mem _ hc)]
  have halphanum : ¬ c.isDigit = true ∧ ¬ c.isAlpha = true := by
    simp only [punctuation, List.mem_cons, List.not_mem_nil, or_false] at hc
    rcases hc with rfl | rfl | rfl <;> decide
  rw [scan, if_neg halphanum.1, if_neg halphanum.2, if_neg hsymbol]
  exact h

/-- **A lexeme is scanned back to its token** if the characters behind it leave it alone. -/
theorem scan_complete {t : Token} {after : List Char} (ht : t.WellFormed v)
    (hend : t.EndsBefore v after) : scan v (t.lexeme ++ after) = .ok (t, after) := by
  obtain ⟨kind, text⟩ := t
  cases kind with
  | number => exact scan_number ht fun c hc => (hend c hc).1 rfl
  | name =>
      have hname : wordToken text = ⟨.name, text⟩ := if_neg ht.2
      have hscan : scan v (text.toList ++ after) = .ok (wordToken text, after) :=
        scan_word ht.1 fun c hc => (hend c hc).1 rfl
      rw [hname] at hscan
      exact hscan
  | keyword =>
      obtain rfl : text = Calculator.keyword := ht
      exact scan_word (by decide) fun c hc => (hend c hc).1 rfl
  | symbol => exact scan_symbol hv ht fun c hc => (hend c hc).2 rfl
  | leftParen =>
      obtain rfl : text = "" := ht
      exact scan_mark hv (by decide) rfl
  | rightParen =>
      obtain rfl : text = "" := ht
      exact scan_mark hv (by decide) rfl
  | equals =>
      obtain rfl : text = "" := ht
      exact scan_mark hv (by decide) rfl
  | stop => exact absurd ht id

omit hv in
/-- The lexeme of a word begins with a letter or a digit. -/
private theorem exists_word_eq_cons {t : Token} (ht : t.WellFormed v) (hword : t.isWord = true) :
    ∃ c r, t.lexeme = c :: r ∧ c.isAlphanum = true := by
  have hidentifier : ∀ text : String, isIdentifier text = true →
      ∃ c r, text.toList = c :: r ∧ c.isAlphanum = true := by
    intro text h
    cases htext : text.toList with
    | nil => simp [isIdentifier, htext] at h
    | cons c r =>
        simp only [isIdentifier, htext, Bool.and_eq_true] at h
        exact ⟨c, r, rfl, by simp [Char.isAlphanum, h.1]⟩
  obtain ⟨kind, text⟩ := t
  cases kind with
  | number =>
      have hnumeral : Decimal.isNumeral text = true := ht
      simp only [Decimal.isNumeral, Bool.and_eq_true, List.all_eq_true] at hnumeral
      show ∃ c r, text.toList = c :: r ∧ c.isAlphanum = true
      cases htext : text.toList with
      | nil => simp [htext] at hnumeral
      | cons c r =>
          have hdigit : c.isDigit = true := hnumeral.2 c (by simp [htext])
          exact ⟨c, r, rfl, by simp [Char.isAlphanum, hdigit]⟩
  | name => exact hidentifier text ht.1
  | keyword =>
      obtain rfl : text = Calculator.keyword := ht
      exact hidentifier _ (by decide)
  | symbol | leftParen | rightParen | equals | stop => cases hword

/-- **The three ways a lexeme can begin.**  Its first character is no space, and it is a letter or
digit or a character of the lexicon as the kind of the token says. -/
theorem exists_lexeme_eq_cons {t : Token} (ht : t.WellFormed v) :
    ∃ c r, t.lexeme = c :: r ∧ c ≠ ' ' ∧ c.isAlphanum = t.isWord ∧
      v.isSymbolChar c = decide (t.kind = .symbol) := by
  by_cases hword : t.isWord = true
  · obtain ⟨c, r, hlexeme, hc⟩ := exists_word_eq_cons ht hword
    have hsymbol : t.kind ≠ .symbol := by
      intro hkind
      simp [isWord, hkind] at hword
    refine ⟨c, r, hlexeme, ?_, by rw [hc, hword], ?_⟩
    · rintro rfl
      exact absurd hc (by decide)
    · simp [isSymbolChar_eq_false_of_isAlphanum hv hc, hsymbol]
  · -- What is no word is a symbol or one of the marks.
    obtain ⟨kind, text⟩ := t
    cases kind with
    | number | name | keyword => exact absurd rfl hword
    | symbol =>
        have hsymbol : v.isSymbol text = true := ht
        obtain ⟨c, r, htext, hrun⟩ := exists_symbol_eq_cons hv hsymbol
        have hc : v.isSymbolChar c = true := hrun c (by simp [htext])
        refine ⟨c, r, htext, ?_, isAlphanum_of_isSymbolChar hv hc, hc⟩
        rintro rfl
        rw [isSymbolChar_eq_false_of_mem hv (by decide)] at hc
        cases hc
    | leftParen => exact ⟨'(', [], rfl, by decide, rfl,
        isSymbolChar_eq_false_of_mem hv (by decide)⟩
    | rightParen => exact ⟨')', [], rfl, by decide, rfl,
        isSymbolChar_eq_false_of_mem hv (by decide)⟩
    | equals => exact ⟨'=', [], rfl, by decide, rfl,
        isSymbolChar_eq_false_of_mem hv (by decide)⟩
    | stop => exact absurd ht id

end Lexable

end Token

end Calculator
