/-
Cutting a line into tokens.

Spaces are skipped.  Then the first character decides: a digit begins a number, a
letter a name or the keyword, a character of the lexicon a symbol, and the brackets
and the equals sign stand for themselves.  Letters and digits come before the
lexicon, and the lexicon before the rest, so a lexicon can take the brackets for
its symbols but never a letter.  Numbers, names and symbols are as long as
possible; a number that a letter follows, and a run of symbol characters that is no
symbol, are errors.

`scan` reads one token off the characters.  A `Scanner` is a place in a line: an error
leaves it where the bad token begins, and once the end is delivered it delivers
nothing more.
-/
import Calculator.Table.Lexicon
import Calculator.Token.Stream

namespace Calculator

/-! ### One token -/

/-- The word that is no name. -/
def keyword : String :=
  "let"

/-- The token for a run of letters and digits that begins with a letter. -/
def wordToken (word : String) : Token :=
  if word = keyword then ⟨.keyword, word⟩ else ⟨.name, word⟩

/-- A number off characters that begin with a digit. -/
def scanNumber (cs : List Char) : Except TokenError (Token × List Char) :=
  let digits := cs.takeWhile Char.isDigit
  match cs.dropWhile Char.isDigit with
  | [] => .ok (⟨.number, String.ofList digits⟩, [])
  | c :: r =>
    if c.isAlpha then .error (.mergedNumber (String.ofList (digits ++ [c])))
    else .ok (⟨.number, String.ofList digits⟩, c :: r)

/-- A name or the keyword off characters that begin with a letter. -/
def scanWord (cs : List Char) : Token × List Char :=
  (wordToken (String.ofList (cs.takeWhile Char.isAlphanum)), cs.dropWhile Char.isAlphanum)

/-- A symbol off characters that begin with one of the lexicon's. -/
def scanSymbol (v : Lexicon) (cs : List Char) : Except TokenError (Token × List Char) :=
  let run := String.ofList (cs.takeWhile v.isSymbolChar)
  if v.isSymbol run then .ok (⟨.symbol, run⟩, cs.dropWhile v.isSymbolChar)
  else .error (.unknownSymbol run)

/-- A bracket or the equals sign. -/
def scanMark (c : Char) (r : List Char) : Except TokenError (Token × List Char) :=
  match c with
  | '(' => .ok (.bare .leftParen, r)
  | ')' => .ok (.bare .rightParen, r)
  | '=' => .ok (.bare .equals, r)
  | _ => .error (.strayCharacter (String.ofList (c :: r)))

/-- The first token of characters that do not begin with a space, and what follows it. -/
def scan (v : Lexicon) : List Char → Except TokenError (Token × List Char)
  | [] => .ok (.bare .stop, [])
  | c :: r =>
    if c.isDigit then scanNumber (c :: r)
    else if c.isAlpha then .ok (scanWord (c :: r))
    else if v.isSymbolChar c then scanSymbol v (c :: r)
    else scanMark c r

/-- Characters without the spaces before them. -/
def skipSpaces (cs : List Char) : List Char :=
  cs.dropWhile fun c => decide (c = ' ')

/-! ### A token is never empty -/

private theorem length_dropWhile_lt {p : Char → Bool} {c : Char} {r : List Char} (h : p c = true) :
    ((c :: r).dropWhile p).length < (c :: r).length := by
  have := (List.dropWhile_sublist p (l := r)).length_le
  simp [h]
  omega

/-- Every token but the end takes at least one character, and is not the end. -/
theorem length_lt_of_scan {v : Lexicon} {c : Char} {r after : List Char} {t : Token}
    (h : scan v (c :: r) = .ok (t, after)) :
    after.length < (c :: r).length ∧ t.isStop = false := by
  rw [scan] at h
  split at h
  · next hd =>
    have := length_dropWhile_lt (r := r) hd
    rw [scanNumber] at h
    split at h
    · next hr => obtain ⟨rfl, rfl⟩ := h; exact ⟨by simp, rfl⟩
    · next hr =>
      split at h
      · cases h
      · obtain ⟨rfl, rfl⟩ := h
        exact ⟨hr ▸ this, rfl⟩
  · split at h
    · next ha =>
      have hp : c.isAlphanum = true := by simp [Char.isAlphanum, ha]
      obtain ⟨rfl, rfl⟩ := h
      refine ⟨length_dropWhile_lt hp, ?_⟩
      unfold wordToken
      split <;> rfl
    · split at h
      · next hs =>
        rw [scanSymbol] at h
        split at h
        · obtain ⟨rfl, rfl⟩ := h
          exact ⟨length_dropWhile_lt hs, rfl⟩
        · cases h
      · unfold scanMark at h
        split at h <;> cases h <;> exact ⟨by simp, rfl⟩

/-! ### A place in a line -/

/-- A line that is being cut into tokens. -/
structure Scanner where
  lexicon : Lexicon
  /-- What is left of the line. -/
  rest : List Char
  /-- The end has been delivered. -/
  finished : Bool
  /-- The token delivered last. -/
  last? : Option Token
deriving DecidableEq

namespace Scanner

/-- A scanner at the beginning of an empty line. -/
def new (lexicon : Lexicon) : Scanner where
  lexicon := lexicon
  rest := []
  finished := false
  last? := none

/-- The scanner at the beginning of a line. -/
def reset (text : String) (s : Scanner) : Scanner :=
  { new s.lexicon with rest := text.toList }

/-- The next token. -/
def next (s : Scanner) : Except TokenError Token × Scanner :=
  if s.finished then (.error (.afterEnd (String.ofList s.rest)), s)
  else
    let here := skipSpaces s.rest
    match scan s.lexicon here with
    | .error e => (.error e, { s with rest := here })
    | .ok (t, after) => (.ok t, { s with rest := after, finished := t.isStop, last? := some t })

/-- A bound on the tokens to come: one for each character, and one for the end. -/
def remaining (s : Scanner) : Nat :=
  if s.finished then 0 else s.rest.length + 1

theorem remaining_lt {s s' : Scanner} {t : Token} (h : s.next = (.ok t, s')) :
    s'.remaining < s.remaining := by
  unfold next at h
  split at h
  · cases h
  · next hf =>
    have hs := (List.dropWhile_sublist (fun c => decide (c = ' ')) (l := s.rest)).length_le
    simp only at h
    split at h
    · cases h
    · next t' after hscan =>
      obtain ⟨rfl, rfl⟩ := h
      cases hrest : skipSpaces s.rest with
      | nil =>
        rw [hrest] at hscan
        obtain ⟨rfl, rfl⟩ := hscan
        simp [remaining, Token.isStop, Token.bare, hf]
      | cons c r =>
        rw [hrest] at hscan
        have hlt := length_lt_of_scan hscan
        have hle : (c :: r).length ≤ s.rest.length := hrest ▸ hs
        simp only [remaining, hlt.2, hf]
        simp only [Bool.false_eq_true, if_false]
        omega

end Scanner

instance : FiniteStream Scanner where
  next := Scanner.next
  last? := Scanner.last?
  reset := Scanner.reset
  remaining := Scanner.remaining
  remaining_lt := Scanner.remaining_lt

end Calculator
