/-
The course of a scan.

Whatever the lexicon holds, blanks, letters, brackets or nothing, a scanner that is
asked again and again takes the same course.  It advances through its line token by
token, and then it is stuck: behind the end it fails because there is nothing more, in
front of what is no token it fails because of that.  It has an answer to each request,
and once it has failed the answer is always the same.

Only a token moves the scanner on, and a token takes characters (`exists_advances`); an
error leaves it in front of them, with the spaces skipped, and there are none left to
skip the next time (`stuck_of_scan_error`).  None of this needs the symbols of the
lexicon to be lexable, because what a token takes is never empty, also if a symbol is.
-/
import Calculator.Proofs.Token.Exchange
import Calculator.Proofs.Token.Writing

namespace Calculator

private theorem skipSpaces_skipSpaces (cs : List Char) :
    skipSpaces (skipSpaces cs) = skipSpaces cs := by
  obtain ⟨gap, hgap⟩ := exists_replicate_append_skipSpaces cs
  calc skipSpaces (skipSpaces cs)
      = skipSpaces (List.replicate gap ' ' ++ skipSpaces cs) :=
        (skipSpaces_replicate_append gap _).symm
    _ = skipSpaces cs := by rw [← hgap]

namespace Scanner

open TokenStream (Exchanges latest reads)

/-! ### Moving on and being stuck -/

/-- The scanner delivers the tokens one after the other and becomes the second.  None of them is the
end, and each takes characters off the line. -/
inductive Advances : Scanner → List Token → Scanner → Prop
  | nil (s : Scanner) : Advances s [] s
  | cons {s s' s'' : Scanner} {t : Token} {ts : List Token} {taken : List Char}
      (hnext : s.next = (.ok t, s')) (ht : t.kind ≠ .stop) (htaken : taken ≠ [])
      (hrest : s.rest = taken ++ s'.rest) (h : Advances s' ts s'') : Advances s (t :: ts) s''

/-- There are no more tokens than characters. -/
theorem Advances.length_le {s s' : Scanner} {ts : List Token} (h : Advances s ts s') :
    ts.length + s'.rest.length ≤ s.rest.length := by
  induction h with
  | nil => simp
  | cons _ _ htaken hrest _ ih =>
      have hpos := List.length_pos_iff.2 htaken
      rw [hrest, List.length_append, List.length_cons]
      omega

/-- However often it is asked for a token, the scanner fails with the error and stays as it is. -/
def Stuck (e : TokenError) (s : Scanner) : Prop :=
  ∀ (is : List Item) m, Exchanges s (reads is) m → m = s ∧ ∀ i ∈ is, i = .error e

theorem stuck_of_next {e : TokenError} {s : Scanner} (h : s.next = (.error e, s)) :
    Stuck e s := by
  intro is
  induction is with
  | nil =>
      intro m hm
      cases hm
      exact ⟨rfl, by simp⟩
  | cons i is ih =>
      intro m hm
      cases hm with
      | @read _ s' _ _ _ hnext hrest =>
          have hsame : (i, s') = (.error e, s) := hnext.symm.trans h
          cases hsame
          obtain ⟨hm, his⟩ := ih m hrest
          exact ⟨hm, List.forall_mem_cons.2 ⟨rfl, his⟩⟩

/-- Behind the end there is only the error that there is nothing more. -/
theorem stuck_of_finished {s : Scanner} (hs : s.finished = true) (hrest : s.rest = []) :
    Stuck (.afterEnd "") s :=
  stuck_of_next (by simp [next, hs, hrest])

/-- What is no token stays in front of the scanner. -/
theorem stuck_of_scan_error {s : Scanner} {e : TokenError} (hs : s.finished = false)
    (h : scan s.lexicon (skipSpaces s.rest) = .error e) :
    Stuck e { s with rest := skipSpaces s.rest } := by
  refine stuck_of_next ?_
  have hscan : scan s.lexicon (skipSpaces (skipSpaces s.rest)) = .error e := by
    rw [skipSpaces_skipSpaces, h]
  have hnext := next_of_scan_error (s := { s with rest := skipSpaces s.rest }) hs hscan
  rwa [skipSpaces_skipSpaces] at hnext

/-- The scanner has come to its last answer but one: the end or an error comes now, and then it is
stuck. -/
def Settled (s : Scanner) : Prop :=
  (∃ ended, s.next = (.ok (.bare .stop), ended) ∧ ended.rest = [] ∧ Stuck (.afterEnd "") ended) ∨
    ∃ e here, s.next = (.error e, here) ∧ e.IsLexical ∧ Stuck e here

/-! ### One request -/

/-- **A token is delivered, and takes characters, or the scanner has settled.** -/
theorem next_cases {s : Scanner} (hs : s.finished = false) :
    (∃ t s' taken, s.next = (.ok t, s') ∧ t.kind ≠ .stop ∧ taken ≠ [] ∧
        s.rest = taken ++ s'.rest ∧ s'.finished = false) ∨ s.Settled := by
  obtain ⟨gap, hgap⟩ := exists_replicate_append_skipSpaces s.rest
  cases hskip : skipSpaces s.rest with
  | nil =>
      exact Or.inr (Or.inl ⟨_, next_of_skipSpaces_eq_nil hs hskip, rfl, stuck_of_finished rfl rfl⟩)
  | cons c r =>
      cases hscan : scan s.lexicon (c :: r) with
      | error e =>
          rw [← hskip] at hscan
          exact Or.inr (Or.inr ⟨e, _, next_of_scan_error hs hscan, isLexical_of_scan hscan,
            stuck_of_scan_error hs hscan⟩)
      | ok found =>
          obtain ⟨t, after⟩ := found
          obtain ⟨-, hcs, -⟩ := Token.scan_sound hscan
          obtain ⟨hlt, hstop⟩ := length_lt_of_scan hscan
          have hlexeme : t.lexeme ≠ [] := by
            intro hnil
            rw [hcs, hnil, List.nil_append] at hlt
            exact Nat.lt_irrefl _ hlt
          rw [hskip, hcs, ← List.append_assoc] at hgap
          rw [← hskip] at hscan
          refine Or.inl ⟨t, _, List.replicate gap ' ' ++ t.lexeme, next_of_scan hs hscan, ?_, ?_,
            hgap, hstop⟩
          · simpa [Token.isStop] using hstop
          · simp [hlexeme]

/-- The text of a stray character is what is left of the line. -/
theorem rest_of_strayCharacter {s s' : Scanner} {rest : String}
    (h : s.next = (.error (.strayCharacter rest), s')) : rest = String.ofList s'.rest := by
  unfold next at h
  split at h
  · cases h
  · simp only at h
    split at h
    · rename_i hscan
      cases h
      exact eq_of_scan_eq_strayCharacter hscan
    · cases h

/-! ### Any number of requests -/

/-- **A scanner advances until it has settled.** -/
theorem exists_advances {s : Scanner} (hs : s.finished = false) :
    ∃ ts m, Advances s ts m ∧ m.Settled := by
  -- The induction is on the length, because each token shortens the line.
  induction hk : s.rest.length using Nat.strongRecOn generalizing s with
  | ind k ih =>
      rcases next_cases hs with ⟨t, s', taken, hnext, ht, htaken, hrest, hs'⟩ | hsettled
      · have hpos := List.length_pos_iff.2 htaken
        have hlt : s'.rest.length < k := by
          rw [hrest, List.length_append] at hk
          omega
        obtain ⟨ts, m, hadvances, hm⟩ := ih _ hlt hs' rfl
        exact ⟨t :: ts, m, .cons hnext ht htaken hrest hadvances, hm⟩
      · exact ⟨[], s, .nil s, hsettled⟩

/-- **Every scan takes the same course**, whatever the lexicon and the text.  There are tokens, no
more than characters, and then the end or an error of the text, behind which the scanner is stuck.
At each place its last token is the one delivered last, and the text of a stray character is the
rest of the line. -/
theorem runs_its_course (s : Scanner) (text : String) :
    (∃ ts m, Advances (s.reset text) ts m ∧ ts.length ≤ text.length ∧ m.Settled) ∧
      ∀ (is : List Item) m, Exchanges (s.reset text) (reads is) m →
        TokenStream.last m
            = (latest none (reads is)).elim (.error .nothingRead) .ok ∧
          ∀ rest m', m.next = (.error (.strayCharacter rest), m') →
            rest = String.ofList m'.rest := by
  constructor
  · obtain ⟨ts, m, hadvances, hsettled⟩ := exists_advances (s := s.reset text) rfl
    have hlen : ts.length + m.rest.length ≤ text.toList.length := hadvances.length_le
    rw [String.length_toList] at hlen
    exact ⟨ts, m, hadvances, Nat.le_of_add_right_le hlen, hsettled⟩
  · intro is m hm
    have hlast : TokenStream.last? m = latest none (reads is) :=
      (s.reset text).remembers _ _ hm
    refine ⟨?_, fun rest m' => rest_of_strayCharacter⟩
    rw [TokenStream.last, hlast]
    cases latest none (reads is) <;> rfl

end Scanner

end Calculator
