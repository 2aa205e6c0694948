/-
Streams that run dry.

A stream runs dry if it delivers finitely many tokens and then fails for ever.  How many
tokens it still supplies is settled by its answers (`Supplies.unique`): a token takes one
off, an error none.  Scripts and scanners run dry in every state.

A type of streams is finite when all of its streams run dry, with a bound that goes with
each of them.  Here the bound is not part of a type, so a single stream can run dry too.
-/
import Calculator.Proofs.Token.Course

namespace Calculator

namespace TokenStream

variable {σ : Type} [TokenStream σ] {s s' : σ} {n : Nat}

/-! ### How many tokens are to come -/

/-- However often it is asked for a token, the stream fails. -/
def OnlyFails (s : σ) : Prop :=
  ∀ (is : List Item) (m : σ), Exchanges s (reads is) m → ∀ i ∈ is, ∃ e, i = .error e

/-- How many of the items are tokens. -/
def tokenCount (is : List Item) : Nat :=
  is.countP Except.isOk

private theorem tokenCount_ok (t : Token) (is : List Item) :
    tokenCount (.ok t :: is) = tokenCount is + 1 :=
  List.countP_cons_of_pos rfl

private theorem tokenCount_error (e : TokenError) (is : List Item) :
    tokenCount (.error e :: is) = tokenCount is :=
  List.countP_cons_of_neg Bool.false_ne_true

/-- The stream delivers so many tokens, perhaps with errors among them, and then only fails. -/
def Supplies (s : σ) (n : Nat) : Prop :=
  ∃ (is : List Item) (m : σ), Exchanges s (reads is) m ∧ OnlyFails m ∧ tokenCount is = n

private theorem OnlyFails.exists_error (h : OnlyFails s) {i : Item} (hnext : next s = (i, s')) :
    ∃ e, i = .error e :=
  h [i] s' (.read hnext (.nil s')) i (by simp)

private theorem OnlyFails.of_next (h : OnlyFails s) {i : Item} (hnext : next s = (i, s')) :
    OnlyFails s' :=
  fun is m hm j hj => h (i :: is) m (.read hnext hm) j (List.mem_cons_of_mem i hj)

theorem OnlyFails.supplies (h : OnlyFails s) : Supplies s 0 :=
  ⟨[], s, .nil s, h, rfl⟩

private theorem supplies_of_next_ok {t : Token} (hnext : next s = (.ok t, s')) (h : Supplies s' n) :
    Supplies s (n + 1) := by
  obtain ⟨is, m, hm, hfails, hcount⟩ := h
  exact ⟨.ok t :: is, m, .read hnext hm, hfails, by rw [tokenCount_ok, hcount]⟩

private theorem supplies_of_next_error {e : TokenError} (hnext : next s = (.error e, s'))
    (h : Supplies s' n) : Supplies s n := by
  obtain ⟨is, m, hm, hfails, hcount⟩ := h
  exact ⟨.error e :: is, m, .read hnext hm, hfails, by rw [tokenCount_error, hcount]⟩

/-- **A token takes one off the supply.** -/
theorem Supplies.of_next_ok (h : Supplies s n) {t : Token} (hnext : next s = (.ok t, s')) :
    ∃ k, n = k + 1 ∧ Supplies s' k := by
  obtain ⟨is, m, hm, hfails, rfl⟩ := h
  cases is with
  | nil =>
      cases hm
      obtain ⟨e, he⟩ := hfails.exists_error hnext
      cases he
  | cons i is =>
      cases hm with
      | read hnext' hrest =>
          rw [hnext] at hnext'
          cases hnext'
          exact ⟨tokenCount is, tokenCount_ok t is, is, m, hrest, hfails, rfl⟩

/-- An error takes none. -/
theorem Supplies.of_next_error (h : Supplies s n) {e : TokenError}
    (hnext : next s = (.error e, s')) : Supplies s' n := by
  obtain ⟨is, m, hm, hfails, rfl⟩ := h
  cases is with
  | nil =>
      cases hm
      exact (hfails.of_next hnext).supplies
  | cons i is =>
      cases hm with
      | read hnext' hrest =>
          rw [hnext] at hnext'
          cases hnext'
          exact ⟨is, m, hrest, hfails, (tokenCount_error e is).symm⟩

/-- **How much a stream supplies is settled by its answers.** -/
theorem Supplies.unique {k : Nat} (h : Supplies s n) (h' : Supplies s k) : n = k := by
  obtain ⟨is, m, hm, hfails, rfl⟩ := h
  induction is generalizing s k with
  | nil =>
      cases hm
      obtain ⟨js, m', hm', -, rfl⟩ := h'
      refine (List.countP_eq_zero.2 fun j hj => ?_).symm
      obtain ⟨e, rfl⟩ := hfails js m' hm' j hj
      exact Bool.false_ne_true
  | cons i is ih =>
      cases hm with
      | read hnext hrest =>
          cases i with
          | ok t =>
              obtain ⟨l, rfl, hl⟩ := h'.of_next_ok hnext
              rw [tokenCount_ok, ih hl hrest]
          | error e =>
              rw [tokenCount_error, ih (h'.of_next_error hnext) hrest]

/-- The stream delivers finitely many tokens and then only fails. -/
def RunsDry (s : σ) : Prop :=
  ∃ n, Supplies s n

/-- Before it has run dry, a stream comes to an end or to an error, and there are tokens up to
that. -/
theorem RunsDry.exists_closing (h : RunsDry s) :
    ∃ (ts : List Token) (last : Item) (m : σ), (∀ t ∈ ts, t.kind ≠ .stop) ∧
      Item.closes last = true ∧ Exchanges s (reads (ts.map .ok ++ [last])) m := by
  obtain ⟨n, hn⟩ := h
  induction n generalizing s with
  | zero =>
      cases hnext : next s with
      | mk i s' =>
          cases i with
          | ok t =>
              obtain ⟨k, hk, -⟩ := hn.of_next_ok hnext
              cases hk
          | error e => exact ⟨[], .error e, s', by simp, rfl, .read hnext (.nil s')⟩
  | succ n ih =>
      cases hnext : next s with
      | mk i s' =>
          cases i with
          | ok t =>
              by_cases ht : t.kind = .stop
              · refine ⟨[], .ok t, s', by simp, ?_, .read hnext (.nil s')⟩
                simp [Item.closes, Token.isStop, ht]
              · obtain ⟨k, hk, hs'⟩ := hn.of_next_ok hnext
                cases hk
                obtain ⟨ts, last, m, hts, hlast, hm⟩ := ih hs'
                exact ⟨t :: ts, last, m, List.forall_mem_cons.2 ⟨ht, hts⟩, hlast, .read hnext hm⟩
          | error e => exact ⟨[], .error e, s', by simp, rfl, .read hnext (.nil s')⟩

end TokenStream

open TokenStream (OnlyFails RunsDry Supplies tokenCount)

/-! ### Scripts and scanners -/

/-- **A script supplies the tokens that are still ahead.** -/
theorem Script.supplies (s : Script) : Supplies s (tokenCount s.ahead) := by
  generalize hahead : s.ahead = is
  induction is generalizing s with
  | nil =>
      have hnext : TokenStream.next s = (.error (.afterEnd ""), s) := by
        show s.next = _
        rw [next, hahead]
      refine OnlyFails.supplies fun is => ?_
      induction is with
      | nil => simp
      | cons i is ih =>
          intro m hm
          cases hm with
          | read hread hrest =>
              rw [hnext] at hread
              cases hread
              exact List.forall_mem_cons.2 ⟨⟨_, rfl⟩, ih m hrest⟩
  | cons i is ih =>
      cases i with
      | ok t =>
          have hnext : TokenStream.next s = (.ok t, { s with ahead := is, last? := some t }) := by
            show s.next = _
            rw [next, hahead]
          rw [TokenStream.tokenCount_ok]
          exact TokenStream.supplies_of_next_ok hnext (ih _ rfl)
      | error e =>
          have hnext : TokenStream.next s = (.error e, { s with ahead := is }) := by
            show s.next = _
            rw [next, hahead]
          rw [TokenStream.tokenCount_error]
          exact TokenStream.supplies_of_next_error hnext (ih _ rfl)

/-- **A scanner runs dry**, whatever its lexicon and its line. -/
theorem Scanner.runsDry (s : Scanner) : RunsDry s := by
  have hfails : ∀ {e : TokenError} {m : Scanner}, Stuck e m → OnlyFails m :=
    fun h is m' hm i hi => ⟨_, (h is m' hm).2 i hi⟩
  cases hs : s.finished with
  | true =>
      have hnext : s.next = (.error (.afterEnd (String.ofList s.rest)), s) := by
        simp [next, hs]
      exact ⟨0, (hfails (stuck_of_next hnext)).supplies⟩
  | false =>
      obtain ⟨ts, m, hadvances, hsettled⟩ := exists_advances hs
      clear hs
      induction hadvances with
      | nil m =>
          rcases hsettled with ⟨ended, hnext, -, hstuck⟩ | ⟨e, here, hnext, -, hstuck⟩
          · exact ⟨1, TokenStream.supplies_of_next_ok hnext (hfails hstuck).supplies⟩
          · exact ⟨0, TokenStream.supplies_of_next_error hnext (hfails hstuck).supplies⟩
      | cons hnext _ _ _ _ ih =>
          obtain ⟨n, hn⟩ := ih hsettled
          exact ⟨n + 1, TokenStream.supplies_of_next_ok hnext hn⟩

end Calculator
