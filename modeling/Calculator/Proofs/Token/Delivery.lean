/-
What a stream delivers.

Everything that is proved of reading speaks of the answers of a stream, never of
the stream itself: `Delivers s is s'` says that the next requests to `s` are
answered with the items `is`, in their order, and lead to `s'`.  An item is a token
or an error.  The relation asks one thing more of a stream, that it remembers the
token it has delivered, because that is the token a push-back puts back.

A push-back is a stream itself, so the same relation says what lies ahead of it.
Wrapping a stream changes nothing about its items, and putting a token back puts
it in front of them.
-/
import Calculator.Token.PushBack
import Calculator.Token.Script

namespace Calculator

/-- What a request to a stream is answered with. -/
abbrev Item : Type :=
  Except TokenError Token

section Delivery

variable {σ : Type} [TokenStream σ]

/-- The next requests to a stream are answered with the items and lead to another stream, and each
token delivered on the way is remembered as the last one. -/
inductive Delivers : σ → List Item → σ → Prop
  | nil (s : σ) : Delivers s [] s
  | token {s s' s'' : σ} {t : Token} {is : List Item}
      (hnext : TokenStream.next s = (.ok t, s')) (hlast : TokenStream.last? s' = some t)
      (hrest : Delivers s' is s'') : Delivers s (.ok t :: is) s''
  | error {s s' s'' : σ} {e : TokenError} {is : List Item}
      (hnext : TokenStream.next s = (.error e, s')) (hrest : Delivers s' is s'') :
      Delivers s (.error e :: is) s''

/-- What is delivered can be cut in two. -/
theorem Delivers.exists_of_append {s m : σ} {is js : List Item} (h : Delivers s (is ++ js) m) :
    ∃ mid, Delivers s is mid ∧ Delivers mid js m := by
  induction is generalizing s with
  | nil => exact ⟨s, .nil s, h⟩
  | cons i is ih =>
      cases h with
      | token hnext hlast hrest =>
          obtain ⟨mid, his, hjs⟩ := ih hrest
          exact ⟨mid, .token hnext hlast his, hjs⟩
      | error hnext hrest =>
          obtain ⟨mid, his, hjs⟩ := ih hrest
          exact ⟨mid, .error hnext his, hjs⟩

/-- What is delivered leads to one stream. -/
theorem Delivers.unique {s m m' : σ} {is : List Item} (h : Delivers s is m)
    (h' : Delivers s is m') : m = m' := by
  induction h generalizing m' with
  | nil =>
      cases h'
      rfl
  | token hnext _ _ ih =>
      cases h' with
      | token hnext' _ hrest' =>
          rw [hnext] at hnext'
          cases hnext'
          exact ih hrest'
  | error hnext _ ih =>
      cases h' with
      | error hnext' hrest' =>
          rw [hnext] at hnext'
          cases hnext'
          exact ih hrest'

end Delivery

/-! ### Items that come to an end -/

/-- The item is the end of the line or an error, so nothing of the line lies behind it. -/
def Item.closes : Item → Bool
  | .ok t => t.isStop
  | .error _ => true

/-- Some item closes the list. -/
def Closed (is : List Item) : Prop :=
  ∃ i ∈ is, Item.closes i = true

private theorem not_closed_nil : ¬ Closed [] := by
  rintro ⟨i, hi, -⟩
  simp at hi

/-- What follows a token other than the end is closed if the whole is. -/
theorem Closed.tail {t : Token} {is : List Item} (h : Closed (.ok t :: is))
    (ht : t.kind ≠ .stop) : Closed is := by
  obtain ⟨i, hi, hc⟩ := h
  rcases List.mem_cons.1 hi with rfl | hi
  · simp [Item.closes, Token.isStop, ht] at hc
  · exact ⟨i, hi, hc⟩

theorem Closed.of_append {ts : List Token} {rest : List Item} (h : Closed (ts.map .ok ++ rest))
    (hts : ∀ t ∈ ts, t.kind ≠ .stop) : Closed rest := by
  induction ts with
  | nil => exact h
  | cons t ts ih =>
      obtain ⟨ht, hts⟩ := List.forall_mem_cons.1 hts
      exact ih (h.tail ht) hts

/-- Closed items begin with a token or with an error. -/
theorem Closed.cases_head {is : List Item} (h : Closed is) :
    (∃ t rest, is = .ok t :: rest) ∨ ∃ e rest, is = .error e :: rest := by
  cases is with
  | nil => exact absurd h not_closed_nil
  | cons i rest =>
      cases i with
      | ok t => exact Or.inl ⟨t, rest, rfl⟩
      | error e => exact Or.inr ⟨e, rest, rfl⟩

/-- The tokens of a line with the end behind them. -/
def lineItems (ts : List Token) (stop : Token) : List Item :=
  ts.map .ok ++ [.ok stop]

theorem closed_lineItems {ts : List Token} {stop : Token} (h : stop.kind = .stop) :
    Closed (lineItems ts stop) :=
  ⟨.ok stop, by simp [lineItems], by simp [Item.closes, Token.isStop, h]⟩

/-- The items are those of one list of tokens, whatever the tokens are. -/
theorem eq_of_lineItems_eq {ts us : List Token} {stop stop' : Token}
    (h : lineItems ts stop = lineItems us stop') : ts = us := by
  have hmap : ts.map (.ok : Token → Item) = us.map .ok := List.append_inj_left' h rfl
  exact (List.map_inj_right fun _ _ hab => Except.ok.inj hab).1 hmap

/-- The end of a line is the first there is, so it cuts the items in one way only. -/
theorem lineItems_cancel {ts us : List Token} {stop stop' : Token} {rest : List Item}
    (hts : ∀ t ∈ ts, t.kind ≠ .stop) (hus : ∀ t ∈ us, t.kind ≠ .stop)
    (hstop' : stop'.kind = .stop) (h : lineItems ts stop = us.map .ok ++ .ok stop' :: rest) :
    ts = us := by
  -- Cut at two different places, the end of one line would be a token of the other.
  induction ts generalizing us with
  | nil =>
      cases us with
      | nil => rfl
      | cons u us => simp [lineItems] at h
  | cons t ts ih =>
      cases us with
      | nil =>
          obtain ⟨rfl, -⟩ : t = stop' ∧ _ := by simpa [lineItems] using h
          exact absurd hstop' (hts t List.mem_cons_self)
      | cons u us =>
          have hts' := (List.forall_mem_cons.1 hts).2
          have hus' := (List.forall_mem_cons.1 hus).2
          obtain ⟨rfl, htail⟩ : t = u ∧ lineItems ts stop = us.map .ok ++ .ok stop' :: rest := by
            simpa [lineItems] using h
          rw [ih hts' hus' htail]

/-! ### Reading all that is delivered -/

section ReadAll

open TokenStream

variable {σ : Type} [FiniteStream σ]

private theorem readAll_ok {s s' : σ} {t : Token} (h : next s = (.ok t, s')) (ht : t.kind ≠ .stop) :
    readAll s = { readAll s' with tokens := t :: (readAll s').tokens } := by
  rw [readAll]
  split
  · rename_i h'
    rw [h] at h'
    cases h'
  · rename_i h'
    rw [h] at h'
    cases h'
    simp [Token.isStop, ht]

private theorem readAll_stop {s s' : σ} {stop : Token} (h : next s = (.ok stop, s'))
    (hstop : stop.kind = .stop) : readAll s = ⟨[stop], none, s'⟩ := by
  rw [readAll]
  split
  · rename_i h'
    rw [h] at h'
    cases h'
  · rename_i h'
    rw [h] at h'
    cases h'
    simp [Token.isStop, hstop]

private theorem readAll_error {s s' : σ} {e : TokenError} (h : next s = (.error e, s')) :
    readAll s = ⟨[], some e, s'⟩ := by
  rw [readAll]
  split
  · rename_i h'
    rw [h] at h'
    cases h'
    rfl
  · rename_i h'
    rw [h] at h'
    cases h'

/-- What is delivered up to the end is what is read. -/
theorem readAll_of_delivers_stop {s m : σ} {ts : List Token} {stop : Token}
    (hts : ∀ t ∈ ts, t.kind ≠ .stop) (hstop : stop.kind = .stop)
    (h : Delivers s (lineItems ts stop) m) : readAll s = ⟨ts ++ [stop], none, m⟩ := by
  induction ts generalizing s with
  | nil =>
      cases h with
      | token hnext _ hrest =>
          cases hrest
          exact readAll_stop hnext hstop
  | cons t ts ih =>
      have hts' := List.forall_mem_cons.1 hts
      cases h with
      | token hnext _ hrest => rw [readAll_ok hnext hts'.1, ih hts'.2 hrest, List.cons_append]

/-- An error that is delivered stops the reading. -/
theorem readAll_of_delivers_error {s m : σ} {ts : List Token} {e : TokenError}
    (hts : ∀ t ∈ ts, t.kind ≠ .stop) (h : Delivers s (ts.map .ok ++ [.error e]) m) :
    readAll s = ⟨ts, some e, m⟩ := by
  induction ts generalizing s with
  | nil =>
      cases h with
      | error hnext hrest =>
          cases hrest
          exact readAll_error hnext
  | cons t ts ih =>
      have hts' := List.forall_mem_cons.1 hts
      cases h with
      | token hnext _ hrest => rw [readAll_ok hnext hts'.1, ih hts'.2 hrest]

end ReadAll

/-! ### Scripts -/

/-- A script delivers what is still to come, so every list of items is delivered by some stream. -/
theorem Script.exists_delivers (s : Script) : ∃ m, Delivers s s.ahead m := by
  generalize hahead : s.ahead = is
  induction is generalizing s with
  | nil => exact ⟨s, .nil s⟩
  | cons i is ih =>
      cases i with
      | ok t =>
          obtain ⟨m, hm⟩ := ih { s with ahead := is, last? := some t } rfl
          have hnext : s.next = (.ok t, { s with ahead := is, last? := some t }) := by
            simp [next, hahead]
          exact ⟨m, .token hnext rfl hm⟩
      | error e =>
          obtain ⟨m, hm⟩ := ih { s with ahead := is } rfl
          have hnext : s.next = (.error e, { s with ahead := is }) := by
            simp [next, hahead]
          exact ⟨m, .error hnext hm⟩

/-! ### Push-back -/

namespace PushBack

variable {σ : Type} [TokenStream σ]

/-- The token was the last to be delivered, and it is not held. -/
structure JustRead (s : PushBack σ) (t : Token) : Prop where
  held : s.held = none
  last : TokenStream.last? s.stream = some t

/-- After any request nothing is held. -/
theorem held_next (s : PushBack σ) : s.next.2.held = none := by
  unfold next
  split
  · rfl
  · next h => exact h

/-- Wrapping a stream changes nothing about what it delivers. -/
theorem delivers_wrap {s s' : σ} {is : List Item} (h : Delivers s is s') :
    Delivers (wrap s) is (wrap s') := by
  induction h with
  | nil => exact .nil _
  | token hnext hlast _ ih =>
      refine .token ?_ hlast ih
      show (wrap _).next = _
      simp [next, wrap, hnext]
  | error hnext _ ih =>
      refine .error ?_ ih
      show (wrap _).next = _
      simp [next, wrap, hnext]

/-- What a wrapped stream delivers is what the stream within delivers. -/
theorem exists_delivers_of_wrap {s : σ} {m : PushBack σ} {is : List Item}
    (h : Delivers (wrap s) is m) : ∃ s', m = wrap s' ∧ Delivers s is s' := by
  have hnext : ∀ {i : Except TokenError Token} {s : σ} {s' : PushBack σ},
      TokenStream.next (wrap s) = (i, s') → ∃ s'', s' = wrap s'' ∧ TokenStream.next s = (i, s'') := by
    intro i s s' hs
    have hs' : ((TokenStream.next s).1, wrap (TokenStream.next s).2) = (i, s') := hs
    cases hs'
    exact ⟨_, rfl, rfl⟩
  induction is generalizing s with
  | nil =>
      cases h
      exact ⟨s, rfl, .nil s⟩
  | cons i is ih =>
      cases h with
      | token hs hlast hrest =>
          obtain ⟨s'', rfl, hwithin⟩ := hnext hs
          obtain ⟨s', rfl, hrest'⟩ := ih hrest
          exact ⟨s', rfl, .token hwithin hlast hrest'⟩
      | error hs hrest =>
          obtain ⟨s'', rfl, hwithin⟩ := hnext hs
          obtain ⟨s', rfl, hrest'⟩ := ih hrest
          exact ⟨s', rfl, .error hwithin hrest'⟩

/-- A token that was just read can be put back, and then lies ahead again. -/
theorem JustRead.putBack {s m : PushBack σ} {t : Token} {is : List Item} (h : s.JustRead t)
    (hd : Delivers s is m) :
    s.putBack = .ok { s with held := some t } ∧
      Delivers { s with held := some t } (.ok t :: is) m := by
  have hnext : TokenStream.next { s with held := some t } = (.ok t, s) := by
    show PushBack.next _ = _
    simp [next, ← h.held]
  exact ⟨by simp [PushBack.putBack, h.held, h.last], .token hnext h.last hd⟩

end PushBack

end Calculator
