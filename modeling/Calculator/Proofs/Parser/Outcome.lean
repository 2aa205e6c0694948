/-
What a parser gives, success or failure.

To say which lines are refused and why, one has to know that the parser gives a step
and what its answer is.  `Gives` is about both: the parser gives a step, and its answer
and the stream behind it satisfy a condition.

There is one rule for each way to build a parser.  The rule for a token is
stated for the two things a stream can deliver, because whatever is put together
with it looks at the token at once.  A condition that has to hold after a failure
is a condition on the error and the stream, and `bind` hands it on unchanged.
-/
import Calculator.Parser.Basic
import Calculator.Proofs.Token.Delivery

namespace Calculator

namespace Parser

variable {σ α β : Type}

/-- The parser gives a step on the stream, and the condition holds of its answer and the stream
afterwards. -/
def Gives (r : Parser σ α) (s : PushBack σ) (Q : Except ReadError α → PushBack σ → Prop) : Prop :=
  ∃ step, r s = some step ∧ Q step.answer step.tokens

theorem Gives.mono {r : Parser σ α} {s : PushBack σ}
    {Q R : Except ReadError α → PushBack σ → Prop} (h : r.Gives s Q)
    (hQR : ∀ x s', Q x s' → R x s') : r.Gives s R := by
  obtain ⟨step, hstep, hQ⟩ := h
  exact ⟨step, hstep, hQR _ _ hQ⟩

theorem gives_pure {a : α} {s : PushBack σ} {Q : Except ReadError α → PushBack σ → Prop}
    (h : Q (.ok a) s) : (Pure.pure a : Parser σ α).Gives s Q :=
  ⟨_, rfl, h⟩

theorem gives_fail {e : ReadError} {s : PushBack σ} {Q : Except ReadError α → PushBack σ → Prop}
    (h : Q (.error e) s) : (fail e : Parser σ α).Gives s Q :=
  ⟨_, rfl, h⟩

theorem gives_bind {r : Parser σ α} {next : α → Parser σ β} {s : PushBack σ}
    {Q : Except ReadError α → PushBack σ → Prop} {R : Except ReadError β → PushBack σ → Prop}
    (h : r.Gives s Q) (hok : ∀ a s', Q (.ok a) s' → (next a).Gives s' R)
    (herr : ∀ e s', Q (.error e) s' → R (.error e) s') : (r >>= next).Gives s R := by
  obtain ⟨⟨answer, s', events⟩, hstep, hQ⟩ := h
  cases answer with
  | error e => exact ⟨_, bind_of_error hstep, herr e s' hQ⟩
  | ok a =>
      obtain ⟨step, hstep', hR⟩ := hok a s' hQ
      exact ⟨_, bind_of_ok hstep hstep', hR⟩

/-- An event is no concern of what follows it. -/
theorem gives_emit_bind {event : Event} {next : Unit → Parser σ β} {s : PushBack σ}
    {R : Except ReadError β → PushBack σ → Prop} (h : (next ()).Gives s R) :
    (emit event >>= next).Gives s R := by
  refine gives_bind (Q := fun x s' => s' = s ∧ ∃ u, x = .ok u) ⟨_, rfl, rfl, (), rfl⟩ ?_ ?_
  · rintro u s' ⟨rfl, -⟩
    exact h
  · rintro e s' ⟨-, u, hu⟩
    cases hu

/-- What the operator table answers is handed on, be it an answer or a fault. -/
theorem gives_ofTable_bind {x : Except TableError α} {next : α → Parser σ β} {s : PushBack σ}
    {R : Except ReadError β → PushBack σ → Prop} (hok : ∀ a, x = .ok a → (next a).Gives s R)
    (herr : ∀ e, x = .error e → R (.error (.table e)) s) : (ofTable x >>= next).Gives s R := by
  cases x with
  | ok a =>
      refine gives_bind (Q := fun y s' => y = .ok a ∧ s' = s) ⟨_, rfl, rfl, rfl⟩ ?_ ?_
      · rintro b s' ⟨hb, rfl⟩
        cases hb
        exact hok a rfl
      · rintro e s' ⟨he, -⟩
        cases he
  | error e =>
      exact gives_bind (Q := fun y s' => y = .error (.table e) ∧ s' = s) ⟨_, rfl, rfl, rfl⟩
        (fun b s' ⟨hb, _⟩ => by cases hb) (fun e' s' ⟨he, hs⟩ => by cases he; exact hs ▸ herr e rfl)

variable [TokenStream σ]

/-- A token that lies ahead is read. -/
theorem gives_token_bind {next : Token → Parser σ β} {s m : PushBack σ} {t : Token}
    {is : List Item} {R : Except ReadError β → PushBack σ → Prop} (h : Delivers s (.ok t :: is) m)
    (hnext : ∀ s', s'.JustRead t → Delivers s' is m → (next t).Gives s' R) :
    (token >>= next).Gives s R := by
  cases h with
  | @token _ s' _ _ _ hn hlast hrest =>
      have hn' : s.next = (.ok t, s') := hn
      have hheld : s'.held = none := by
        have := s.held_next
        rwa [hn'] at this
      refine gives_bind (Q := fun x s'' => x = .ok t ∧ s'' = s') ?_ ?_ ?_
      · exact ⟨⟨.ok t, s', []⟩, by simp only [token, hn'], rfl, rfl⟩
      · rintro a s'' ⟨ha, rfl⟩
        cases ha
        exact hnext _ ⟨hheld, hlast⟩ hrest
      · rintro e s'' ⟨he, -⟩
        cases he

/-- An error that lies ahead ends the parser. -/
theorem gives_token_bind_error {next : Token → Parser σ β} {s m : PushBack σ} {e : TokenError}
    {is : List Item} {R : Except ReadError β → PushBack σ → Prop}
    (h : Delivers s (.error e :: is) m)
    (hR : ∀ s', s'.held = none → Delivers s' is m → R (.error (.token e)) s') :
    (token >>= next).Gives s R := by
  cases h with
  | @error _ s' _ _ _ hn hrest =>
      have hn' : s.next = (.error e, s') := hn
      have hheld : s'.held = none := by
        have := s.held_next
        rwa [hn'] at this
      refine gives_bind (Q := fun x s'' => x = .error (.token e) ∧ s'' = s') ?_ ?_ ?_
      · exact ⟨⟨.error (.token e), s', []⟩, by simp only [token, hn'], rfl, rfl⟩
      · rintro a s'' ⟨ha, -⟩
        cases ha
      · rintro e' s'' ⟨he, rfl⟩
        cases he
        exact hR _ hheld hrest

/-- The token that was just read is put back, and lies ahead again. -/
theorem gives_putBack_bind {next : Unit → Parser σ β} {s m : PushBack σ} {t : Token}
    {is : List Item} {R : Except ReadError β → PushBack σ → Prop} (hread : s.JustRead t)
    (h : Delivers s is m)
    (hnext : ∀ s', Delivers s' (.ok t :: is) m → (next ()).Gives s' R) :
    (putBack >>= next).Gives s R := by
  obtain ⟨hput, hd⟩ := hread.putBack h
  refine gives_bind (Q := fun x s' => x = .ok () ∧ s' = { s with held := some t }) ?_ ?_ ?_
  · exact ⟨⟨.ok (), { s with held := some t }, []⟩, by simp only [putBack, hput], rfl, rfl⟩
  · rintro u s' ⟨-, rfl⟩
    exact hnext _ hd
  · rintro e s' ⟨he, -⟩
    cases he

end Parser

end Calculator
