/-
Parsers of tokens.

A parser takes a stream of tokens and gives a step: an answer or an error, the
stream as it then stands, and the events on the way.  The stream is part of the step
also when parsing fails, because the next line may go on from there.  A parser that
recurses does so on a budget, and gives no step at all when the budget is too small.

Parsers are put together by `bind`, which stops at the first error and joins the
events.  Where a step of it comes from is `bind_cases`, and that it gives one is known
as soon as each of its parts does, the second one only on what the first `Returns`.
-/
import Calculator.Event
import Calculator.Parser.Error
import Calculator.Token.PushBack

namespace Calculator

/-- What a parser gives. -/
structure Step (σ α : Type) where
  answer : Except ReadError α
  /-- The stream afterwards. -/
  tokens : PushBack σ
  /-- What happened, in order. -/
  events : List Event

/-- A parser of tokens. -/
def Parser (σ α : Type) : Type :=
  PushBack σ → Option (Step σ α)

namespace Parser

variable {σ α β : Type}

/-! ### Putting parsers together -/

/-- Reads nothing. -/
protected def pure (a : α) : Parser σ α :=
  fun s => some ⟨.ok a, s, []⟩

/-- Reads on from where the first parser ended, unless that failed. -/
protected def bind (r : Parser σ α) (next : α → Parser σ β) : Parser σ β := fun s =>
  match r s with
  | none => none
  | some ⟨.error e, s', events⟩ => some ⟨.error e, s', events⟩
  | some ⟨.ok a, s', events⟩ =>
    match next a s' with
    | none => none
    | some step => some { step with events := events ++ step.events }

instance : Monad (Parser σ) where
  pure := Parser.pure
  bind := Parser.bind

/-! ### The parsers all others are made of -/

/-- No step: the budget is used up. -/
def exhausted : Parser σ α :=
  fun _ => none

/-- An error at this place. -/
def fail (e : ReadError) : Parser σ α :=
  fun s => some ⟨.error e, s, []⟩

/-- An event at this place. -/
def emit (event : Event) : Parser σ Unit :=
  fun s => some ⟨.ok (), s, [event]⟩

/-- The answer of the operator table. -/
def ofTable : Except TableError α → Parser σ α
  | .ok a => pure a
  | .error e => fail (.table e)

/-- The next token. -/
def token [TokenStream σ] : Parser σ Token := fun s =>
  match s.next with
  | (.ok t, s') => some ⟨.ok t, s', []⟩
  | (.error e, s') => some ⟨.error (.token e), s', []⟩

/-- Puts the last token back. -/
def putBack [TokenStream σ] : Parser σ Unit := fun s =>
  match s.putBack with
  | .ok s' => some ⟨.ok (), s', []⟩
  | .error e => some ⟨.error (.token e), s, []⟩

/-! ### Steps -/

/-- The parser succeeds on the stream, with this answer and this stream afterwards. -/
def Returns (r : Parser σ α) (p : PushBack σ) (a : α) (p' : PushBack σ) : Prop :=
  ∃ events, r p = some ⟨.ok a, p', events⟩

/-- An error of the first parser is one of both. -/
theorem bind_of_error {r : Parser σ α} {next : α → Parser σ β} {p p' : PushBack σ} {e : ReadError}
    {events : List Event} (h : r p = some ⟨.error e, p', events⟩) :
    (r >>= next) p = some ⟨.error e, p', events⟩ := by
  show Parser.bind r next p = _
  rw [Parser.bind, h]

/-- Behind a success comes the step of the second parser. -/
theorem bind_of_ok {r : Parser σ α} {next : α → Parser σ β} {p p' : PushBack σ} {a : α}
    {events : List Event} {later : Step σ β} (h : r p = some ⟨.ok a, p', events⟩)
    (hlater : next a p' = some later) :
    (r >>= next) p = some { later with events := events ++ later.events } := by
  show Parser.bind r next p = _
  rw [Parser.bind, h]
  simp only [hlater]

/-- Where a step of `bind` comes from: the first parser failed with it, or succeeded and handed over
to the second. -/
theorem bind_cases {r : Parser σ α} {next : α → Parser σ β} {p : PushBack σ} {step : Step σ β}
    (h : (r >>= next) p = some step) :
    (∃ e, step.answer = .error e ∧ r p = some ⟨.error e, step.tokens, step.events⟩) ∨
      ∃ a p' events later, r p = some ⟨.ok a, p', events⟩ ∧ next a p' = some later ∧
        step = { later with events := events ++ later.events } := by
  have hb : Parser.bind r next p = some step := h
  unfold Parser.bind at hb
  split at hb
  · cases hb
  · rename_i e p' events hfirst
    cases hb
    exact Or.inl ⟨e, rfl, hfirst⟩
  · rename_i a p' events hfirst
    split at hb
    · cases hb
    · rename_i later hlater
      cases hb
      exact Or.inr ⟨a, p', events, later, hfirst, hlater, rfl⟩

/-! ### Parsers that give a step -/

variable {p : PushBack σ}

theorem isSome_pure (a : α) : ((Pure.pure a : Parser σ α) p).isSome = true :=
  rfl

theorem isSome_fail (e : ReadError) : ((fail e : Parser σ α) p).isSome = true :=
  rfl

theorem isSome_bind {r : Parser σ α} {next : α → Parser σ β} (h : (r p).isSome = true)
    (hnext : ∀ a p', r.Returns p a p' → (next a p').isSome = true) :
    ((r >>= next) p).isSome = true := by
  obtain ⟨⟨answer, p', events⟩, hstep⟩ := Option.isSome_iff_exists.1 h
  cases answer with
  | error e => rw [bind_of_error hstep, Option.isSome_some]
  | ok a =>
      obtain ⟨later, hlater⟩ := Option.isSome_iff_exists.1 (hnext a p' ⟨events, hstep⟩)
      rw [bind_of_ok hstep hlater, Option.isSome_some]

theorem isSome_emit_bind {event : Event} {next : Unit → Parser σ β}
    (h : (next () p).isSome = true) : ((emit event >>= next) p).isSome = true := by
  refine isSome_bind rfl ?_
  rintro _ p' ⟨events, hstep⟩
  cases hstep
  exact h

theorem isSome_ofTable_bind {x : Except TableError α} {next : α → Parser σ β}
    (h : ∀ a, x = .ok a → (next a p).isSome = true) : ((ofTable x >>= next) p).isSome = true := by
  cases x with
  | error e => exact isSome_bind rfl (by rintro _ _ ⟨events, hstep⟩; cases hstep)
  | ok a =>
      refine isSome_bind rfl ?_
      rintro b p' ⟨events, hstep⟩
      cases hstep
      exact h a rfl

variable [TokenStream σ]

theorem isSome_token : ((token : Parser σ Token) p).isSome = true := by
  unfold token
  split <;> rfl

theorem isSome_putBack : ((putBack : Parser σ Unit) p).isSome = true := by
  unfold putBack
  split <;> rfl

end Parser

end Calculator
