/-
One token of push-back.

Reading an expression has to look at the token behind it, and then hand that token
on.  A `PushBack` wraps a stream so that the last token delivered can be put back
and comes again, without the stream being asked.  Only one token can be held, and
only one that the stream delivered; anything else is an error, which changes nothing.

The wrapper is a stream itself, so it can be wrapped again.  The last token is
always the one of the stream within.
-/
import Calculator.Token.Stream

namespace Calculator

/-- A stream with room for one token to come again. -/
structure PushBack (σ : Type) where
  stream : σ
  /-- The token that comes again. -/
  held : Option Token
deriving DecidableEq

namespace PushBack

variable {σ : Type}

/-- A stream with nothing put back. -/
def wrap (stream : σ) : PushBack σ where
  stream := stream
  held := none

/-- Without a token that is held, there is only the stream. -/
theorem eq_wrap_of_held {s : PushBack σ} (h : s.held = none) : s = wrap s.stream := by
  obtain ⟨stream, held⟩ := s
  cases h
  rfl

/-- A token is held to be delivered again. -/
def isHolding (s : PushBack σ) : Bool :=
  s.held.isSome

/-- The token that is held if there is one, else the next of the stream. -/
def next [TokenStream σ] (s : PushBack σ) : Except TokenError Token × PushBack σ :=
  match s.held with
  | some t => (.ok t, { s with held := none })
  | none => ((TokenStream.next s.stream).1, { s with stream := (TokenStream.next s.stream).2 })

/-- Puts the last token back, unless one is held already or none was delivered. -/
def putBack [TokenStream σ] (s : PushBack σ) : Except TokenError (PushBack σ) :=
  match s.held, TokenStream.last? s.stream with
  | none, some t => .ok { s with held := some t }
  | _, _ => .error .cannotPutBack

/-- Starts over on a text, with nothing held. -/
def reset [TokenStream σ] (text : String) (s : PushBack σ) : PushBack σ where
  stream := TokenStream.reset text s.stream
  held := none

instance [TokenStream σ] : TokenStream (PushBack σ) where
  next := next
  last? s := TokenStream.last? s.stream
  reset := reset

/-- A bound on the tokens to come: those of the stream and the one that is held. -/
def remaining [FiniteStream σ] (s : PushBack σ) : Nat :=
  FiniteStream.remaining s.stream + s.held.toList.length

theorem remaining_lt [FiniteStream σ] {s s' : PushBack σ} {t : Token} (h : s.next = (.ok t, s')) :
    s'.remaining < s.remaining := by
  unfold next at h
  split at h
  · next u hp =>
    obtain ⟨rfl, rfl⟩ := h
    simp [remaining, hp]
  · next hp =>
    obtain ⟨hok, rfl⟩ := Prod.mk.injEq .. ▸ h
    have := FiniteStream.remaining_lt (Prod.ext hok rfl : TokenStream.next s.stream = (.ok t, _))
    simpa [remaining, hp] using this

/-- A token that is put back counts again. -/
theorem remaining_of_putBack [FiniteStream σ] {s s' : PushBack σ} (h : s.putBack = .ok s') :
    s'.remaining = s.remaining + 1 := by
  unfold putBack at h
  split at h
  · next t hp _ =>
    cases h
    simp [remaining, hp]
  · cases h

instance [FiniteStream σ] : FiniteStream (PushBack σ) where
  remaining := remaining
  remaining_lt := remaining_lt

end PushBack

end Calculator
