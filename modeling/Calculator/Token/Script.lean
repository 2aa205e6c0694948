/-
A fixed sequence of tokens.

A script delivers the items it was given, tokens and errors, in their order, one at
each request.  An error leaves the last token as it was.  After the last item there
is nothing but the error that the input has ended.  A reset starts over at the first
item, whatever the text.
-/
import Calculator.Token.Stream

namespace Calculator

/-- A sequence of tokens and errors, and the place reached in it. -/
structure Script where
  /-- The whole sequence. -/
  items : List (Except TokenError Token)
  /-- What is still to come. -/
  ahead : List (Except TokenError Token)
  /-- The token delivered last. -/
  last? : Option Token

namespace Script

/-- A script at its beginning. -/
def new (items : List (Except TokenError Token)) : Script where
  items := items
  ahead := items
  last? := none

/-- The next item. -/
def next (s : Script) : Except TokenError Token × Script :=
  match s.ahead with
  | [] => (.error (.afterEnd ""), s)
  | .error e :: ahead => (.error e, { s with ahead })
  | .ok t :: ahead => (.ok t, { s with ahead, last? := some t })

theorem remaining_lt {s s' : Script} {t : Token} (h : s.next = (.ok t, s')) :
    s'.ahead.length < s.ahead.length := by
  unfold next at h
  split at h
  · cases h
  · cases h
  · next u ahead hs =>
    obtain ⟨rfl, rfl⟩ := h
    simp [hs]

end Script

instance : FiniteStream Script where
  next := Script.next
  last? := Script.last?
  reset _ s := Script.new s.items
  remaining s := s.ahead.length
  remaining_lt := Script.remaining_lt

end Calculator
