/-
Where tokens come from.

A stream delivers one token at a time and remembers the last one.  Everything that
reads tokens is written for any stream: the tokens of a line, a fixed sequence of
them, or another stream with room for a token to come again.

A stream is finite if it can deliver only so many tokens before it fails.  `remaining`
bounds them.  It is what makes reading come to an end, here for
`readAll` and later for a whole line.
-/
import Calculator.Token.Basic

namespace Calculator

/-- Something that delivers tokens. -/
class TokenStream (σ : Type) where
  /-- Asks for the next token; the stream moves on whether it delivers one or fails. -/
  next : σ → Except TokenError Token × σ
  /-- The token delivered last, if any since the last reset. -/
  last? : σ → Option Token
  /-- Starts over on a text. -/
  reset : String → σ → σ

/-- A stream that delivers finitely many tokens before it fails. -/
class FiniteStream (σ : Type) extends TokenStream σ where
  /-- A bound on the tokens it delivers before it fails. -/
  remaining : σ → Nat
  /-- Each token delivered uses it up. -/
  remaining_lt : ∀ {s s' : σ} {t : Token}, next s = (.ok t, s') → remaining s' < remaining s

namespace TokenStream

variable {σ : Type}

/-- The token delivered last, or the error that there is none. -/
def last [TokenStream σ] (s : σ) : Except TokenError Token :=
  match last? s with
  | some t => .ok t
  | none => .error .nothingRead

/-- What reading a stream to its end gives: the tokens, the error that stopped it if one did, and
the stream behind them. -/
structure Reading (σ : Type) where
  tokens : List Token
  error? : Option TokenError
  stream : σ

/-- Reads up to and including the end of the line, or up to the first error. -/
def readAll [FiniteStream σ] (s : σ) : Reading σ :=
  match h : next s with
  | (.error e, s') => ⟨[], some e, s'⟩
  | (.ok t, s') =>
    if t.isStop then ⟨[t], none, s'⟩
    else
      have : FiniteStream.remaining s' < FiniteStream.remaining s := FiniteStream.remaining_lt h
      let later := readAll s'
      { later with tokens := t :: later.tokens }
termination_by FiniteStream.remaining s

end TokenStream

end Calculator
