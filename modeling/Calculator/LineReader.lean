/-
Reading one line after the other.

A line reader is a grammar and a stream of tokens.  It reads one line at a time and
keeps the stream as the line left it: after a reset it begins a new line, without one
it goes on.  For a finite stream `readLine` always answers, on the budget that is
known to be enough; for any other there is only `readLine?`, on a budget that is given.
-/
import Calculator.Parser.Line
import Calculator.Table.Draft
import Calculator.Token.Scanner

namespace Calculator

/-- A reader of lines. -/
structure LineReader (σ : Type) where
  grammar : Grammar
  tokens : PushBack σ

namespace LineReader

variable {σ : Type}

/-- What reading a line gives. -/
structure Outcome (σ : Type) where
  /-- The tree of the line, none if it is empty, or what is wrong with it. -/
  answer : Except ReadError (Option Tree)
  /-- The reader behind the line. -/
  reader : LineReader σ
  /-- What happened, in order. -/
  events : List Event

/-- A reader of the tokens of a stream. -/
def ofStream (grammar : Grammar) (stream : σ) : LineReader σ where
  grammar := grammar
  tokens := .wrap stream

/-- The reader of an operator table, at an empty line. -/
def ofTable (table : Table) : LineReader Scanner :=
  ofStream table.grammar (.new table.lexicon)

/-- The reader at the beginning of a line. -/
def reset [TokenStream σ] (text : String) (r : LineReader σ) : LineReader σ :=
  { r with tokens := r.tokens.reset text }

/-- Reads a line on a given budget. -/
def readLine? [TokenStream σ] (fuel : Nat) (r : LineReader σ) : Option (Outcome σ) :=
  (Parser.line r.grammar fuel r.tokens).map fun step =>
    { answer := step.answer
      reader := { r with tokens := step.tokens }
      events := step.events }

variable [FiniteStream σ]

/-- The budget of a line. -/
def budget (r : LineReader σ) : Nat :=
  r.grammar.budget r.tokens.remaining

theorem isSome_readLine? (r : LineReader σ) {fuel : Nat} (h : r.budget ≤ fuel) :
    (r.readLine? fuel).isSome = true := by
  simpa [readLine?] using Parser.isSome_line Parser.measure_remaining rfl h

/-- Reads a line. -/
def readLine (r : LineReader σ) : Outcome σ :=
  (r.readLine? r.budget).get (isSome_readLine? r (Nat.le_refl _))

theorem readLine?_budget (r : LineReader σ) : r.readLine? r.budget = some r.readLine := by
  simp [readLine]

end LineReader

end Calculator
