/-
Failures as a user meets them.

Each stage has its own errors, and some pass on those of an earlier stage.  A
`Failure` sorts them by where they came from: an error that only passes another one on
becomes a failure of that other one's sort.  Most failures say that the line is wrong.
The rest are internal: they say that the table, the tree or the program is.
-/
import Calculator.Evaluation.Value
import Calculator.Parser.Error

namespace Calculator

/-- Anything that can go wrong with a line. -/
inductive Failure where
  | table (e : TableError)
  | token (e : TokenError)
  | reading (e : ReadError)
  | shape (e : ShapeError)
  | value (e : ValueError)
deriving DecidableEq

/-- The broad sorts of failure. -/
inductive FailureSort where
  /-- The operator table is wrong. -/
  | configuration
  /-- The line cannot be cut into tokens. -/
  | lexical
  /-- The tokens are not those of a line. -/
  | grammatical
  /-- A tree lacks a part. -/
  | structural
  /-- A tree has no value. -/
  | evaluation
deriving DecidableEq

namespace Failure

/-- The failure to read a line, or what its error passes on. -/
def ofReading : ReadError → Failure
  | .token e => .token e
  | .table e => .table e
  | e => .reading e

/-- The failure to evaluate a tree, or what its error passes on. -/
def ofValue : ValueError → Failure
  | .shape e => .shape e
  | e => .value e

/-- The wording of a failure. -/
def message : Failure → String
  | table e => e.message
  | token e => e.message
  | reading e => e.message
  | shape e => e.message
  | value e => e.message

/-- What lies behind a failure, if it does not say it itself. -/
def cause? : Failure → Option String
  | value e => e.cause?
  | table _ | token _ | reading _ | shape _ => none

/-- The sort of a failure. -/
def sort : Failure → FailureSort
  | table _ => .configuration
  | token _ => .lexical
  | reading _ => .grammatical
  | shape _ => .structural
  | value _ => .evaluation

/-- The failure is no fault of the line. -/
def isInternal : Failure → Bool
  | table _ | shape _ => true
  | token .nothingRead | token .cannotPutBack => true
  | value (.notEvaluable _) | value (.notDigits _) => true
  | token _ | reading _ | value _ => false

end Failure

end Calculator
