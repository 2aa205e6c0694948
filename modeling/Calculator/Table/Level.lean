/-
Precedence levels.

A level is a set of binary operations that bind equally tightly, and the way a run
of them is grouped.  The set is its membership test, so two levels with the same
operations are the same level, in whatever order and however often these were
listed.
-/
import Calculator.Operation

namespace Calculator

/-- How a run of operators of one level is grouped. -/
inductive Associativity where
  /-- From the left: a run begins with its first pair. -/
  | left
  /-- From the right: a run begins with its last pair. -/
  | right
deriving DecidableEq

/-- The word for an associativity. -/
def Associativity.name : Associativity → String
  | left => "left"
  | right => "right"

/-- The binary operations of one precedence, and how they are grouped. -/
structure Level where
  /-- Membership. -/
  has : BinaryOp → Bool
  associativity : Associativity
deriving DecidableEq

/-- The level of the operations in a list. -/
def Level.ofList (ops : List BinaryOp) (associativity : Associativity) : Level where
  has op := decide (op ∈ ops)
  associativity := associativity

end Calculator
