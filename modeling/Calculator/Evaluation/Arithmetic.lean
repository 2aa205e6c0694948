/-
The arithmetic of the operations.

Integers are unbounded, so only two operations can fail.  Division drops the
fraction, and its divisor may not be zero.  A power needs an exponent that is not
negative, and one whose result would be too large to build is refused before it is
built: the exponent has to be below `exponentLimit`, and an estimate of the result's
length from below, one bit less than the base has for each unit of the exponent,
may not pass `powerBitLimit`.  The estimate is a product of machine words that
stops at the largest word.  Zero, one and minus one have small powers whatever the
exponent, and are never refused.
-/
import Calculator.Operation
import Calculator.Text.Decimal

namespace Calculator

/-- Why an operation has no value.  An exponent is given by its numeral. -/
inductive ArithmeticError where
  | divisionByZero
  | negativeExponent (exponent : String)
  | hugeExponent (exponent : String)
  /-- The power would be too long; `bits` is the length of its base. -/
  | hugeResult (bits : Nat) (exponent : String)
deriving DecidableEq

/-- The wording of an arithmetic error. -/
def ArithmeticError.message : ArithmeticError → String
  | divisionByZero => "division by zero"
  | negativeExponent exponent => "negative exponent " ++ exponent
  | hugeExponent exponent => "exponent " ++ exponent ++ " is too large"
  | hugeResult bits exponent =>
    "result of raising a " ++ bits.repr ++ "-bit number to the power " ++ exponent
      ++ " is too large"

/-! ### Powers -/

/-- No exponent of a large base reaches it. -/
def exponentLimit : Int :=
  Int.pow 2 32

/-- The longest result that is allowed, in bits. -/
def powerBitLimit : Nat :=
  Nat.pow 2 31 - 1

/-- The largest machine word. -/
def maxWord : Nat :=
  Nat.pow 2 64 - 1

/-- A product of machine words that stops at the largest one. -/
def saturatingMul (a b : Nat) : Nat :=
  min (a * b) maxWord

/-- The number of binary digits; zero has none. -/
def bitLength (n : Nat) : Nat :=
  if n = 0 then 0 else n.log2 + 1

/-- An exponent as a count of factors. -/
def factorCount (exponent : Int) : Except ArithmeticError Nat :=
  if exponent < 0 then .error (.negativeExponent (Decimal.render exponent))
  else if exponentLimit ≤ exponent then .error (.hugeExponent (Decimal.render exponent))
  else .ok exponent.toNat

/-- A power of zero, one or minus one, for an exponent that is not negative. -/
def smallPower (base exponent : Int) : Int :=
  if base = 0 then if exponent = 0 then 1 else 0
  else if base < 0 ∧ exponent % 2 = 1 then -1
  else 1

/-- A power of any other base. -/
def largePower (base exponent : Int) : Except ArithmeticError Int := do
  let count ← factorCount exponent
  let bits := bitLength base.natAbs
  if powerBitLimit < saturatingMul (bits - 1) count then
    .error (.hugeResult bits (Decimal.render exponent))
  else
    return base.pow count

/-- Raises a base to an exponent. -/
def raise (base exponent : Int) : Except ArithmeticError Int :=
  if exponent < 0 then .error (.negativeExponent (Decimal.render exponent))
  else if base.natAbs ≤ 1 then .ok (smallPower base exponent)
  else largePower base exponent

/-! ### The operations -/

/-- A binary operation on two integers. -/
def BinaryOp.apply (op : BinaryOp) (left right : Int) : Except ArithmeticError Int :=
  match op with
  | .add => .ok (left + right)
  | .sub => .ok (left - right)
  | .mul => .ok (left * right)
  | .div => if right = 0 then .error .divisionByZero else .ok (left.tdiv right)
  | .pow => raise left right

/-- A unary operation on an integer. -/
def UnaryOp.apply (op : UnaryOp) (operand : Int) : Int :=
  match op with
  | .neg => -operand
  | .pos => operand

end Calculator
