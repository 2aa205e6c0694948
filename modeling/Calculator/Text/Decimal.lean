/-
Integers in decimal.

The digits of a line are read by `Decimal.value`, an integer is written by
`Decimal.render`, and an integer that a user gives outside a line is read by
`Decimal.parse?`, which also takes a sign and underscores between the digits.
-/

namespace Calculator.Decimal

/-- A numeral is digits alone, at least one. -/
def isNumeral (s : String) : Bool :=
  !s.toList.isEmpty && s.toList.all Char.isDigit

/-- The number that digits write. -/
def value (digits : List Char) : Nat :=
  Nat.ofDigitChars 10 digits 0

/-- An integer in decimal: the digits of its magnitude, after a minus sign if it is negative. -/
def render : Int → String
  | .ofNat n => n.repr
  | .negSucc n => "-" ++ (n + 1).repr

/-- Digits with underscores anywhere after the first digit. -/
def magnitude? : List Char → Option Nat
  | [] => none
  | c :: r =>
    if c.isDigit && r.all (fun d => d.isDigit || d == '_') then
      some (value (c :: r.filter Char.isDigit))
    else none

/-- An integer with an optional sign. -/
def parse? : List Char → Option Int
  | '-' :: r => (magnitude? r).map fun n => -(n : Int)
  | '+' :: r => (magnitude? r).map Int.ofNat
  | cs => (magnitude? cs).map Int.ofNat

/-! ### The digits of a number -/

/-- The digits of a number write it. -/
theorem value_toDigits (n : Nat) : value (Nat.toDigits 10 n) = n := by
  simp [value]

theorem isDigit_of_mem_toDigits {n : Nat} {c : Char} (h : c ∈ Nat.toDigits 10 n) :
    c.isDigit = true :=
  Nat.isDigit_of_mem_toDigits (by decide) (Nat.le_refl 10) h

end Calculator.Decimal
