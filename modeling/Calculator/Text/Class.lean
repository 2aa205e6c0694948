/-
The classes of characters that the calculator tells apart.

Numbers and names are spelled in ASCII alone, so core's `Char.isDigit`, `Char.isAlpha`
and `Char.isAlphanum`, which know nothing else, are exactly the classes wanted.
Two further classes are Unicode properties and are listed here: the blanks
(property White_Space, 25 characters) and the controls (general category Cc).
An operation symbol may hold neither, and the command line trims the former.
-/

namespace Calculator.Text

/-- The characters with the property White_Space, as ranges of code points. -/
def blankRanges : List (Nat × Nat) :=
  [(0x09, 0x0D), (0x20, 0x20), (0x85, 0x85), (0xA0, 0xA0), (0x1680, 0x1680),
   (0x2000, 0x200A), (0x2028, 0x2029), (0x202F, 0x202F), (0x205F, 0x205F), (0x3000, 0x3000)]

/-- A blank has the property White_Space. -/
def isBlank (c : Char) : Bool :=
  blankRanges.any fun r => r.1 ≤ c.toNat && c.toNat ≤ r.2

/-- A control has the general category Cc. -/
def isControl (c : Char) : Bool :=
  c.toNat ≤ 0x1F || (0x7F ≤ c.toNat && c.toNat ≤ 0x9F)

/-- Text without the blanks at its two ends. -/
def trim (cs : List Char) : List Char :=
  ((cs.dropWhile isBlank).reverse.dropWhile isBlank).reverse

end Calculator.Text
