/-
The symbols that stand for operations in a line.

A lexicon lists the symbols of the binary and of the unary operations.  It answers
the two questions that cutting a line into tokens asks: whether a character can be
part of a symbol, and whether a run of such characters is one.  Nothing is asked of
the symbols here: a lexicon may hold letters, blanks or nothing at all.

Whether a symbol could ever be cut out of a line is another question,
`isLexable`.  Letters and digits go to names and numbers, blanks are skipped, and
three characters have a meaning of their own.
-/
import Calculator.Text.Class

namespace Calculator

/-- The operation symbols of a line. -/
structure Lexicon where
  /-- The symbols of the binary operations, in the order of the table. -/
  binary : List String
  /-- The symbols of the unary operations, in the order of the table. -/
  unary : List String
deriving DecidableEq

namespace Lexicon

/-- All symbols. -/
def symbols (v : Lexicon) : List String :=
  v.binary ++ v.unary

/-- A text is a symbol. -/
def isSymbol (v : Lexicon) (text : String) : Bool :=
  decide (text ∈ v.symbols)

/-- A character occurs in some symbol. -/
def isSymbolChar (v : Lexicon) (c : Char) : Bool :=
  v.symbols.any fun s => decide (c ∈ s.toList)

theorem isSymbol_iff {v : Lexicon} {text : String} :
    v.isSymbol text = true ↔ text ∈ v.symbols := by
  simp [isSymbol]

theorem isSymbolChar_iff {v : Lexicon} {c : Char} :
    v.isSymbolChar c = true ↔ ∃ s ∈ v.symbols, c ∈ s.toList := by
  simp [isSymbolChar]

end Lexicon

/-- The characters that mean something by themselves. -/
def punctuation : List Char := ['(', ')', '=']

/-- A character that an operation symbol may hold. -/
def isSymbolicChar (c : Char) : Bool :=
  !c.isAlphanum && !Text.isBlank c && !Text.isControl c && !decide (c ∈ punctuation)

/-- A symbol that can be cut out of a line: not empty, and nothing but symbolic characters. -/
def isLexable (symbol : String) : Bool :=
  !symbol.toList.isEmpty && symbol.toList.all isSymbolicChar

end Calculator
