/-
Internal failures as developers see them.

A failure that is no fault of the line is reported in full: what it is, from the
outside in, and its fields with their values.  Texts stand in quotes, and whatever
would not be seen there is written by its number.  Of the characters beyond ASCII that
is done for control characters alone, as the symbols of the standard table, digits and
names hold no others.

A failure that is the line's own fault is reported by its wording instead.
-/
import Calculator.Failure
import Calculator.Text.Class

namespace Calculator

namespace Inspection

/-- A character as it stands in quotes. -/
def escape : Char → List Char
  | '\\' => ['\\', '\\']
  | '"' => ['\\', '"']
  | '\n' => ['\\', 'n']
  | '\r' => ['\\', 'r']
  | '\t' => ['\\', 't']
  | '\x00' => ['\\', '0']
  | c =>
    if Text.isControl c then ['\\', 'u', '{'] ++ Nat.toDigits 16 c.toNat ++ ['}']
    else [c]

/-- A text in quotes. -/
def quote (text : String) : String :=
  String.ofList ('"' :: text.toList.flatMap escape ++ ['"'])

/-- One thing within another. -/
def within (outer inner : String) : String :=
  outer ++ "(" ++ inner ++ ")"

/-- A thing with its fields. -/
def record (name : String) (fields : List (String × String)) : String :=
  let written := fields.map fun field => field.1 ++ ": " ++ field.2
  name ++ " \x7b " ++ ", ".intercalate written ++ " \x7d"

end Inspection

open Inspection

/-- A binary operation in full. -/
def BinaryOp.inspect : BinaryOp → String
  | .add => "Plus"
  | .sub => "Minus"
  | .mul => "Mult"
  | .div => "Div"
  | .pow => "Power"

/-- A unary operation in full. -/
def UnaryOp.inspect : UnaryOp → String
  | .neg => "Minus"
  | .pos => "Plus"

/-- A tag in full. -/
def Tag.inspect : Tag → String
  | number => within "Operand" "Number"
  | var => within "Operand" "Variable"
  | unary op => within "Unary" op.inspect
  | binary op => within "Binary" op.inspect
  | define => "Assign"

/-- A position in full. -/
def Position.inspect : Position → String
  | first => "First"
  | second => "Second"

/-- A fault of an operator table in full. -/
def TableError.inspect : TableError → String
  | noBinaryOp symbol => record "NoBinaryOperation" [("repr", quote symbol)]
  | noUnaryOp symbol => record "NoUnaryOperation" [("repr", quote symbol)]
  | noUnaryPriority symbol => record "NoUnaryPriority" [("repr", quote symbol)]
  | missingSymbol kind operation =>
    record "MissingMnemonic" [("kind", quote kind.name), ("operation", quote operation)]
  | conflictingSymbols kind operation first second =>
    record "ConflictingMnemonics" [("kind", quote kind.name), ("operation", quote operation),
      ("first", quote first), ("second", quote second)]
  | sharedSymbol kind symbol =>
    record "DuplicateMnemonic" [("kind", quote kind.name), ("repr", quote symbol)]
  | placedTwice kind operation =>
    record "DuplicateRegistration" [("kind", quote kind.name), ("operation", quote operation)]
  | unlexable symbol => record "UnlexableMnemonic" [("repr", quote symbol)]

/-- A shape error in full. -/
def ShapeError.inspect : ShapeError → String
  | noChild position tag text =>
    record "MissingChild" [("position", position.inspect), ("tag", tag.inspect),
      ("repr", quote text)]

/-- An internal failure in full. -/
def Failure.inspect? : Failure → Option String
  | table e => some (within "Settings" e.inspect)
  | shape e => some (within "Tree" e.inspect)
  | token .nothingRead => some (within "Lex" "NoTokenYet")
  | token .cannotPutBack => some (within "Lex" "RollbackMisuse")
  | value (.notEvaluable tag) =>
    some (within "Runtime" (record "UnsupportedOperation" [("tag", tag.inspect)]))
  | value (.notDigits text) =>
    some (within "Runtime" (record "MalformedNumber" [("repr", quote text)]))
  | token _ | reading _ | value _ => none

/-- What is reported in full are the internal failures. -/
theorem Failure.isSome_inspect? (e : Failure) : e.inspect?.isSome = e.isInternal := by
  cases e with
  | table | shape | reading => rfl
  | token e => cases e <;> rfl
  | value e => cases e <;> rfl

example : (Failure.table (.noUnaryPriority "\"-")).inspect?
    = some "Settings(NoUnaryPriority \x7b repr: \"\\\"-\" \x7d)" := by decide +kernel

end Calculator
