/-
Bindings on the command line.

A binding is a name, an equals sign and an integer.  Blanks around the name and
around the integer do not count.  A name is one that a line could use: a letter, then
letters and digits, and not the keyword.  What stands behind the first equals sign is
the integer, so a second one makes it no integer.
-/
import Calculator.Text.Class
import Calculator.Text.Decimal
import Calculator.Token.Scanner

namespace Calculator.CommandLine

/-- Why a text is no binding. -/
inductive BindingError where
  /-- There is no equals sign. -/
  | noEquals (text : String)
  /-- What stands before it is no name. -/
  | badName (name : String)
  /-- What stands behind it is no integer. -/
  | notInteger (value : String)
deriving DecidableEq

/-- The wording of a binding error. -/
def BindingError.message : BindingError → String
  | noEquals text => "expected NAME=VALUE, found '" ++ text ++ "'"
  | badName name => "'" ++ name ++ "' is not a valid variable name"
  | notInteger value => "'" ++ value ++ "' is not an integer"

/-- A text is a name that a line could use. -/
def isName : List Char → Bool
  | [] => false
  | c :: r => c.isAlpha && r.all Char.isAlphanum && !decide (c :: r = keyword.toList)

/-- The text before and the text behind the first equals sign. -/
def cutAtEquals : List Char → Option (List Char × List Char)
  | [] => none
  | c :: r =>
    if c = '=' then some ([], r)
    else (cutAtEquals r).map fun (before, behind) => (c :: before, behind)

/-- The name and the value of a binding. -/
def readBinding (text : String) : Except BindingError (String × Int) :=
  match cutAtEquals text.toList with
  | none => .error (.noEquals text)
  | some (before, behind) =>
    let name := Text.trim before
    let digits := Text.trim behind
    if isName name then
      match Decimal.parse? digits with
      | some value => .ok (String.ofList name, value)
      | none => .error (.notInteger (String.ofList digits))
    else .error (.badName (String.ofList name))

end Calculator.CommandLine
