/-
What can go wrong while the tokens of a line are read.

A failure of the tokens or of the operator table is passed on as it is.  The other
errors name the token at which the line stopped making sense, as it is shown in
messages.
-/
import Calculator.Table.Error
import Calculator.Token.Basic

namespace Calculator

/-- Why a line could not be read. -/
inductive ReadError where
  /-- The line could not be cut into tokens. -/
  | token (e : TokenError)
  /-- The operator table could not answer. -/
  | table (e : TableError)
  /-- A token that begins no operand. -/
  | noOperand (found : String)
  /-- The line ends where an operand should begin. -/
  | endsEarly
  /-- A bracket was opened, and another token stands where it should be closed. -/
  | unclosed (found : String)
  /-- No name follows the keyword. -/
  | missingName (found : String)
  /-- No equals sign follows the declared name. -/
  | missingEquals (name found : String)
  /-- Something follows the complete line. -/
  | trailing (found : String)
deriving DecidableEq

/-- The wording of a read error. -/
def ReadError.message : ReadError → String
  | token e => e.message
  | table e => e.message
  | noOperand found => "unexpected token: " ++ found
  | endsEarly => "unexpected end of input"
  | unclosed found => "closing parenthesis expected, found " ++ found
  | missingName found =>
    "malformed declaration: 'let' keyword must be followed by variable name, found " ++ found
  | missingEquals name found =>
    "malformed declaration: assignment missing after '" ++ name ++ "', found " ++ found
  | trailing found => "some junk after expression found: " ++ found

end Calculator
