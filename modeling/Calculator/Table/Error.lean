/-
What can be wrong with an operator table.

Most faults are found when a table is built.  The three look-up faults arise later,
when a symbol is asked for a meaning that the table does not give it.  All of them
are mistakes in the table, never in the line that is being read.
-/
import Calculator.Operation

namespace Calculator

/-- A fault of an operator table.  An operation is given by its printed name. -/
inductive TableError where
  /-- The symbol writes no binary operation. -/
  | noBinaryOp (symbol : String)
  /-- The symbol writes no unary operation. -/
  | noUnaryOp (symbol : String)
  /-- The symbol writes a unary operation that stands in no unary group. -/
  | noUnaryPriority (symbol : String)
  /-- An operation stands in a level or group and has no symbol. -/
  | missingSymbol (kind : OpKind) (operation : String)
  /-- An operation has two different symbols. -/
  | conflictingSymbols (kind : OpKind) (operation first second : String)
  /-- Two operations of one kind share a symbol. -/
  | sharedSymbol (kind : OpKind) (symbol : String)
  /-- An operation stands in two levels or in two groups. -/
  | placedTwice (kind : OpKind) (operation : String)
  /-- No line could ever hold the symbol. -/
  | unlexable (symbol : String)
deriving DecidableEq

namespace TableError

/-- What a table error says after its opening words. -/
def detail : TableError → String
  | noBinaryOp symbol => "no binary operation for representation '" ++ symbol ++ "'"
  | noUnaryOp symbol => "no unary operation for representation '" ++ symbol ++ "'"
  | noUnaryPriority symbol =>
    "no priority for '" ++ symbol ++ "' that is specified as unary operation"
  | missingSymbol kind operation =>
    "no representation for " ++ kind.name ++ " operation " ++ operation
  | conflictingSymbols kind operation first second =>
    kind.name ++ " operation " ++ operation ++ " is represented both as '" ++ first
      ++ "' and '" ++ second ++ "'"
  | sharedSymbol kind symbol =>
    "'" ++ symbol ++ "' represents more than one " ++ kind.name ++ " operation"
  | placedTwice kind operation =>
    kind.name ++ " operation " ++ operation ++ " is registered more than once"
  | unlexable symbol => "'" ++ symbol ++ "' cannot be used as an operation symbol"

/-- The wording of a table error. -/
def message (e : TableError) : String :=
  "something wrong with settings: " ++ e.detail

end TableError

end Calculator
