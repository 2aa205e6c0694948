/-
What the calculator reports of its work.

Reading and evaluating a line leave a record of what happened, beside the answer:
the operators that were matched, the tree that was read, the value it got.  An
event is data; its record is the line that a log shows for it.
-/
import Calculator.Tree
import Calculator.Table.Level
import Calculator.Text.Decimal

namespace Calculator

/-- How important an event is. -/
inductive Severity where
  | warn
  | debug
  | trace
deriving DecidableEq

/-- The word that opens a record. -/
def Severity.name : Severity → String
  | warn => "WARN"
  | debug => "DEBUG"
  | trace => "TRACE"

/-- Something that happened. -/
inductive Event where
  /-- A table gives a symbol to an operation that it places nowhere. -/
  | unusedSymbol (kind : OpKind) (operation symbol : String)
  /-- An operator of a level was met. -/
  | matched (associativity : Associativity) (op : BinaryOp) (level : Nat)
  /-- A line was read. -/
  | parsed (tree : Tree)
  /-- An expression got its value. -/
  | evaluated (tree : Tree) (value : Int)
  /-- A name was bound. -/
  | bound (name : String) (value : Int)
deriving DecidableEq

namespace Event

/-- How important an event is. -/
def severity : Event → Severity
  | unusedSymbol .. => .warn
  | matched .. => .trace
  | parsed .. | evaluated .. | bound .. => .debug

/-- What a record says of an event. -/
def message : Event → String
  | unusedSymbol kind operation symbol =>
    kind.name ++ " operation " ++ operation ++ " has symbol '" ++ symbol
      ++ "' but no priority; the symbol will not be lexed"
  | matched associativity op level =>
    associativity.name ++ "-associative " ++ op.name ++ " at level " ++ level.repr
  | parsed tree => "parsed " ++ tree.render
  | evaluated tree value => "evaluated " ++ tree.render ++ " to " ++ Decimal.render value
  | bound name value => "binding " ++ name ++ " = " ++ Decimal.render value

/-- The line of a log. -/
def record (e : Event) : String :=
  e.severity.name ++ " " ++ e.message

end Event

end Calculator
