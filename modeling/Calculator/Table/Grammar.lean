/-
The precedence table that reading an expression follows.

Levels are numbered from the loosest, 0, up.  A unary operation has a priority on
the same scale: its operand is read at the level above it.  Symbols are kept in the
direction from the operation; the way back is found by trying every operation, so
the two directions cannot disagree.
-/
import Calculator.Table.Level
import Calculator.Table.Error

namespace Calculator

/-- Levels, priorities and symbols. -/
structure Grammar where
  /-- The precedence levels, the loosest first. -/
  levels : List Level
  /-- The symbol of each binary operation that has one. -/
  binarySymbol : BinaryOp → Option String
  /-- The symbol of each unary operation that has one. -/
  unarySymbol : UnaryOp → Option String
  /-- The priority of each unary operation that stands in a group. -/
  unaryPriority : UnaryOp → Option Nat
deriving DecidableEq

/-- The operation that a symbol writes. -/
def Operation.ofSymbol? {Op : Type} [Operation Op] (symbolOf : Op → Option String)
    (symbol : String) : Option Op :=
  Operation.all.find? fun op => symbolOf op == some symbol

/-- An operation found for a symbol has that symbol. -/
theorem Operation.symbol_of_ofSymbol? {Op : Type} [Operation Op] {symbolOf : Op → Option String}
    {symbol : String} {op : Op} (h : ofSymbol? symbolOf symbol = some op) :
    symbolOf op = some symbol := by
  simpa using List.find?_some h

/-- No operation is found for a symbol only if none has it. -/
theorem Operation.ofSymbol?_eq_none_iff {Op : Type} [Operation Op] {symbolOf : Op → Option String}
    {symbol : String} :
    ofSymbol? symbolOf symbol = none ↔ ∀ op, symbolOf op ≠ some symbol := by
  simp [ofSymbol?, Operation.mem_all]

/-- The operation that a symbol writes, or a fault if it writes none. -/
def Operation.ofSymbol {Op : Type} [Operation Op] (symbolOf : Op → Option String)
    (fault : String → TableError) (symbol : String) : Except TableError Op :=
  match ofSymbol? symbolOf symbol with
  | some op => .ok op
  | none => .error (fault symbol)

/-- A symbol that writes an operation is no fault. -/
theorem Operation.ofSymbol_of_ofSymbol? {Op : Type} [Operation Op] {symbolOf : Op → Option String}
    {fault : String → TableError} {symbol : String} {op : Op}
    (h : ofSymbol? symbolOf symbol = some op) : ofSymbol symbolOf fault symbol = .ok op := by
  rw [ofSymbol, h]

namespace Grammar

variable (g : Grammar)

/-- How many levels there are. -/
def height : Nat :=
  g.levels.length

/-- How the operators of a level are grouped, if there is such a level. -/
def associativity? (level : Nat) : Option Associativity :=
  g.levels[level]?.map Level.associativity

/-- A level groups from the right; one that does not exist does not. -/
def groupsFromRight (level : Nat) : Bool :=
  g.associativity? level == some .right

/-- The binary operation that a symbol writes. -/
def binaryOp? (symbol : String) : Option BinaryOp :=
  Operation.ofSymbol? g.binarySymbol symbol

/-- The unary operation that a symbol writes. -/
def unaryOp? (symbol : String) : Option UnaryOp :=
  Operation.ofSymbol? g.unarySymbol symbol

/-- The binary operation that a symbol writes, or the fault that there is none. -/
def binaryOp (symbol : String) : Except TableError BinaryOp :=
  Operation.ofSymbol g.binarySymbol .noBinaryOp symbol

/-- The unary operation that a symbol writes, or the fault that there is none. -/
def unaryOp (symbol : String) : Except TableError UnaryOp :=
  Operation.ofSymbol g.unarySymbol .noUnaryOp symbol

/-- The binary operation of a level that a symbol writes. -/
def opAt? (level : Nat) (symbol : String) : Option BinaryOp :=
  match g.binaryOp? symbol, g.levels[level]? with
  | some op, some l => if l.has op then some op else none
  | _, _ => none

/-- A symbol writes a binary operation of a level. -/
def isOpAt (level : Nat) (symbol : String) : Bool :=
  (g.opAt? level symbol).isSome

/-- The priority of the unary operation that a symbol writes: none if it writes no unary
operation, a fault if it writes one that stands in no group. -/
def priorityOf (symbol : String) : Except TableError (Option Nat) :=
  match g.unaryOp? symbol with
  | none => .ok none
  | some op =>
    match g.unaryPriority op with
    | some priority => .ok (some priority)
    | none => .error (.noUnaryPriority symbol)

/-- The level at which the operand of a unary operation is read: the one above its priority, or
past all levels. -/
def operandLevel (priority : Nat) : Nat :=
  min (priority + 1) g.height

end Grammar

end Calculator
