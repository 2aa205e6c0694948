/-
Building an operator table.

A table is described by a sequence of registrations: levels from the loosest up,
unary groups likewise, and the symbol of each operation.  A draft is what a
sequence of them has said so far.  Nothing is refused while a draft grows; it is
checked as a whole when the table is built, and the first fault in a fixed order is
the one reported: for the binary and then the unary operations that one is placed
twice, then for each that a symbol is wrong, then for each that one is missing.

For the checks the two kinds of operation are alike, so a `Plan` is one kind's
share of a draft, and everything is said once for plans.
-/
import Calculator.Event
import Calculator.Table.Grammar
import Calculator.Table.Lexicon

namespace Calculator

/-- One statement about a table under construction. -/
inductive Registration where
  /-- A precedence level that binds tighter than all before it. -/
  | level (ops : List BinaryOp) (associativity : Associativity)
  /-- A unary group that binds tighter than all before it. -/
  | group (ops : List UnaryOp)
  /-- The symbol of a binary operation. -/
  | binarySymbol (op : BinaryOp) (symbol : String)
  /-- The symbol of a unary operation. -/
  | unarySymbol (op : UnaryOp) (symbol : String)
deriving DecidableEq

/-- Where the operations of one kind stand, and how they are written. -/
structure Plan (Op : Type) where
  /-- The groups, the loosest first. -/
  groups : List (List Op)
  /-- The registered symbols, in the order of registration. -/
  symbols : List (Op × String)

namespace Plan

variable {Op : Type} [DecidableEq Op] [Operation Op]

/-! ### What a plan says -/

/-- The priority of an operation: the number of the first group that holds it. -/
def priority (plan : Plan Op) (op : Op) : Option Nat :=
  plan.groups.findIdx? fun group => decide (op ∈ group)

/-- The symbol that a list of registrations gives to an operation: the first one. -/
def symbolIn (symbols : List (Op × String)) (op : Op) : Option String :=
  (symbols.find? fun entry => decide (entry.1 = op)).map Prod.snd

/-- The symbol of an operation. -/
def symbol (plan : Plan Op) (op : Op) : Option String :=
  symbolIn plan.symbols op

/-- The operations that stand in a group, in order. -/
def placed (plan : Plan Op) : List Op :=
  plan.groups.flatten

/-- The symbols of the placed operations, in order and each once. -/
def placedSymbols (plan : Plan Op) : List String :=
  (plan.placed.filterMap plan.symbol).eraseDups

/-! ### What can be wrong with it -/

/-- The first operation of the groups that stands in an earlier one, `earlier` being the operations
before these groups. -/
def repeated? (earlier : List Op) : List (List Op) → Option Op
  | [] => none
  | group :: rest =>
    (group.find? fun op => decide (op ∈ earlier)).or (repeated? (earlier ++ group) rest)

/-- The fault of one more registration after some that are sound: a symbol no line can hold, a
second symbol for an operation, a symbol that is taken. -/
def symbolFault? (earlier : List (Op × String)) (op : Op) (symbol : String) : Option TableError :=
  if !isLexable symbol then some (.unlexable symbol)
  else
    match symbolIn earlier op with
    | some first =>
      if first = symbol then none
      else some (.conflictingSymbols (Operation.kind Op) (Operation.name op) first symbol)
    | none =>
      if earlier.any (fun entry => decide (entry.2 = symbol)) then
        some (.sharedSymbol (Operation.kind Op) symbol)
      else none

/-- The first fault of the registrations that follow `earlier`. -/
def misspelled? (earlier : List (Op × String)) : List (Op × String) → Option TableError
  | [] => none
  | (op, symbol) :: rest =>
    (symbolFault? earlier op symbol).or (misspelled? (earlier ++ [(op, symbol)]) rest)

/-- An operation is placed twice. -/
def placementFault? (plan : Plan Op) : Option TableError :=
  (repeated? [] plan.groups).map fun op =>
    .placedTwice (Operation.kind Op) (Operation.name op)

/-- A symbol is wrong. -/
def spellingFault? (plan : Plan Op) : Option TableError :=
  misspelled? [] plan.symbols

/-- A placed operation has no symbol. -/
def omissionFault? (plan : Plan Op) : Option TableError :=
  (plan.placed.find? fun op => (plan.symbol op).isNone).map fun op =>
    .missingSymbol (Operation.kind Op) (Operation.name op)

/-- The events of operations that have a symbol and no place, in the order of their names. -/
def unused (plan : Plan Op) : List Event :=
  Operation.all.filterMap fun op =>
    match plan.symbol op, plan.priority op with
    | some symbol, none => some (.unusedSymbol (Operation.kind Op) (Operation.name op) symbol)
    | _, _ => none

end Plan

/-- What has been registered so far. -/
structure Draft where
  /-- The levels, the loosest first. -/
  levels : List (List BinaryOp × Associativity)
  /-- The unary groups, the loosest first. -/
  groups : List (List UnaryOp)
  /-- The symbols of binary operations, in the order of registration. -/
  binarySymbols : List (BinaryOp × String)
  /-- The symbols of unary operations, in the order of registration. -/
  unarySymbols : List (UnaryOp × String)
deriving DecidableEq

/-- An operator table: one view of it for cutting a line into tokens, one for reading them. -/
structure Table where
  lexicon : Lexicon
  grammar : Grammar
deriving DecidableEq

namespace Draft

/-- The draft in which nothing is registered. -/
def empty : Draft where
  levels := []
  groups := []
  binarySymbols := []
  unarySymbols := []

/-- A draft with one more registration. -/
def register (d : Draft) : Registration → Draft
  | .level ops associativity => { d with levels := d.levels ++ [(ops, associativity)] }
  | .group ops => { d with groups := d.groups ++ [ops] }
  | .binarySymbol op symbol => { d with binarySymbols := d.binarySymbols ++ [(op, symbol)] }
  | .unarySymbol op symbol => { d with unarySymbols := d.unarySymbols ++ [(op, symbol)] }

/-- A draft with further registrations, in order. -/
def registerAll (d : Draft) (registrations : List Registration) : Draft :=
  registrations.foldl register d

/-- The binary operations' share of a draft. -/
def binary (d : Draft) : Plan BinaryOp where
  groups := d.levels.map Prod.fst
  symbols := d.binarySymbols

/-- The unary operations' share of a draft. -/
def unary (d : Draft) : Plan UnaryOp where
  groups := d.groups
  symbols := d.unarySymbols

/-- The first fault of a draft. -/
def fault? (d : Draft) : Option TableError :=
  d.binary.placementFault?
    |>.or d.unary.placementFault?
    |>.or d.binary.spellingFault?
    |>.or d.unary.spellingFault?
    |>.or d.binary.omissionFault?
    |>.or d.unary.omissionFault?

/-- The table that a draft describes, sound or not. -/
def table (d : Draft) : Table where
  lexicon :=
    { binary := d.binary.placedSymbols
      unary := d.unary.placedSymbols }
  grammar :=
    { levels := d.levels.map fun level => Level.ofList level.1 level.2
      binarySymbol := d.binary.symbol
      unarySymbol := d.unary.symbol
      unaryPriority := d.unary.priority }

/-- Checks a draft and makes the table of it. -/
def build (d : Draft) : Except TableError Table :=
  match d.fault? with
  | some e => .error e
  | none => .ok d.table

/-- The events of building a sound draft: the operations that have a symbol which no line will
ever be cut at. -/
def warnings (d : Draft) : List Event :=
  d.binary.unused ++ d.unary.unused

/-- A draft is built unless it has a fault. -/
theorem build_eq_ok_iff {d : Draft} {t : Table} :
    d.build = .ok t ↔ d.fault? = none ∧ d.table = t := by
  unfold build
  split <;> simp_all

/-- Only a fault keeps a draft from being built, and it is the first one that is reported. -/
theorem build_eq_error_iff {d : Draft} {e : TableError} :
    d.build = .error e ↔ d.fault? = some e := by
  unfold build
  split <;> simp_all

end Draft

end Calculator
