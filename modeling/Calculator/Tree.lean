/-
The tree of a line.

A tree is a number, a variable, an operation over smaller trees, or the definition
of a name by one.  Each node has a tag, a text (digits or a name, nothing above the
leaves) and its children in order.  The printed form of a leaf is its text, and that of
any other node a bracket that opens with its name.

The texts are arbitrary.  That the digits are digits and the names are names is
what the reader of a line guarantees, not what the type asks.

The parts that a line is read in are named here too, as one of them carries a tree: the
left part of a chain is there before the rest is read.
-/
import Calculator.Operation

namespace Calculator

/-- What a line means, before it has a value. -/
inductive Tree where
  /-- A number, by its decimal digits. -/
  | number (digits : String)
  /-- A variable, by its name. -/
  | var (name : String)
  /-- An operation applied to one operand. -/
  | unary (op : UnaryOp) (operand : Tree)
  /-- An operation applied to two operands. -/
  | binary (op : BinaryOp) (left right : Tree)
  /-- The definition of a name. -/
  | define (name : String) (value : Tree)
deriving DecidableEq

/-- The sort of a node. -/
inductive Tag where
  | number
  | var
  | unary (op : UnaryOp)
  | binary (op : BinaryOp)
  | define
deriving DecidableEq

/-- The printed name of a tag. -/
def Tag.name : Tag → String
  | number => "NUMBER"
  | var => "VARIABLE"
  | unary op => "unary " ++ op.name
  | binary op => "binary " ++ op.name
  | define => "ASSIGN"

/-- Which child of a node is meant. -/
inductive Position where
  | first
  | second
deriving DecidableEq

namespace Position

/-- The word for a position. -/
def name : Position → String
  | first => "first"
  | second => "second"

/-- How many children stand before it. -/
def index : Position → Nat
  | first => 0
  | second => 1

end Position

/-- A request that the shape of a tree cannot meet. -/
inductive ShapeError where
  /-- A node has no child at the position; the node is given by its tag and text. -/
  | noChild (position : Position) (tag : Tag) (text : String)
deriving DecidableEq

/-- The wording of a shape error. -/
def ShapeError.message : ShapeError → String
  | noChild position tag text =>
    "no " ++ position.name ++ " child for node with tag " ++ tag.name
      ++ " and representation '" ++ text ++ "'"

namespace Tree

/-! ### The three views of a node -/

/-- The sort of the root. -/
def tag : Tree → Tag
  | number _ => .number
  | var _ => .var
  | unary op _ => .unary op
  | binary op _ _ => .binary op
  | define _ _ => .define

/-- The digits or the name of a leaf; nothing for any other node. -/
def text : Tree → String
  | number digits => digits
  | var name => name
  | unary .. | binary .. | define .. => ""

/-- The children, in order.  The name that a definition binds is its first child. -/
def children : Tree → List Tree
  | number _ | var _ => []
  | unary _ operand => [operand]
  | binary _ left right => [left, right]
  | define name value => [var name, value]

/-- The child at a position. -/
def child (t : Tree) (position : Position) : Except ShapeError Tree :=
  match t.children[position.index]? with
  | some c => .ok c
  | none => .error (.noChild position t.tag t.text)

/-- The node reached from `t` by taking children in turn. -/
def descend (t : Tree) (path : List Position) : Except ShapeError Tree :=
  path.foldlM child t

/-- Every node, each before its children and these from left to right. -/
def nodes : Tree → List Tree
  | number digits => [number digits]
  | var name => [var name]
  | unary op operand => unary op operand :: operand.nodes
  | binary op left right => binary op left right :: (left.nodes ++ right.nodes)
  | define name value => define name value :: var name :: value.nodes

/-! ### The printed form -/

/-- The printed form: every operation in brackets, its name before its operands. -/
def render : Tree → String
  | number digits => digits
  | var name => name
  | unary op operand => "(" ++ op.name ++ " " ++ operand.render ++ ")"
  | binary op left right => "(" ++ op.name ++ " " ++ left.render ++ " " ++ right.render ++ ")"
  | define name value => "(LET " ++ name ++ " " ++ value.render ++ ")"

end Tree

/-- What a part of a line is read as: an expression of a level, the rest of a level that groups
from the left behind the tree so far, or an operand. -/
inductive Part where
  | expression (level : Nat)
  | chain (level : Nat) (left : Tree)
  | operand

end Calculator
