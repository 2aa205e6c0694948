/-
The operations an expression is made of.

An operation is a meaning, not a spelling: which symbol writes it is decided by an
operator table.  Binary and unary operations are two types that are treated alike
wherever a table is checked, so what the two have in common, a name, a word for
the kind and a list of all of them, is the class `Operation`, and the checks are
written once for it.
-/

namespace Calculator

/-- The operations with two operands. -/
inductive BinaryOp where
  | add
  | sub
  | mul
  | div
  | pow
deriving DecidableEq

/-- The operations with one operand, written before it. -/
inductive UnaryOp where
  | neg
  | pos
deriving DecidableEq

/-- Which of the two sorts of operation is meant. -/
inductive OpKind where
  | binary
  | unary
deriving DecidableEq

namespace OpKind

/-- The word for a sort of operation. -/
def name : OpKind → String
  | binary => "binary"
  | unary => "unary"

end OpKind

/-- What an operator table needs to know of a sort of operation. -/
class Operation (Op : Type) where
  /-- The sort. -/
  kind : OpKind
  /-- The name under which an operation is printed. -/
  name : Op → String
  /-- All operations of the sort, by name. -/
  all : List Op
  /-- None is missing from the list. -/
  mem_all : ∀ op : Op, op ∈ all

/-- The printed name of a binary operation. -/
def BinaryOp.name : BinaryOp → String
  | .add => "PLUS"
  | .sub => "MINUS"
  | .mul => "MULT"
  | .div => "DIV"
  | .pow => "POWER"

/-- The printed name of a unary operation. -/
def UnaryOp.name : UnaryOp → String
  | .neg => "MINUS"
  | .pos => "PLUS"

instance : Operation BinaryOp where
  kind := .binary
  name := BinaryOp.name
  all := [.div, .sub, .mul, .add, .pow]
  mem_all op := by cases op <;> decide

instance : Operation UnaryOp where
  kind := .unary
  name := UnaryOp.name
  all := [.neg, .pos]
  mem_all op := by cases op <;> decide

namespace Operation

variable {Op : Type} [Operation Op]

/-- Two functions on operations agree when they agree on each operation of the list. -/
theorem eq_iff_on_all {β : Type} {f g : Op → β} : f = g ↔ ∀ op ∈ (all : List Op), f op = g op :=
  ⟨fun h _ _ => h ▸ rfl, fun h => funext fun op => h op (mem_all op)⟩

/-- Equality of functions on operations is decided by trying each operation. -/
instance decidableEqFun {β : Type} [DecidableEq β] : DecidableEq (Op → β) := fun _ _ =>
  decidable_of_iff _ eq_iff_on_all.symm

end Operation

end Calculator
