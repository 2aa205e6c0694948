/-
The value of a tree.

Operands are evaluated from left to right, and the first error is the error of the
whole.  A definition has no value.  At the root of a line it is carried out by
`Environment.execute`, which binds the name after the value is known; anywhere else it
is an error.  So evaluation reads the environment and never changes it, and a line
that fails leaves it as it was.
-/
import Calculator.Event
import Calculator.Evaluation.Arithmetic
import Calculator.Evaluation.Environment

namespace Calculator

/-- Why a tree has no value. -/
inductive ValueError where
  /-- A variable that is not bound. -/
  | unbound (name : String)
  /-- An operation has no value. -/
  | arithmetic (e : ArithmeticError)
  /-- A node that cannot be evaluated where it stands. -/
  | notEvaluable (tag : Tag)
  /-- A number whose text is not digits. -/
  | notDigits (text : String)
  /-- A node lacks a child. -/
  | shape (e : ShapeError)
deriving DecidableEq

/-- The wording of a value error. -/
def ValueError.message : ValueError → String
  | unbound name => "execution problem: undefined variable " ++ name
  | arithmetic _ => "execution problem: arithmetic exception happened"
  | notEvaluable tag => "execution problem: not supported operation: " ++ tag.name
  | notDigits text => "execution problem: '" ++ text ++ "' is not a decimal integer"
  | shape e => e.message

/-- What lies behind a value error, if it does not say it itself. -/
def ValueError.cause? : ValueError → Option String
  | arithmetic e => some e.message
  | _ => none

/-- The value that digits write. -/
def numberValue (digits : String) : Except ValueError Int :=
  if Decimal.isNumeral digits then .ok (Decimal.value digits.toList)
  else .error (.notDigits digits)

/-- The value of a name. -/
def Environment.value (env : Environment) (name : String) : Except ValueError Int :=
  match env.lookup name with
  | some v => .ok v
  | none => .error (.unbound name)

/-- The value of an expression. -/
def Tree.evaluate (env : Environment) : Tree → Except ValueError Int
  | .number digits => numberValue digits
  | .var name => env.value name
  | .unary op operand => do
    let v ← operand.evaluate env
    return op.apply v
  | .binary op left right => do
    let a ← left.evaluate env
    let b ← right.evaluate env
    (op.apply a b).mapError .arithmetic
  | .define _ _ => .error (.notEvaluable .define)

/-- What evaluating a line gives. -/
structure Execution where
  /-- The value of an expression, none for a definition, or what is wrong. -/
  answer : Except ValueError (Option Int)
  /-- The bindings afterwards. -/
  env : Environment
  /-- What happened. -/
  events : List Event

/-- Evaluates the tree of a line. -/
def Environment.execute (env : Environment) : Tree → Execution
  | .define name value =>
    match value.evaluate env with
    | .ok v => ⟨.ok none, env.set name v, [.bound name v]⟩
    | .error e => ⟨.error e, env, []⟩
  | tree =>
    match tree.evaluate env with
    | .ok v => ⟨.ok (some v), env, [.evaluated tree v]⟩
    | .error e => ⟨.error e, env, []⟩

end Calculator
