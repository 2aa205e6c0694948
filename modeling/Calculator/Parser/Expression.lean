/-
Reading an expression by precedence.

An expression is read at a level.  A level reads its parts at the next tighter
level, and past the last level a part is an operand: a number, a name, a bracketed
expression, or a sign with an expression of its own.  A level that groups from the left
collects its parts in a chain; one that groups from the right reads itself again
behind its first operator.  Either way the level ends at the first token that is
none of its operators, and puts that token back for whoever asked.

Brackets and signs jump back to looser levels, so neither the tokens nor the levels
alone decrease, and the recursion is on a budget that both are paid from.
-/
import Calculator.Parser.Basic
import Calculator.Table.Grammar

namespace Calculator

/-- The binary operation of a level that a token writes. -/
def Grammar.tokenOp? (g : Grammar) (level : Nat) (t : Token) : Option BinaryOp :=
  if t.kind = .symbol then g.opAt? level t.text else none

namespace Parser

variable {σ : Type} [TokenStream σ]

/-- The operator of a level if one comes next; if not, the token stays. -/
def operator (g : Grammar) (level : Nat) : Parser σ (Option BinaryOp) := do
  let t ← token
  match g.tokenOp? level t with
  | some op => return some op
  | none =>
    putBack
    return none

mutual

/-- An expression of a level. -/
def expression (g : Grammar) : Nat → Nat → Parser σ Tree
  | 0, _ => exhausted
  | fuel + 1, level =>
    if g.height ≤ level then operand g fuel
    else do
      let left ← expression g fuel (level + 1)
      if g.groupsFromRight level then
        match ← operator g level with
        | some op =>
          emit (.matched .right op level)
          let right ← expression g fuel level
          return .binary op left right
        | none => return left
      else chain g fuel level left

/-- The rest of an expression of a level that groups from the left, behind its parts so far. -/
def chain (g : Grammar) : Nat → Nat → Tree → Parser σ Tree
  | 0, _, _ => exhausted
  | fuel + 1, level, left => do
    match ← operator g level with
    | some op =>
      emit (.matched .left op level)
      let right ← expression g fuel (level + 1)
      chain g fuel level (.binary op left right)
    | none => return left

/-- An operand. -/
def operand (g : Grammar) : Nat → Parser σ Tree
  | 0 => exhausted
  | fuel + 1 => do
    let t ← token
    match t.kind with
    | .number => return .number t.text
    | .name => return .var t.text
    | .leftParen =>
      let inner ← expression g fuel 0
      let closing ← token
      if closing.kind = .rightParen then return inner
      else fail (.unclosed closing.display)
    | .symbol =>
      match ← ofTable (g.priorityOf t.text) with
      | some priority =>
        let op ← ofTable (g.unaryOp t.text)
        let tree ← expression g fuel (g.operandLevel priority)
        return .unary op tree
      | none => fail (.noOperand t.display)
    | .stop => fail .endsEarly
    | .rightParen | .equals | .keyword => fail (.noOperand t.display)

end

end Parser

end Calculator
