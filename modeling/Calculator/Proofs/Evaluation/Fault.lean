/-
Where a line fails.

The nodes of an expression are evaluated in one order: the operands of an operation
from left to right, and the operation behind them.  A definition that stands inside an
expression is met as a whole; what is below it is never looked at.  `visits` lists the
places of the nodes in this order, and the place where an expression fails (`FailsAt`)
is the first one whose node is itself at fault, which is not the same as having no value:
an operation whose operand has no value is not to blame.

There is one such place if the line fails, and none if it does not.  What lies to the
right of it has not been evaluated, and neither has what is below it if it is a
definition, so other trees may stand there and the error stays (`AlikeUpTo`).

A node is asked for its children by position, and such a request can fail.  That it
never does is no part of evaluation as it is defined, which takes a tree apart;
`evaluate_eq_lookUp` says that asking for the children comes to the same.
-/
import Calculator.Evaluation.Value

namespace Calculator

namespace Tree

/-! ### Asking for the children -/

/-- The value of a node from what its views say, with `value` for its children. -/
def lookUp (env : Environment) (value : Tree → Except ValueError Int) (t : Tree) :
    Except ValueError Int :=
  match t.tag with
  | .number => numberValue t.text
  | .var => env.value t.text
  | .unary op => do
    let operand ← (t.child .first).mapError .shape
    let v ← value operand
    return op.apply v
  | .binary op => do
    let left ← (t.child .first).mapError .shape
    let a ← value left
    let right ← (t.child .second).mapError .shape
    let b ← value right
    (op.apply a b).mapError .arithmetic
  | .define => .error (.notEvaluable .define)

/-- **A node has the children that evaluation asks it for.** -/
theorem evaluate_eq_lookUp (env : Environment) (t : Tree) :
    t.evaluate env = t.lookUp env (evaluate env) := by
  cases t <;> rfl

/-- What a line leaves, its bindings and its value, from what the views of its tree say. -/
def lookUpLine (env : Environment) (value : Tree → Except ValueError Int) (t : Tree) :
    Except ValueError (Environment × Option Int) :=
  if t.tag = .define then do
    let target ← (t.child .first).mapError .shape
    let expression ← (t.child .second).mapError .shape
    let v ← value expression
    return (env.set target.text v, none)
  else do
    let v ← value t
    return (env, some v)

/-- **A definition has a name and a value.** -/
theorem lookUpLine_eq (env : Environment) (t : Tree) :
    t.lookUpLine env (evaluate env)
      = (env.execute t).answer.map fun value? => ((env.execute t).env, value?) := by
  cases t with
  | define name value =>
      show (value.evaluate env >>= fun v => pure (env.set name v, none)) = _
      cases hvalue : value.evaluate env <;> simp [Environment.execute, hvalue, bind] <;> rfl
  | number | var | unary | binary =>
      rw [Environment.execute]
      · simp only [lookUpLine, tag, reduceCtorEq, if_false]
        split <;> simp_all [bind, Except.bind, Except.map, pure, Except.pure]
      · simp

/-! ### The order of evaluation -/

/-- The places of the nodes that are evaluated, in the order in which they are.  A definition is
evaluated as a whole. -/
def visits : Tree → List (List Position)
  | number _ | var _ | define _ _ => [[]]
  | unary _ operand => operand.visits.map (.first :: ·) ++ [[]]
  | binary _ left right =>
    left.visits.map (.first :: ·) ++ right.visits.map (.second :: ·) ++ [[]]

/-- The node at a place has a value. -/
def HasValueAt (env : Environment) (t : Tree) (p : List Position) : Prop :=
  ∃ node v, t.descend p = .ok node ∧ node.evaluate env = .ok v

/-- The node itself is at fault.  An operation is, if its operands have values and it has none; a
definition is, wherever it is met. -/
inductive Faulty (env : Environment) : Tree → ValueError → Prop
  | number {digits : String} (h : Decimal.isNumeral digits = false) :
      Faulty env (.number digits) (.notDigits digits)
  | var {name : String} (h : env.lookup name = none) : Faulty env (.var name) (.unbound name)
  | binary {op : BinaryOp} {left right : Tree} {a b : Int} {e : ArithmeticError}
      (hleft : left.evaluate env = .ok a) (hright : right.evaluate env = .ok b)
      (h : op.apply a b = .error e) : Faulty env (.binary op left right) (.arithmetic e)
  | define (name : String) (value : Tree) :
      Faulty env (.define name value) (.notEvaluable .define)

/-- An expression fails at a place: all nodes that are evaluated earlier have values, and the error
is the fault of the node that stands there. -/
structure FailsAt (env : Environment) (t : Tree) (e : ValueError) (p : List Position) : Prop where
  earlier : ∃ before after, t.visits = before ++ p :: after ∧ ∀ q ∈ before, t.HasValueAt env q
  fault : ∃ node, t.descend p = .ok node ∧ node.Faulty env e

/-- Two expressions are the same but for what lies to the right of a place, and for what is below
it if a definition stands there. -/
inductive AlikeUpTo : List Position → Tree → Tree → Prop
  | here (t : Tree) : AlikeUpTo [] t t
  | define (name name' : String) (value value' : Tree) :
      AlikeUpTo [] (.define name value) (.define name' value')
  | unary (op : UnaryOp) {p : List Position} {t t' : Tree} (h : AlikeUpTo p t t') :
      AlikeUpTo (.first :: p) (.unary op t) (.unary op t')
  | left (op : BinaryOp) {p : List Position} {t t' : Tree} (h : AlikeUpTo p t t')
      (right right' : Tree) :
      AlikeUpTo (.first :: p) (.binary op t right) (.binary op t' right')
  | right (op : BinaryOp) (left : Tree) {p : List Position} {t t' : Tree}
      (h : AlikeUpTo p t t') : AlikeUpTo (.second :: p) (.binary op left t) (.binary op left t')

section Evaluation

variable {env : Environment} {t left right : Tree} {e : ValueError} {p : List Position}

/-! ### An operation and its operands -/

theorem evaluate_unary (op : UnaryOp) (operand : Tree) :
    (unary op operand).evaluate env = (operand.evaluate env).map op.apply := by
  rw [evaluate]
  cases operand.evaluate env <;> rfl

private theorem evaluate_binary_of_left_error {op : BinaryOp} (h : left.evaluate env = .error e) :
    (binary op left right).evaluate env = .error e := by
  rw [evaluate, h]
  rfl

private theorem evaluate_binary_of_left_ok {op : BinaryOp} {a : Int}
    (h : left.evaluate env = .ok a) :
    (binary op left right).evaluate env
      = right.evaluate env >>= fun b => (op.apply a b).mapError .arithmetic := by
  rw [evaluate, h]
  rfl

private theorem evaluate_binary_of_ok {op : BinaryOp} {a b : Int}
    (hleft : left.evaluate env = .ok a) (hright : right.evaluate env = .ok b) :
    (binary op left right).evaluate env = (op.apply a b).mapError .arithmetic := by
  rw [evaluate_binary_of_left_ok hleft, hright]
  rfl

/-- The two operands of an operation that has a value have values. -/
theorem exists_values_of_binary {op : BinaryOp} {v : Int}
    (h : (binary op left right).evaluate env = .ok v) :
    (∃ a, left.evaluate env = .ok a) ∧ ∃ b, right.evaluate env = .ok b := by
  cases hleft : left.evaluate env with
  | error e =>
      rw [evaluate_binary_of_left_error hleft] at h
      cases h
  | ok a =>
      rw [evaluate_binary_of_left_ok hleft] at h
      cases hright : right.evaluate env with
      | error e =>
          rw [hright] at h
          cases h
      | ok b => exact ⟨⟨a, rfl⟩, b, rfl⟩

/-- A node that is at fault has no value, and its error is its fault. -/
theorem Faulty.evaluate_eq (h : t.Faulty env e) : t.evaluate env = .error e := by
  cases h with
  | number h => simp [evaluate, numberValue, h]
  | var h => simp [evaluate, Environment.value, h]
  | binary hleft hright h =>
      rw [evaluate_binary_of_ok hleft hright, h]
      rfl
  | define => rfl

/-! ### What has a value -/

/-- What has a value in an operand has it in the operation. -/
theorem forall_hasValueAt_map (side : Position) (whole : Tree) {places : List (List Position)}
    (hside : ∀ q, whole.descend (side :: q) = t.descend q)
    (h : ∀ q ∈ places, t.HasValueAt env q) :
    ∀ q ∈ places.map (side :: ·), whole.HasValueAt env q := by
  intro q hq
  obtain ⟨q', hq', rfl⟩ := List.mem_map.1 hq
  obtain ⟨node, v, hnode, hv⟩ := h q' hq'
  exact ⟨node, v, (hside q').trans hnode, hv⟩

/-- **If an expression has a value, then so have all nodes that are evaluated.** -/
theorem hasValueAt_of_mem_visits {v : Int} (h : t.evaluate env = .ok v) :
    ∀ q ∈ t.visits, t.HasValueAt env q := by
  have hroot : ∀ {t : Tree} {v : Int}, t.evaluate env = .ok v →
      ∀ q ∈ [[]], t.HasValueAt env q :=
    fun h => List.forall_mem_singleton.2 ⟨_, _, rfl, h⟩
  induction t generalizing v with
  | number | var | define => exact hroot h
  | unary op operand ih =>
      cases hv : operand.evaluate env with
      | error e => simp [evaluate_unary, hv, Except.map] at h
      | ok a =>
          have hoperand := forall_hasValueAt_map .first (unary op operand)
            (fun _ => rfl) (ih hv)
          exact List.forall_mem_append.2 ⟨hoperand, hroot h⟩
  | binary op left right ihleft ihright =>
      obtain ⟨⟨a, ha⟩, b, hb⟩ := exists_values_of_binary h
      have hleft := forall_hasValueAt_map .first (binary op left right)
        (fun _ => rfl) (ihleft ha)
      have hright := forall_hasValueAt_map .second (binary op left right)
        (fun _ => rfl) (ihright hb)
      exact List.forall_mem_append.2 ⟨List.forall_mem_append.2 ⟨hleft, hright⟩, hroot h⟩

/-! ### The place of the fault -/

/-- An expression fails at its root if all below it has a value and the root is at fault. -/
theorem FailsAt.root {before : List (List Position)} (hvisits : t.visits = before ++ [[]])
    (hbefore : ∀ q ∈ before, t.HasValueAt env q) (h : t.Faulty env e) : t.FailsAt env e [] :=
  ⟨⟨before, [], hvisits, hbefore⟩, t, rfl, h⟩

/-- What fails in an operand fails in the operation, if all to the left of the operand has a
value. -/
theorem FailsAt.operand {side : Position} {whole : Tree} (before : List (List Position))
    {after : List (List Position)}
    (hvisits : whole.visits = before ++ t.visits.map (side :: ·) ++ after)
    (hside : ∀ q, whole.descend (side :: q) = t.descend q)
    (hbefore : ∀ q ∈ before, whole.HasValueAt env q) (h : t.FailsAt env e p) :
    whole.FailsAt env e (side :: p) := by
  obtain ⟨⟨before', after', hvisits', hbefore'⟩, node, hnode, hfault⟩ := h
  refine ⟨⟨before ++ before'.map (side :: ·), after'.map (side :: ·) ++ after, ?_, ?_⟩,
    node, (hside p).trans hnode, hfault⟩
  · rw [hvisits, hvisits']
    simp
  · exact List.forall_mem_append.2 ⟨hbefore, forall_hasValueAt_map side whole hside hbefore'⟩

/-- **There is one place where an expression fails.** -/
theorem FailsAt.unique {e' : ValueError} {q : List Position} (h : t.FailsAt env e p)
    (h' : t.FailsAt env e' q) : q = p := by
  have hnot : ∀ {e : ValueError} {p : List Position},
      (∃ node, t.descend p = .ok node ∧ node.Faulty env e) → ¬ t.HasValueAt env p := by
    rintro e p ⟨node, hnode, hfault⟩ ⟨node', v, hnode', hv⟩
    rw [hnode] at hnode'
    cases hnode'
    rw [hfault.evaluate_eq] at hv
    cases hv
  obtain ⟨⟨before, after, hvisits, hbefore⟩, hfault⟩ := h
  obtain ⟨⟨before', after', hvisits', hbefore'⟩, hfault'⟩ := h'
  -- Of two such places the earlier one would have a value, and it has none.
  rw [hvisits] at hvisits'
  rcases List.append_eq_append_iff.1 hvisits' with ⟨mid, hmid, hcons⟩ | ⟨mid, hmid, hcons⟩
  · cases mid with
    | nil => exact (List.cons.inj hcons).1.symm
    | cons x mid =>
        obtain ⟨rfl, -⟩ := List.cons.inj hcons
        exact absurd (hbefore' p (by simp [hmid])) (hnot hfault)
  · cases mid with
    | nil => exact (List.cons.inj hcons).1
    | cons x mid =>
        obtain ⟨rfl, -⟩ := List.cons.inj hcons
        exact absurd (hbefore q (by simp [hmid])) (hnot hfault')

/-! ### What stands behind the fault -/

/-- A node that is at fault is so whatever is changed in it. -/
theorem Faulty.evaluate_alike {t' : Tree} (h : t.Faulty env e) (halike : AlikeUpTo [] t t') :
    t'.evaluate env = .error e := by
  cases halike with
  | here => exact h.evaluate_eq
  | define =>
      cases h
      rfl

/-- A number or a variable without a value is at fault. -/
private theorem faulty_number {digits : String} (h : (number digits).evaluate env = .error e) :
    (number digits).Faulty env e := by
  rw [evaluate, numberValue] at h
  split at h
  · cases h
  · rename_i hdigits
    cases h
    exact .number (by simpa using hdigits)

private theorem faulty_var {name : String} (h : (var name).evaluate env = .error e) :
    (var name).Faulty env e := by
  rw [evaluate, Environment.value] at h
  split at h
  · cases h
  · rename_i hname
    cases h
    exact .var hname

/-- An operation without a value whose operands have values is at fault. -/
private theorem faulty_binary {op : BinaryOp} {a b : Int} (hleft : left.evaluate env = .ok a)
    (hright : right.evaluate env = .ok b) (h : (binary op left right).evaluate env = .error e) :
    (binary op left right).Faulty env e := by
  rw [evaluate_binary_of_ok hleft hright] at h
  cases happly : op.apply a b with
  | ok v =>
      rw [happly] at h
      cases h
  | error e' =>
      rw [happly] at h
      cases h
      exact .binary hleft hright happly

/-- **An expression without a value fails at some place**, and fails in the same way whatever it is
changed to behind that place. -/
theorem exists_failsAt (h : t.evaluate env = .error e) :
    ∃ p, t.FailsAt env e p ∧ ∀ t', AlikeUpTo p t t' → t'.evaluate env = .error e := by
  have hroot : ∀ {t : Tree} {e : ValueError} (before : List (List Position)),
      t.visits = before ++ [[]] → (∀ q ∈ before, t.HasValueAt env q) → t.Faulty env e →
        ∃ p, t.FailsAt env e p ∧ ∀ t', AlikeUpTo p t t' → t'.evaluate env = .error e :=
    fun _ hvisits hbefore hfault =>
      ⟨[], .root hvisits hbefore hfault, fun _ => hfault.evaluate_alike⟩
  induction t generalizing e with
  | number digits => exact hroot [] rfl (by simp) (faulty_number h)
  | var name => exact hroot [] rfl (by simp) (faulty_var h)
  | define name value =>
      obtain rfl : .notEvaluable .define = e := Except.error.inj h
      exact hroot [] rfl (by simp) (.define name value)
  | unary op operand ih =>
      cases hv : operand.evaluate env with
      | ok v => simp [evaluate_unary, hv, Except.map] at h
      | error e' =>
          obtain rfl : e' = e := by simpa [evaluate_unary, hv, Except.map] using h
          obtain ⟨p, hp, halike⟩ := ih hv
          refine ⟨.first :: p, hp.operand [] rfl (fun _ => rfl) (by simp), ?_⟩
          intro t' ht'
          cases ht' with
          | unary _ ht' =>
              rw [evaluate_unary, halike _ ht']
              rfl
  | binary op left right ihleft ihright =>
      cases ha : left.evaluate env with
      | error e' =>
          obtain rfl : e' = e :=
            Except.error.inj ((evaluate_binary_of_left_error ha).symm.trans h)
          obtain ⟨p, hp, halike⟩ := ihleft ha
          refine ⟨.first :: p, hp.operand [] (List.append_assoc _ _ _) (fun _ => rfl)
            (by simp), ?_⟩
          intro t' ht'
          cases ht' with
          | left _ ht' => exact evaluate_binary_of_left_error (halike _ ht')
      | ok a =>
          have hleft := forall_hasValueAt_map .first (binary op left right)
            (fun _ => rfl) (hasValueAt_of_mem_visits ha)
          cases hb : right.evaluate env with
          | error e' =>
              obtain rfl : e' = e := by
                rw [evaluate_binary_of_left_ok ha, hb] at h
                exact Except.error.inj h
              obtain ⟨p, hp, halike⟩ := ihright hb
              refine ⟨.second :: p, hp.operand _ rfl (fun _ => rfl) hleft, ?_⟩
              intro t' ht'
              cases ht' with
              | right _ _ ht' =>
                  rw [evaluate_binary_of_left_ok ha, halike _ ht']
                  rfl
          | ok b =>
              have hright := forall_hasValueAt_map .second (binary op left right)
                (fun _ => rfl) (hasValueAt_of_mem_visits hb)
              exact hroot _ rfl (List.forall_mem_append.2 ⟨hleft, hright⟩) (faulty_binary ha hb h)

end Evaluation

/-! ### Lines -/

/-- The expression that a line evaluates: what it defines its name by, or all of it. -/
def expression : Tree → Tree
  | define _ value => value
  | tree => tree

/-- The line with another expression. -/
def withExpression (tree other : Tree) : Tree :=
  match tree with
  | define name _ => define name other
  | _ => other

/-- A line fails exactly where its expression has no value. -/
theorem answer_execute_eq_error_iff {env : Environment} {tree : Tree} {e : ValueError} :
    (env.execute tree).answer = .error e ↔ tree.expression.evaluate env = .error e := by
  cases tree with
  | define name value =>
      rw [Environment.execute, expression]
      cases value.evaluate env <;> simp
  | number | var | unary | binary =>
      rw [Environment.execute, expression]
      · split <;> simp_all
      all_goals simp

/-- A line that fails binds nothing. -/
theorem env_execute_of_error {env : Environment} {tree : Tree} {e : ValueError}
    (h : (env.execute tree).answer = .error e) : (env.execute tree).env = env := by
  unfold Environment.execute at h ⊢
  split at h <;> split at h <;> simp_all

/-- What is changed behind the place of a fault does not make a definition of an expression. -/
theorem expression_withExpression {p : List Position} {tree other : Tree}
    (h : AlikeUpTo p tree.expression other) : (tree.withExpression other).expression = other := by
  cases tree with
  | define => rfl
  | number | var | unary | binary =>
      rw [expression] at h
      · cases h <;> rfl
      · simp

end Tree

namespace Environment

/-- **A line fails at the leftmost fault of its expression**, and nothing else of it matters.  The
nodes of a tree have all the children that they are asked for, so no line fails for want of one.  A
line that fails binds nothing; there is one place in its expression that is itself at fault while
all that is evaluated earlier has a value; and whatever stands to the right of that place, or below
a definition that stands there, the error is the same. -/
theorem fails_at_leftmost_fault (env : Environment) (tree : Tree) :
    (∀ t : Tree, t.evaluate env = t.lookUp env (Tree.evaluate env)) ∧
    tree.lookUpLine env (Tree.evaluate env)
      = (env.execute tree).answer.map (fun value? => ((env.execute tree).env, value?)) ∧
    (∀ e, (env.execute tree).answer ≠ .error (.shape e)) ∧
    ∀ e, (env.execute tree).answer = .error e →
      (env.execute tree).env = env ∧
      ∃ p, tree.expression.FailsAt env e p ∧
        (∀ q, tree.expression.FailsAt env e q → q = p) ∧
        ∀ other, Tree.AlikeUpTo p tree.expression other →
          (env.execute (tree.withExpression other)).answer = .error e := by
  have hfails : ∀ e, (env.execute tree).answer = .error e →
      ∃ p, tree.expression.FailsAt env e p ∧
        ∀ other, Tree.AlikeUpTo p tree.expression other → other.evaluate env = .error e :=
    fun e h => Tree.exists_failsAt (Tree.answer_execute_eq_error_iff.1 h)
  refine ⟨Tree.evaluate_eq_lookUp env, tree.lookUpLine_eq env, ?_, ?_⟩
  · intro e h
    obtain ⟨p, hp, -⟩ := hfails _ h
    obtain ⟨node, -, hfault⟩ := hp.fault
    cases hfault
  · intro e h
    obtain ⟨p, hp, halike⟩ := hfails e h
    refine ⟨Tree.env_execute_of_error h, p, hp, fun q hq => hp.unique hq, ?_⟩
    intro other hother
    refine Tree.answer_execute_eq_error_iff.2 ?_
    rw [Tree.expression_withExpression hother]
    exact halike other hother

/-- The definition of `y` by `-(7 / (x - 1)) + z`, in which two things are wrong where `x` is one
and `z` is not bound. -/
def twoFaults (right : Tree) : Tree :=
  .define "y" (.binary .add
    (.unary .neg (.binary .div (.number "7") (.binary .sub (.var "x") (.number "1")))) right)

theorem twoFaults_fails_at_division :
    ((empty.set "x" 1).execute (twoFaults (.var "z"))).answer
        = .error (.arithmetic .divisionByZero) ∧
      (twoFaults (.var "z")).expression.FailsAt (empty.set "x" 1) (.arithmetic .divisionByZero)
        [.first, .first] ∧
      ∀ right, ((empty.set "x" 1).execute (twoFaults right)).answer
        = .error (.arithmetic .divisionByZero) := by
  have hanswer : ((empty.set "x" 1).execute (twoFaults (.var "z"))).answer
      = .error (.arithmetic .divisionByZero) := rfl
  have hplace : (twoFaults (.var "z")).expression.FailsAt (empty.set "x" 1)
      (.arithmetic .divisionByZero) [.first, .first] := by
    have hdivision : Tree.Faulty (empty.set "x" 1)
        (.binary .div (.number "7") (.binary .sub (.var "x") (.number "1")))
        (.arithmetic .divisionByZero) := .binary (a := 7) (b := 0) rfl rfl rfl
    refine ⟨⟨[_, _, _, _], _, rfl, ?_⟩, _, rfl, hdivision⟩
    simp only [List.forall_mem_cons]
    exact ⟨⟨_, 7, rfl, rfl⟩, ⟨_, 1, rfl, rfl⟩, ⟨_, 1, rfl, rfl⟩, ⟨_, 0, rfl, rfl⟩, by simp⟩
  obtain ⟨-, -, -, hfails⟩ := fails_at_leftmost_fault (empty.set "x" 1) (twoFaults (.var "z"))
  obtain ⟨-, p, -, hunique, halike⟩ := hfails _ hanswer
  obtain rfl : [.first, .first] = p := hunique _ hplace
  exact ⟨hanswer, hplace, fun right => halike _ (.left _ (.unary _ (.here _)) _ right)⟩

end Environment

end Calculator
