/-
Trees that a line can stand for.

A tree may hold any text and any node anywhere.  One that was read off the tokens of
a line holds less: its numbers are numerals, and a definition stands at the root if
anywhere.  On such trees evaluation has two ways to fail, a name that is not bound
and an operation that has no value; the others need a tree that no line stands for.
-/
import Calculator.Evaluation.Value
import Calculator.Proofs.Parser.Derivation
import Calculator.Proofs.Token.Lexeme

namespace Calculator

/-- An expression whose numbers are numerals. -/
def Tree.Evaluable : Tree → Prop
  | .number digits => Decimal.isNumeral digits = true
  | .var _ => True
  | .unary _ operand => operand.Evaluable
  | .binary _ left right => left.Evaluable ∧ right.Evaluable
  | .define _ _ => False

/-- The tree of a line: an expression or the definition of a name by one. -/
def Tree.Executable : Tree → Prop
  | .define _ value => value.Evaluable
  | tree => tree.Evaluable

/-- The error says something about the line, not about the tree. -/
def ValueError.IsOfLine : ValueError → Prop
  | .unbound _ | .arithmetic _ => True
  | .notEvaluable _ | .notDigits _ | .shape _ => False

theorem Tree.Evaluable.executable {tree : Tree} (h : tree.Evaluable) : tree.Executable := by
  cases tree with
  | define => exact absurd h id
  | number | var | unary | binary => exact h

/-- **An expression fails only for what it says.** -/
theorem Tree.Evaluable.isOfLine {env : Environment} {tree : Tree} {e : ValueError}
    (ht : tree.Evaluable) (h : tree.evaluate env = .error e) : e.IsOfLine := by
  induction tree generalizing e with
  | number digits =>
      have hdigits : Decimal.isNumeral digits = true := ht
      simp [evaluate, numberValue, hdigits] at h
  | var name =>
      rw [evaluate, Environment.value] at h
      split at h
      · cases h
      · cases h
        trivial
  | unary op operand ih =>
      rw [evaluate] at h
      cases hv : operand.evaluate env with
      | error e' =>
          rw [hv] at h
          cases h
          exact ih ht hv
      | ok v =>
          rw [hv] at h
          cases h
  | binary op left right ihl ihr =>
      rw [evaluate] at h
      cases hl : left.evaluate env with
      | error e' =>
          rw [hl] at h
          cases h
          exact ihl ht.1 hl
      | ok a =>
          cases hr : right.evaluate env with
          | error e' =>
              rw [hl, hr] at h
              cases h
              exact ihr ht.2 hr
          | ok b =>
              rw [hl, hr] at h
              change (op.apply a b).mapError .arithmetic = .error e at h
              cases happly : op.apply a b with
              | error e' =>
                  rw [happly] at h
                  cases h
                  trivial
              | ok v =>
                  rw [happly] at h
                  cases h
  | define name value => exact absurd ht id

/-- A line fails where the tree of its value fails. -/
theorem Environment.evaluate_of_execute {env : Environment} {tree : Tree} {e : ValueError}
    (h : (env.execute tree).answer = .error e) :
    (∃ name value, tree = .define name value ∧ value.evaluate env = .error e) ∨
      ((∀ name value, tree ≠ .define name value) ∧ tree.evaluate env = .error e) := by
  unfold execute at h
  split at h
  · rename_i name value
    split at h
    · cases h
    · rename_i hvalue
      cases h
      exact Or.inl ⟨name, value, rfl, hvalue⟩
  · rename_i hne
    split at h
    · cases h
    · rename_i hvalue
      cases h
      exact Or.inr ⟨hne, hvalue⟩

/-- A line fails only for what it says. -/
theorem Tree.Executable.isOfLine {env : Environment} {tree : Tree} {e : ValueError}
    (ht : tree.Executable) (h : (env.execute tree).answer = .error e) : e.IsOfLine := by
  rcases Environment.evaluate_of_execute h with ⟨name, value, rfl, herror⟩ | ⟨hne, herror⟩
  · have hvalue : value.Evaluable := ht
    exact hvalue.isOfLine herror
  · cases tree with
    | define name value => exact absurd rfl (hne name value)
    | number | var | unary | binary => exact Evaluable.isOfLine ht herror

namespace Grammar

variable {g : Grammar} {v : Lexicon}

/-- What a part stands for is an expression; a chain only carries on what it begins with. -/
def IsExpression : Part → Tree → Prop
  | .chain _ left, tree => left.Evaluable → tree.Evaluable
  | .expression _, tree | .operand, tree => tree.Evaluable

/-- **Well-formed tokens stand for expressions.** -/
theorem Derives.isExpression {part : Part} {ts : List Token} {tree : Tree}
    (h : g.Derives part ts tree) (hts : ∀ t ∈ ts, t.WellFormed v) : IsExpression part tree := by
  induction h with
  | operand _ _ ih => exact ih hts
  | left _ _ _ ih ih' =>
      obtain ⟨hts, hus⟩ := List.forall_mem_append.1 hts
      exact ih' hus (ih hts)
  | chainEnd => exact id
  | chainLink _ _ _ ih ih' =>
      obtain ⟨hts, hus⟩ := List.forall_mem_append.1 (List.forall_mem_cons.1 hts).2
      exact fun hleft => ih' hus ⟨hleft, ih hts⟩
  | rightOne _ _ ih => exact ih hts
  | right _ _ _ _ ih ih' =>
      obtain ⟨hts, hus⟩ := List.forall_mem_append.1 hts
      exact ⟨ih hts, ih' (List.forall_mem_cons.1 hus).2⟩
  | @number t ht =>
      have hwf : t.WellFormed v := hts t List.mem_cons_self
      simp only [Token.WellFormed, ht] at hwf
      exact hwf
  | name => trivial
  | bracket _ _ _ ih =>
      exact ih (List.forall_mem_append.1 (List.forall_mem_cons.1 hts).2).1
  | sign _ _ ih => exact ih (List.forall_mem_cons.1 hts).2

theorem Sentence.executable {ts : List Token} {tree : Tree} (h : g.Sentence ts tree)
    (hts : ∀ t ∈ ts, t.WellFormed v) : tree.Executable := by
  cases h with
  | expression h =>
      have hevaluable : tree.Evaluable := h.isExpression hts
      exact hevaluable.executable
  | definition _ _ _ h =>
      refine h.isExpression (v := v) ?_
      simp only [List.forall_mem_cons] at hts
      exact hts.2.2.2

end Grammar

end Calculator
