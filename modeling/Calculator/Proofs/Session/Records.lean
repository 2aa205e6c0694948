/-
The trees that a line leaves in the log.

Reading and evaluating a line record what happened, and two kinds of event have a tree:
that a line was read, and that an expression got its value.  Neither is recorded of
any other tree than the one the line was read to.  An expression is read without a
tree being recorded, whatever brackets and levels are met on the way and however the
attempt ends; only behind the end of the line is its tree announced, and that is the
answer.

A line is made of parsers that are `Quiet`, which is to say that they record no tree, and
then of one that `Announces` its answer.
-/
import Calculator.Proofs.Parser.Parallel
import Calculator.Session

namespace Calculator

/-- The tree that an event is about, if it is about one. -/
def Event.tree? : Event → Option Tree
  | parsed tree => some tree
  | evaluated tree _ => some tree
  | unusedSymbol .. | matched .. | bound .. => none

namespace Parser

variable {σ α β : Type}

/-! ### Quiet parsers -/

/-- The parser records no tree. -/
def Quiet (r : Parser σ α) : Prop :=
  ∀ s step, r s = some step → ∀ e ∈ step.events, e.tree? = none

/-- A parser is quiet if it is made of parsers that are. -/
theorem Parallel.quiet [TokenStream σ] {r r' : Parser σ α}
    (h : Parallel (fun event => event.tree? = none) False r r') : r.Quiet := by
  induction h with
  | pure | fail =>
      intro s step hstep
      cases hstep
      simp
  | exhausted =>
      intro s step hstep
      cases hstep
  | goesOn h => exact h.elim
  | emit hevent =>
      intro s step hstep
      cases hstep
      simpa using hevent
  | token =>
      intro s step hstep
      unfold Parser.token at hstep
      split at hstep <;> cases hstep <;> simp
  | putBack =>
      intro s step hstep
      unfold Parser.putBack at hstep
      split at hstep <;> cases hstep <;> simp
  | bind _ _ ih ih' =>
      intro s step hstep
      rcases bind_cases hstep with ⟨e, -, hfirst⟩ | ⟨a, s', events, later, hfirst, hlater, rfl⟩
      · exact ih s _ hfirst
      · exact List.forall_mem_append.2 ⟨ih s _ hfirst, ih' a s' later hlater⟩

/-! ### The answer of a line -/

/-- The parser records no tree but the one it answers with. -/
def Announces (r : Parser σ (Option Tree)) : Prop :=
  ∀ s step, r s = some step → ∀ e ∈ step.events, ∀ t, e.tree? = some t →
    step.answer = .ok (some t)

private theorem Quiet.announces {r : Parser σ (Option Tree)} (h : r.Quiet) : r.Announces := by
  intro s step hstep e he t ht
  rw [h s step hstep e he] at ht
  cases ht

private theorem announces_bind {r : Parser σ α} {next : α → Parser σ (Option Tree)} (h : r.Quiet)
    (hnext : ∀ a, (next a).Announces) : (r >>= next).Announces := by
  intro s step hstep e he t ht
  rcases bind_cases hstep with ⟨e', -, hfirst⟩ | ⟨a, s', events, later, hfirst, hlater, rfl⟩
  · rw [h s _ hfirst e he] at ht
    cases ht
  · rcases List.mem_append.1 he with hevents | hevents
    · rw [h s _ hfirst e hevents] at ht
      cases ht
    · exact hnext a s' later hlater e hevents t ht

variable [TokenStream σ]

private theorem quiet_token : (token : Parser σ Token).Quiet :=
  Parallel.quiet .token

private theorem quiet_fail (e : ReadError) : (fail e : Parser σ α).Quiet :=
  Parallel.quiet (.fail e)

private theorem announces_finish (tree : Tree) :
    (finish tree : Parser σ (Option Tree)).Announces := by
  refine announces_bind quiet_token fun t => ?_
  split
  · intro s step hstep e he u hu
    cases hstep
    obtain rfl : e = .parsed tree := by simpa using he
    cases hu
    rfl
  · exact (quiet_fail _).announces

/-- **A line records no tree but its own.** -/
theorem announces_line (g : Grammar) (fuel : Nat) :
    (line g fuel : Parser σ (Option Tree)).Announces := by
  have hmatched : ∀ associativity op level, (Event.matched associativity op level).tree? = none :=
    fun _ _ _ => rfl
  have hexpression : (expression g fuel 0 : Parser σ Tree).Quiet :=
    (parallel_expression hmatched g (Nat.le_refl fuel) (Nat.lt_irrefl fuel) 0).quiet
  have hdefinition : (definition g fuel : Parser σ Tree).Quiet :=
    (parallel_definition hmatched g (Nat.le_refl fuel) (Nat.lt_irrefl fuel)).quiet
  have hputBack : (putBack : Parser σ Unit).Quiet := Parallel.quiet .putBack
  refine announces_bind quiet_token fun t => ?_
  cases t.kind with
  | stop =>
      have hnothing : (Pure.pure none : Parser σ (Option Tree)).Quiet := Parallel.quiet (.pure none)
      exact hnothing.announces
  | keyword => exact announces_bind hdefinition announces_finish
  | number | name | symbol | leftParen | rightParen | equals =>
      exact announces_bind hputBack fun _ => announces_bind hexpression announces_finish

end Parser

/-! ### Reading and evaluating -/

/-- Evaluation records no tree but the one it is given. -/
theorem Environment.eq_of_mem_events {env : Environment} {tree t : Tree} {e : Event}
    (he : e ∈ (env.execute tree).events) (ht : e.tree? = some t) : t = tree := by
  cases tree with
  | define name value =>
      rw [execute] at he
      split at he
      · obtain rfl : e = .bound name _ := by simpa using he
        cases ht
      · cases he
  | number | var | unary | binary =>
      simp only [execute] at he
      split at he
      · rw [List.mem_singleton] at he
        rw [he] at ht
        exact (Option.some.inj ht).symm
      · cases he

namespace Session

variable {s : Session} {text : String} {t : Tree}

/-- **A session records no tree of a line but the one it was read to.** -/
theorem read_of_mem_events {e : Event} (he : e ∈ (s.run text).events) (ht : e.tree? = some t) :
    (s.read text).answer = .ok (some t) := by
  have hline : ∀ e ∈ (s.read text).events, e.tree? = some t →
      (s.read text).answer = .ok (some t) := by
    intro e he ht
    have hread := (s.reader.reset text).readLine?_budget
    obtain ⟨step, hstep, hdone⟩ := Option.map_eq_some_iff.1 hread
    have hanswer : (s.read text).answer = step.answer.mapError .ofReading := by
      rw [Session.read, ← hdone]
    have hevents : (s.read text).events = step.events := by
      rw [Session.read, ← hdone]
    rw [hevents] at he
    rw [hanswer, Parser.announces_line _ _ _ _ hstep e he t ht]
    rfl
  unfold Session.run at he
  simp only at he
  split at he
  · exact hline e he ht
  · rename_i tree? hread
    rcases List.mem_append.1 he with hmem | hmem
    · exact hline e hmem ht
    · cases tree? with
      | none => cases hmem
      | some tree => rw [hread, Environment.eq_of_mem_events hmem ht]

end Session

end Calculator
