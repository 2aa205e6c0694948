/-
The parsers of a line on two streams and two budgets.

A parser asks for the next token and puts the last one back, and whatever else the states
of a stream hold makes no difference to it; nor does its budget, as long as it is enough.
So two parsers of a line that differ only in these two are put together alike.

`Parallel` says that of two parsers: they are made, step by step, of the same six that call
no other, and where the one has used up its budget the other may go on.  It also lists
which events are reported on the way.  That the parsers of a line are parallel takes
the one induction on the budget (`parallel_line`).  What is to be said of two of them, or
of one that is parallel to itself, is then an induction over how they are made: that a
larger budget changes nothing (`extends_line`), that streams which answer alike are read
alike (`mirrored_line`).

It is no use where it matters what comes before a parser, as it does for a token that is
put back.
-/
import Calculator.LineReader
import Calculator.Proofs.Token.Delivery

namespace Calculator

namespace Parser

variable {σ τ α β : Type} [TokenStream σ] [TokenStream τ]

/-! ### Two parsers that are made alike -/

/-- The parsers are made alike of the parsers that call no other, and all events that they report
are of the kind.  Where the first has used up its budget the second may do anything, if that is
allowed. -/
inductive Parallel (kind : Event → Prop) (mayGoOn : Prop) :
    {α : Type} → Parser σ α → Parser τ α → Prop
  | pure {α : Type} (a : α) : Parallel kind mayGoOn (Pure.pure a : Parser σ α) (Pure.pure a)
  | fail {α : Type} (e : ReadError) : Parallel kind mayGoOn (fail e : Parser σ α) (fail e)
  | exhausted {α : Type} : Parallel kind mayGoOn (exhausted : Parser σ α) exhausted
  | goesOn {α : Type} (h : mayGoOn) (r : Parser τ α) :
      Parallel kind mayGoOn (exhausted : Parser σ α) r
  | emit {event : Event} (h : kind event) : Parallel kind mayGoOn (emit event) (emit event)
  | token : Parallel kind mayGoOn token token
  | putBack : Parallel kind mayGoOn putBack putBack
  | bind {α β : Type} {r : Parser σ α} {r' : Parser τ α} {next : α → Parser σ β}
      {next' : α → Parser τ β} (h : Parallel kind mayGoOn r r')
      (hnext : ∀ a, Parallel kind mayGoOn (next a) (next' a)) :
      Parallel kind mayGoOn (r >>= next) (r' >>= next')

section Line

variable {kind : Event → Prop} {mayGoOn : Prop}

private theorem parallel_ofTable {α : Type} (x : Except TableError α) :
    Parallel kind mayGoOn (ofTable x : Parser σ α) (ofTable x : Parser τ α) := by
  cases x with
  | ok a => exact .pure a
  | error e => exact .fail _

private theorem parallel_operator (g : Grammar) (level : Nat) :
    Parallel kind mayGoOn (operator g level : Parser σ (Option BinaryOp))
      (operator g level : Parser τ (Option BinaryOp)) := by
  refine .bind .token fun t => ?_
  cases g.tokenOp? level t with
  | some op => exact .pure _
  | none => exact .bind .putBack fun _ => .pure _

variable (hmatched : ∀ associativity op level, kind (.matched associativity op level))

include hmatched

/-- With the smaller budget first, every part is made alike. -/
theorem parallel_all (g : Grammar) {fuel fuel' : Nat} (hle : fuel ≤ fuel')
    (hgo : fuel < fuel' → mayGoOn) :
    (∀ level, Parallel kind mayGoOn (expression g fuel level : Parser σ Tree)
      (expression g fuel' level : Parser τ Tree)) ∧
    (∀ level left, Parallel kind mayGoOn (chain g fuel level left : Parser σ Tree)
      (chain g fuel' level left : Parser τ Tree)) ∧
    Parallel kind mayGoOn (operand g fuel : Parser σ Tree) (operand g fuel' : Parser τ Tree) := by
  induction fuel generalizing fuel' with
  | zero =>
      have hstart : ∀ r : Parser τ Tree, (fuel' = 0 → r = exhausted) →
          Parallel kind mayGoOn (exhausted : Parser σ Tree) r := by
        intro r hr
        rcases Nat.eq_zero_or_pos fuel' with hzero | hpos
        · rw [hr hzero]
          exact .exhausted
        · exact .goesOn (hgo hpos) r
      refine ⟨?_, ?_, ?_⟩
      · intro level
        rw [expression]
        refine hstart _ ?_
        rintro rfl
        rw [expression]
      · intro level left
        rw [chain]
        refine hstart _ ?_
        rintro rfl
        rw [chain]
      · rw [operand]
        refine hstart _ ?_
        rintro rfl
        rw [operand]
  | succ fuel ih =>
      obtain ⟨fuel', rfl⟩ : ∃ k, fuel' = k + 1 := ⟨fuel' - 1, by omega⟩
      obtain ⟨he, hch, ho⟩ := ih (Nat.le_of_succ_le_succ hle) fun h => hgo (Nat.succ_lt_succ h)
      refine ⟨?_, ?_, ?_⟩
      · intro level
        rw [expression, expression]
        split
        · exact ho
        · refine .bind (he (level + 1)) fun left => ?_
          split
          · refine .bind (parallel_operator g level) fun op? => ?_
            cases op? with
            | none => exact .pure _
            | some op =>
                refine .bind (.emit (hmatched _ _ _)) fun _ => ?_
                exact .bind (he level) fun _ => .pure _
          · exact hch level left
      · intro level left
        rw [chain, chain]
        refine .bind (parallel_operator g level) fun op? => ?_
        cases op? with
        | none => exact .pure _
        | some op =>
            refine .bind (.emit (hmatched _ _ _)) fun _ => ?_
            exact .bind (he (level + 1)) fun right => hch level _
      · rw [operand, operand]
        refine .bind .token fun t => ?_
        cases t.kind with
        | number | name => exact .pure _
        | leftParen =>
            refine .bind (he 0) fun inner => .bind .token fun closing => ?_
            split
            · exact .pure _
            · exact .fail _
        | symbol =>
            refine .bind (parallel_ofTable _) fun priority? => ?_
            cases priority? with
            | none => exact .fail _
            | some priority =>
                exact .bind (parallel_ofTable _) fun op => .bind (he _) fun _ => .pure _
        | stop | rightParen | equals | keyword => exact .fail _

theorem parallel_expression (g : Grammar) {fuel fuel' : Nat} (hle : fuel ≤ fuel')
    (hgo : fuel < fuel' → mayGoOn) (level : Nat) :
    Parallel kind mayGoOn (expression g fuel level : Parser σ Tree)
      (expression g fuel' level : Parser τ Tree) :=
  (parallel_all hmatched g hle hgo).1 level

theorem parallel_definition (g : Grammar) {fuel fuel' : Nat} (hle : fuel ≤ fuel')
    (hgo : fuel < fuel' → mayGoOn) :
    Parallel kind mayGoOn (definition g fuel : Parser σ Tree)
      (definition g fuel' : Parser τ Tree) := by
  refine .bind .token fun name => ?_
  split
  · refine .bind .token fun sign => ?_
    split
    · exact .bind (parallel_expression hmatched g hle hgo 0) fun _ => .pure _
    · exact .fail _
  · exact .fail _

/-- **The parsers of a line are made alike** on any two streams, and report operators and the
tree. -/
theorem parallel_line (hparsed : ∀ tree, kind (.parsed tree)) (g : Grammar) {fuel fuel' : Nat}
    (hle : fuel ≤ fuel') (hgo : fuel < fuel' → mayGoOn) :
    Parallel kind mayGoOn (line g fuel : Parser σ (Option Tree))
      (line g fuel' : Parser τ (Option Tree)) := by
  have hfinish : ∀ tree, Parallel kind mayGoOn (finish tree : Parser σ (Option Tree))
      (finish tree : Parser τ (Option Tree)) := by
    intro tree
    refine .bind .token fun t => ?_
    split
    · exact .bind (.emit (hparsed tree)) fun _ => .pure _
    · exact .fail _
  refine .bind .token fun t => ?_
  cases t.kind with
  | stop => exact .pure _
  | keyword => exact .bind (parallel_definition hmatched g hle hgo) hfinish
  | number | name | symbol | leftParen | rightParen | equals =>
      exact .bind .putBack fun _ => .bind (parallel_expression hmatched g hle hgo 0) hfinish

end Line

/-! ### More budget changes nothing -/

/-- Every step that the first parser gives, the second gives too. -/
def Extends (r r' : Parser σ α) : Prop :=
  ∀ p step, r p = some step → r' p = some step

theorem Parallel.extends {kind : Event → Prop} {mayGoOn : Prop} {r r' : Parser σ α}
    (h : Parallel kind mayGoOn r r') : Extends r r' := by
  induction h with
  | pure | fail | emit | token | putBack => exact fun _ _ hstep => hstep
  | exhausted | goesOn =>
      intro p step hstep
      cases hstep
  | bind _ _ ih ih' =>
      intro p step hstep
      rcases bind_cases hstep with ⟨e, herror, hfirst⟩ | ⟨a, p', events, later, hfirst, hlater, rfl⟩
      · rw [bind_of_error (ih p _ hfirst), ← herror]
      · exact bind_of_ok (ih p _ hfirst) (ih' a p' _ hlater)

/-- **A line that is read on some budget is read the same on every larger one.** -/
theorem extends_line {g : Grammar} {fuel fuel' : Nat} (h : fuel ≤ fuel') :
    Extends (line g fuel : Parser σ (Option Tree)) (line g fuel') := by
  have hparallel : Parallel (fun _ => True) True (line g fuel : Parser σ (Option Tree))
      (line g fuel' : Parser σ (Option Tree)) :=
    parallel_line (fun _ _ _ => trivial) (fun _ => trivial) g h fun _ => trivial
  exact hparallel.extends

/-! ### A parser knows a stream by its answers -/

end Parser

section Maps

variable {σ τ α : Type}

/-- The same with another stream within. -/
def PushBack.map (f : σ → τ) (s : PushBack σ) : PushBack τ where
  stream := f s.stream
  held := s.held

/-- The same step on another stream. -/
def Step.map (f : σ → τ) (step : Step σ α) : Step τ α where
  answer := step.answer
  tokens := step.tokens.map f
  events := step.events

/-- What the states of one stream answer, their images answer too. -/
structure Mirrors [TokenStream σ] [TokenStream τ] (f : σ → τ) : Prop where
  next : ∀ s, TokenStream.next (f s) = ((TokenStream.next s).1, f (TokenStream.next s).2)
  last? : ∀ s, TokenStream.last? (f s) = TokenStream.last? s

end Maps

namespace Parser

variable {σ τ α : Type} [TokenStream σ] [TokenStream τ]

/-- On the image of a stream the second parser gives the image of what the first gives. -/
def Mirrored (f : σ → τ) (r : Parser σ α) (r' : Parser τ α) : Prop :=
  ∀ s, r' (s.map f) = (r s).map (Step.map f)

private theorem Parallel.mirrored {kind : Event → Prop} {f : σ → τ} (hf : Mirrors f)
    {r : Parser σ α} {r' : Parser τ α} (h : Parallel kind False r r') : Mirrored f r r' := by
  induction h with
  | pure | fail | emit | exhausted => exact fun _ => rfl
  | goesOn h => exact h.elim
  | token =>
      intro s
      cases hheld : s.held with
      | some t => simp [Parser.token, PushBack.next, PushBack.map, Step.map, hheld]
      | none =>
          simp only [Parser.token, PushBack.next, PushBack.map, hheld, hf.next]
          cases (TokenStream.next s.stream).1 <;> rfl
  | putBack =>
      rintro ⟨stream, held⟩
      simp only [Parser.putBack, PushBack.putBack, PushBack.map, hf.last?]
      cases held with
      | some t => rfl
      | none => cases TokenStream.last? stream <;> rfl
  | @bind _ _ r r' next next' _ _ ih ih' =>
      intro s
      have hb : (r >>= next) s = Parser.bind r next s := rfl
      have hb' : (r' >>= next') (s.map f) = Parser.bind r' next' (s.map f) := rfl
      rw [hb, hb', Parser.bind, Parser.bind, ih s]
      cases r s with
      | none => rfl
      | some first =>
          obtain ⟨answer, s', events⟩ := first
          cases answer with
          | error e => rfl
          | ok a =>
              simp only [Option.map_some, Step.map, ih' a s']
              cases next a s' <;> rfl

/-- **A line is read alike off streams that answer alike.** -/
theorem mirrored_line {f : σ → τ} (hf : Mirrors f) (g : Grammar) (fuel : Nat) :
    Mirrored f (line g fuel) (line g fuel) := by
  have hparallel : Parallel (fun _ => True) False (line g fuel : Parser σ (Option Tree))
      (line g fuel : Parser τ (Option Tree)) :=
    parallel_line (fun _ _ _ => trivial) (fun _ => trivial) g (Nat.le_refl _) (Nat.lt_irrefl _)
  exact hparallel.mirrored hf

end Parser

end Calculator
