/-
What every part of an expression keeps to.

A part of an expression begins where the one before it has ended, takes its tokens one
by one, and ends.  Three conditions on the stream go with that, and a fourth on the
errors a part may fail with.  `Conduct` is what they have to do with each other: which
of them holds next when a token is taken, when an operator is looked for, when an operand
is complete.  If each of these steps does its share, then every part keeps to the
conditions as a whole (`Conduct.keeps_all`), and that is the one induction on the budget.

Whatever is to be said of all parts is an instance: that reading uses up tokens, that a
token which is put back is the one just delivered, that a level leaves no operator
behind it.
-/
import Calculator.Parser.Expression

namespace Calculator

namespace Parser

variable {σ α β : Type}

/-! ### Conditions on what a parser gives -/

/-- If the parser gives a step on the stream, then either it succeeds and the one condition holds
of its answer and the stream afterwards, or it fails and the other one holds of its error and the
stream afterwards. -/
def Keeps (r : Parser σ α) (failed : ReadError → PushBack σ → Prop) (p : PushBack σ)
    (Q : α → PushBack σ → Prop) : Prop :=
  ∀ step, r p = some step →
    match step.answer with
    | .ok a => Q a step.tokens
    | .error e => failed e step.tokens

variable {failed : ReadError → PushBack σ → Prop} {p p' : PushBack σ} {Q : α → PushBack σ → Prop}
  {R : β → PushBack σ → Prop}

theorem Keeps.of_returns {r : Parser σ α} {a : α} (h : r.Keeps failed p Q)
    (hreturns : r.Returns p a p') : Q a p' := by
  obtain ⟨events, hstep⟩ := hreturns
  exact h _ hstep

theorem Keeps.mono {r : Parser σ α} {Q' : α → PushBack σ → Prop} (h : r.Keeps failed p Q)
    (hQ : ∀ a p', Q a p' → Q' a p') : r.Keeps failed p Q' := by
  intro step hstep
  have hkeeps := h step hstep
  cases hanswer : step.answer with
  | ok a =>
      rw [hanswer] at hkeeps
      exact hQ a _ hkeeps
  | error e =>
      rw [hanswer] at hkeeps
      exact hkeeps

private theorem keeps_exhausted : (exhausted : Parser σ α).Keeps failed p Q := by
  intro step h
  cases h

theorem keeps_pure {a : α} (h : Q a p) : (Pure.pure a : Parser σ α).Keeps failed p Q := by
  intro step hstep
  cases hstep
  exact h

theorem keeps_fail {e : ReadError} (h : failed e p) : (fail e : Parser σ α).Keeps failed p Q := by
  intro step hstep
  cases hstep
  exact h

theorem keeps_bind {r : Parser σ α} {next : α → Parser σ β} (h : r.Keeps failed p Q)
    (hnext : ∀ a p', Q a p' → (next a).Keeps failed p' R) : (r >>= next).Keeps failed p R := by
  intro step hstep
  rcases bind_cases hstep with ⟨e, herror, hfirst⟩ | ⟨a, p', events, later, hfirst, hlater, rfl⟩
  · rw [herror]
    exact h _ hfirst
  · exact hnext a p' (h _ hfirst) later hlater

/-- An event is no concern of the stream. -/
theorem keeps_emit_bind {event : Event} {next : Unit → Parser σ β}
    (h : (next ()).Keeps failed p R) : (emit event >>= next).Keeps failed p R := by
  refine keeps_bind (Q := fun _ p' => p' = p) ?_ ?_
  · intro step hstep
    cases hstep
    rfl
  · rintro _ _ rfl
    exact h

/-- The operator table is asked where one may fail, because it may know no answer. -/
theorem keeps_ofTable_bind {x : Except TableError α} {next : α → Parser σ β}
    (hfail : ∀ e, failed (.table e) p) (h : ∀ a, (next a).Keeps failed p R) :
    (ofTable x >>= next).Keeps failed p R := by
  refine keeps_bind (Q := fun _ p' => p' = p) ?_ ?_
  · cases x with
    | ok a => exact keeps_pure rfl
    | error e => exact keeps_fail (hfail e)
  · rintro a _ rfl
    exact h a

variable [TokenStream σ]

/-- Whatever condition is wanted behind a token has to hold of each that the stream may give, and of
each error. -/
theorem keeps_token {Q : Token → PushBack σ → Prop}
    (hok : ∀ t p', p.next = (.ok t, p') → Q t p')
    (herror : ∀ e p', p.next = (.error e, p') → failed (.token e) p') :
    (token : Parser σ Token).Keeps failed p Q := by
  intro step hstep
  unfold token at hstep
  split at hstep
  · rename_i t p' hnext
    cases hstep
    exact hok t p' hnext
  · rename_i e p' hnext
    cases hstep
    exact herror e p' hnext

/-- A token that can be put back is. -/
theorem keeps_putBack {Q : Unit → PushBack σ → Prop} (hput : p.putBack = .ok p') (h : Q () p') :
    (putBack : Parser σ Unit).Keeps failed p Q := by
  intro step hstep
  rw [putBack, hput] at hstep
  cases hstep
  exact h

/-! ### Conduct -/

/-- Where a part may begin, what holds behind a token that it has taken, and where an expression of
a level has ended; and each single step of reading leads from one of them to the next, or fails as
it may. -/
structure Conduct (g : Grammar) (failed : ReadError → PushBack σ → Prop)
    (begins : PushBack σ → Prop) (took : Token → PushBack σ → Prop)
    (ended : Nat → PushBack σ → Prop) : Prop where
  /-- Where a part may begin a token may be taken. -/
  token : ∀ {p}, begins p → (token : Parser σ Token).Keeps failed p took
  /-- Behind a bracket that opens and behind a sign a part begins. -/
  opens : ∀ {t p}, took t p → t.kind = .leftParen ∨ t.kind = .symbol → begins p
  /-- A number, a name and a bracket that closes are the end of an operand. -/
  closes : ∀ {t p}, took t p → t.kind = .number ∨ t.kind = .name ∨ t.kind = .rightParen →
    ended g.height p
  /-- An expression of any level ends like an operand, and so like one past the last level. -/
  loosens : ∀ {level level' p}, ended level p → g.height ≤ level' → ended level' p
  /-- Behind an expression another part may begin. -/
  resumes : ∀ {level p}, ended level p → begins p
  /-- A level goes on behind its operator, and ends where there is none. -/
  operator : ∀ {level p}, ended (level + 1) p →
    (operator g level).Keeps failed p fun op? p' =>
      match op? with
      | some _ => begins p'
      | none => ended level p'
  /-- A token may be refused, and the operator table may be at a loss with it. -/
  refuses : ∀ {t p e}, took t p → (∀ e', e ≠ .token e') → failed e p

variable {g : Grammar} {begins : PushBack σ → Prop} {took : Token → PushBack σ → Prop}
  {ended : Nat → PushBack σ → Prop}

/-- **Every part keeps to the conditions** if each single step does, on whatever budget. -/
theorem Conduct.keeps_all (h : Conduct g failed begins took ended) (fuel : Nat) :
    (∀ level p, begins p → (expression g fuel level).Keeps failed p fun _ p' => ended level p') ∧
    (∀ level left p, ended (level + 1) p →
      (chain g fuel level left).Keeps failed p fun _ p' => ended level p') ∧
    (∀ p, begins p → (operand g fuel).Keeps failed p fun _ p' => ended g.height p') := by
  induction fuel with
  | zero =>
      refine ⟨?_, ?_, ?_⟩
      · intro level p _
        rw [expression]
        exact keeps_exhausted
      · intro level left p _
        rw [chain]
        exact keeps_exhausted
      · intro p _
        rw [operand]
        exact keeps_exhausted
  | succ fuel ih =>
      obtain ⟨hexpression, hchain, hoperand⟩ := ih
      refine ⟨?_, ?_, ?_⟩
      · intro level p hp
        rw [expression]
        split
        · rename_i hlevel
          exact (hoperand p hp).mono fun _ _ hended => h.loosens hended hlevel
        · refine keeps_bind (hexpression (level + 1) p hp) fun left p hleft => ?_
          split
          · refine keeps_bind (h.operator hleft) fun op? p hop => ?_
            cases op? with
            | none => exact keeps_pure hop
            | some op =>
                refine keeps_emit_bind ?_
                exact keeps_bind (hexpression level p hop) fun _ _ hright => keeps_pure hright
          · exact hchain level left p hleft
      · intro level left p hp
        rw [chain]
        refine keeps_bind (h.operator hp) fun op? p hop => ?_
        cases op? with
        | none => exact keeps_pure hop
        | some op =>
            refine keeps_emit_bind ?_
            exact keeps_bind (hexpression (level + 1) p hop) fun right p hright =>
              hchain level _ p hright
      · intro p hp
        rw [operand]
        refine keeps_bind (h.token hp) fun t p ht => ?_
        cases hkind : t.kind with
        | number => exact keeps_pure (h.closes ht (.inl hkind))
        | name => exact keeps_pure (h.closes ht (.inr (.inl hkind)))
        | leftParen =>
            refine keeps_bind (hexpression 0 p (h.opens ht (.inl hkind))) fun inner p hinner => ?_
            refine keeps_bind (h.token (h.resumes hinner)) fun closing p hclosing => ?_
            split
            · rename_i hparen
              exact keeps_pure (h.closes hclosing (.inr (.inr hparen)))
            · exact keeps_fail (h.refuses hclosing (by simp))
        | symbol =>
            refine keeps_ofTable_bind (fun _ => h.refuses ht (by simp)) fun priority? => ?_
            cases priority? with
            | none => exact keeps_fail (h.refuses ht (by simp))
            | some priority =>
                refine keeps_ofTable_bind (fun _ => h.refuses ht (by simp)) fun op => ?_
                refine keeps_bind (hexpression _ p (h.opens ht (.inr hkind))) fun _ p htree => ?_
                exact keeps_pure (h.loosens htree (Nat.le_refl _))
        | stop | rightParen | equals | keyword => exact keeps_fail (h.refuses ht (by simp))

/-- An expression that may begin keeps to the conditions. -/
theorem Conduct.expression (h : Conduct g failed begins took ended) {fuel level : Nat}
    (hp : begins p) :
    (expression g fuel level).Keeps failed p fun _ p' => ended level p' :=
  (h.keeps_all fuel).1 level p hp

end Parser

end Calculator
