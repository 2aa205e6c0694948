/-
A budget that is always enough.

Reading recurses through the levels and, behind a bracket or a sign, begins again at
a looser one.  Levels alone do not decrease.  Tokens alone do not decrease either: an
expression calls the next tighter level where it stands itself, and a token that is put
back is to come once more.  The pair does.  Wherever a call does not hand over its own
stream to a tighter level, a token has been used up for good, by an operator, a bracket, a
sign, or an expression that has succeeded (`Calls.decreases`).

What counts as the tokens to come is left open: a `Measure` is any number that goes with
a stream, that a token takes something off and a token that is put back adds one to.
One token pays for a descent through all levels; `budget` allows that for every token
and for one descent more.
-/
import Calculator.Parser.Calls
import Calculator.Parser.Conduct

namespace Calculator

/-- What one descent through the levels of a grammar costs. -/
def Grammar.descent (g : Grammar) : Nat :=
  g.height + 3

/-- A budget for all that can be read with so many tokens to come. -/
def Grammar.budget (g : Grammar) (remaining : Nat) : Nat :=
  (remaining + 1) * g.descent

/-- Fewer tokens need no more. -/
theorem Grammar.budget_mono (g : Grammar) {m n : Nat} (h : m ≤ n) : g.budget m ≤ g.budget n :=
  Nat.mul_le_mul_right _ (Nat.succ_le_succ h)

namespace Parser

/-- The tokens that pay for a jump leave enough for a descent. -/
theorem mul_descent_lt {g : Grammar} {m n : Nat} (h : m < n) :
    m * g.descent + g.height + 3 ≤ n * g.descent := by
  have : (m + 1) * g.descent ≤ n * g.descent := Nat.mul_le_mul_right _ h
  rw [Nat.add_mul, Nat.one_mul] at this
  simp only [Grammar.descent] at *
  omega

theorem mul_descent_le {g : Grammar} {m n : Nat} (h : m ≤ n) :
    m * g.descent ≤ n * g.descent :=
  Nat.mul_le_mul_right _ h

/-! ### Tokens to come -/

/-- A number goes with a stream that bounds the tokens to come, the one that is held among them. -/
structure Measure {σ : Type} [TokenStream σ] (M : PushBack σ → Nat → Prop) : Prop where
  /-- A token takes something off. -/
  token : ∀ {p p' n t}, M p n → (token : Parser σ Token).Returns p t p' → ∃ k, k < n ∧ M p' k
  /-- A token that is put back adds one. -/
  putBack : ∀ {p p' n}, M p n → (putBack : Parser σ Unit).Returns p () p' → M p' (n + 1)

/-- The tokens to come of a finite stream are a measure. -/
theorem measure_remaining {σ : Type} [FiniteStream σ] :
    Measure fun (p : PushBack σ) n => p.remaining = n := by
  refine ⟨?_, ?_⟩
  · rintro p p' _ t rfl ⟨events, hstep⟩
    unfold token at hstep
    split at hstep <;> cases hstep
    rename_i hnext
    exact ⟨_, PushBack.remaining_lt hnext, rfl⟩
  · rintro p p' _ rfl ⟨events, hstep⟩
    unfold putBack at hstep
    split at hstep <;> cases hstep
    rename_i hput
    exact PushBack.remaining_of_putBack hput

namespace Measure

variable {σ : Type} [TokenStream σ] {M : PushBack σ → Nat → Prop} {g : Grammar} {p p' : PushBack σ}
  {n : Nat}

/-- Any error will do. -/
private theorem keeps_token (hM : Measure M) (h : M p n) :
    (Parser.token : Parser σ Token).Keeps (fun _ _ => True) p fun _ p' => ∃ k, k < n ∧ M p' k := by
  refine Parser.keeps_token ?_ (fun _ _ _ => trivial)
  intro t p' hnext
  exact hM.token h ⟨[], by rw [Parser.token, hnext]⟩

/-- An operator uses up its token; if there is none, nothing is lost. -/
private theorem keeps_operator (hM : Measure M) (h : M p n) (level : Nat) :
    (operator g level).Keeps (fun _ _ => True) p fun op? p' =>
      match op? with
      | some _ => ∃ k, k < n ∧ M p' k
      | none => ∃ k, k ≤ n ∧ M p' k := by
  refine keeps_bind (hM.keeps_token h) fun t p' ht => ?_
  split
  · exact keeps_pure ht
  · obtain ⟨k, hk, hp'⟩ := ht
    refine keeps_bind (Q := fun _ p'' => M p'' (k + 1)) ?_ fun _ _ hput => keeps_pure ⟨_, hk, hput⟩
    intro step hstep
    obtain ⟨answer, p'', events⟩ := step
    cases answer with
    | ok a => exact hM.putBack hp' ⟨events, hstep⟩
    | error e => trivial

/-- Behind any part of what began with so many tokens to come there are fewer. -/
private theorem conduct (hM : Measure M) (n : Nat) :
    Conduct g (fun _ _ => True) (fun p => ∃ k, k ≤ n ∧ M p k) (fun _ p => ∃ k, k < n ∧ M p k)
      (fun _ p => ∃ k, k < n ∧ M p k) where
  token := by
    rintro p ⟨k, hk, hp⟩
    refine (hM.keeps_token hp).mono ?_
    rintro _ p' ⟨m, hm, hp'⟩
    exact ⟨m, Nat.lt_of_lt_of_le hm hk, hp'⟩
  opens := fun ⟨k, hk, hp⟩ _ => ⟨k, Nat.le_of_lt hk, hp⟩
  closes := fun h _ => h
  loosens := fun h _ => h
  resumes := fun ⟨k, hk, hp⟩ => ⟨k, Nat.le_of_lt hk, hp⟩
  operator := by
    rintro level p ⟨k, hk, hp⟩
    refine (hM.keeps_operator hp level).mono ?_
    rintro (_ | op) p' ⟨m, hm, hp'⟩
    · exact ⟨m, Nat.lt_of_le_of_lt hm hk, hp'⟩
    · exact ⟨m, Nat.le_of_lt (Nat.lt_trans hm hk), hp'⟩
  refuses := fun _ _ => trivial

theorem operator (hM : Measure M) {level : Nat} {op : BinaryOp} (h : M p n)
    (hop : (Parser.operator g level).Returns p (some op) p') : ∃ k, k < n ∧ M p' k :=
  (hM.keeps_operator h level).of_returns hop

/-- **An expression that succeeds has used up a token**, on whatever budget. -/
theorem expression (hM : Measure M) {fuel level : Nat} {tree : Tree} (h : M p n)
    (htree : (Parser.expression g fuel level).Returns p tree p') : ∃ k, k < n ∧ M p' k :=
  ((hM.conduct n).expression ⟨n, Nat.le_refl n, h⟩).of_returns htree

end Measure

/-! ### Coming to an end -/

variable {σ : Type} [TokenStream σ] {M : PushBack σ → Nat → Prop} {g : Grammar} {p : PushBack σ}
  {n : Nat}

/-- **Along a call the tokens to come decrease, or they stay and the rank does.** -/
theorem Calls.decreases (hM : Measure M) {x y : Part × PushBack σ} (h : Calls g x y)
    (hn : M x.2 n) :
    ∃ k, M y.2 k ∧ Prod.Lex (· < ·) (· < ·) (k, rank g y.1) (n, rank g x.1) := by
  cases h with
  | operand => exact ⟨n, hn, .right _ (Nat.succ_pos _)⟩
  | tighter hlevel =>
      refine ⟨n, hn, .right _ ?_⟩
      simp only [rank]
      omega
  | right _ hleft _ hop =>
      obtain ⟨m, hm, hmid⟩ := hM.expression hn hleft
      obtain ⟨k, hk, hlast⟩ := hM.operator hmid hop
      exact ⟨k, hlast, .left _ _ (Nat.lt_trans hk hm)⟩
  | chain _ hleft _ =>
      obtain ⟨k, hk, hlast⟩ := hM.expression hn hleft
      exact ⟨k, hlast, .left _ _ hk⟩
  | link hop =>
      obtain ⟨k, hk, hlast⟩ := hM.operator hn hop
      exact ⟨k, hlast, .left _ _ hk⟩
  | again hop hright =>
      obtain ⟨m, hm, hmid⟩ := hM.operator hn hop
      obtain ⟨k, hk, hlast⟩ := hM.expression hmid hright
      exact ⟨k, hlast, .left _ _ (Nat.lt_trans hk hm)⟩
  | bracket ht =>
      obtain ⟨k, hk, hlast⟩ := hM.token hn ht
      exact ⟨k, hlast, .left _ _ hk⟩
  | sign ht =>
      obtain ⟨k, hk, hlast⟩ := hM.token hn ht
      exact ⟨k, hlast, .left _ _ hk⟩

/-- **A part is read to an end** on every budget beyond the longest chain of calls. -/
theorem isSome_part (hM : Measure M) {fuel : Nat} {c : Part} (hn : M p n)
    (h : n * (g.height + 2) + rank g c < fuel) : (part g fuel c p).isSome = true := by
  induction fuel generalizing c p n with
  | zero => exact absurd h (Nat.not_lt_zero _)
  | succ fuel ih =>
      refine isSome_of_calls fun c' p' hcall => ?_
      obtain ⟨k, hk, hlex⟩ := hcall.decreases hM hn
      refine ih hk ?_
      rcases Prod.lex_def.1 hlex with hlt | ⟨heq, hrank⟩
      · -- What a token pays for is more than any rank.
        have hpaid : (k + 1) * (g.height + 2) ≤ n * (g.height + 2) := Nat.mul_le_mul_right _ hlt
        have hrank := rank_le g c'
        rw [Nat.add_mul, Nat.one_mul] at hpaid
        omega
      · obtain rfl : k = n := heq
        have hrank' : rank g c' < rank g c := hrank
        omega

/-- An expression of any level ends within the budget. -/
theorem isSome_expression (hM : Measure M) {fuel level : Nat} (hn : M p n)
    (h : g.budget n ≤ fuel) : (expression g fuel level p).isSome = true := by
  refine isSome_part hM (c := .expression level) hn (Nat.lt_of_lt_of_le ?_ h)
  have hrank := rank_le g (.expression level)
  simp only [Grammar.budget, Grammar.descent, Nat.add_mul, Nat.mul_add, Nat.one_mul]
  omega

end Parser

end Calculator
