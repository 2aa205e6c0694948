/-
The parser reads what can be read and refuses the rest.

`Reads` says how a part is read and `follow` says where a line goes wrong.  Here
they are shown to be what the parser does: on closed items, and with a budget that
covers them, it either gives a tree that the items read to, or the error at which
following them goes wrong (`answers_all`).  Either way the stream behind it delivers
what is left of the items, so what one part leaves is what the next one finds.

The induction is on the budget, for all three parsers at once, and the budget is
counted in items just as `isSome_part` counts it in tokens to come.  Nothing is asked of the
stream beyond the items, so this holds for streams that never end too.
-/
import Calculator.Parser.Line
import Calculator.Proofs.Parser.Following
import Calculator.Proofs.Parser.Outcome

namespace Calculator

namespace Parser

open Grammar

variable {σ : Type} [TokenStream σ]

/-- The parser has failed with the error at which following some items goes wrong, at whatever depth
they are followed.  It holds no token, and what is left of the items lies ahead of it. -/
def Refused (g : Grammar) (front : Nat → Expectation) (is : List Item) (m : PushBack σ)
    (e : ReadError) (s : PushBack σ) : Prop :=
  s.held = none ∧ ∃ rest, Delivers s rest m ∧ ∀ depth, g.follow (front depth) is = .wrong e rest

/-- Items that can be followed to others hand the error of those on. -/
theorem Refused.of_follow {g : Grammar} {front front' : Nat → Expectation} {is is' : List Item}
    {s m : PushBack σ} {e : ReadError} (h : Refused g front' is' m e s)
    (hf : ∀ depth, ∃ depth', g.follow (front depth) is = g.follow (front' depth') is') :
    Refused g front is m e s := by
  obtain ⟨hheld, rest, hd, hwrong⟩ := h
  refine ⟨hheld, rest, hd, ?_⟩
  intro depth
  obtain ⟨depth', hdepth⟩ := hf depth
  rw [hdepth, hwrong]

/-- An error of the stream is where following goes wrong. -/
theorem refused_error {g : Grammar} {front : Nat → Expectation} {s m : PushBack σ}
    {e : TokenError} {rest : List Item} (hheld : s.held = none) (hd : Delivers s rest m) :
    Refused g front (.error e :: rest) m (.token e) s :=
  ⟨hheld, rest, hd, fun _ => by rw [follow]⟩

/-- A token that cannot come next is where following goes wrong. -/
theorem refused_token {g : Grammar} {front : Nat → Expectation} {s m : PushBack σ} {t : Token}
    {e : ReadError} {rest : List Item} (hread : s.JustRead t) (hd : Delivers s rest m)
    (h : ∀ depth, g.advance (front depth) t = .error e) :
    Refused g front (.ok t :: rest) m e s :=
  ⟨hread.held, rest, hd, fun depth => follow_wrong (h depth)⟩

/-- What the parser of a part answers: a tree that the items read to, or where following them goes
wrong. -/
def Answers (g : Grammar) (part : Part) (is : List Item) (m : PushBack σ) :
    Except ReadError Tree → PushBack σ → Prop
  | .ok tree, s => ∃ rest, g.Reads part is tree rest ∧ Delivers s rest m
  | .error e, s => Refused g (fun depth => before depth part) is m e s

/-- What the parser of an operator answers: the operator that comes next, or none of the level, or
the error that is there instead. -/
def OperatorAnswers (g : Grammar) (level : Nat) (is : List Item) (m : PushBack σ) :
    Except ReadError (Option BinaryOp) → PushBack σ → Prop
  | .ok (some op), s => ∃ t rest, is = .ok t :: rest ∧ g.tokenOp? level t = some op ∧
      Delivers s rest m
  | .ok none, s => ∃ t rest, is = .ok t :: rest ∧ g.tokenOp? level t = none ∧ Delivers s is m
  | .error e, s => Refused g .operator is m e s

private theorem gives_operator {g : Grammar} {level : Nat} {s m : PushBack σ} {is : List Item}
    (hd : Delivers s is m) (hc : Closed is) :
    (operator g level).Gives s (OperatorAnswers g level is m) := by
  rw [operator]
  rcases hc.cases_head with ⟨t, rest, rfl⟩ | ⟨e, rest, rfl⟩
  · refine gives_token_bind hd ?_
    intro s' hread hd'
    cases hop : g.tokenOp? level t with
    | some op => exact gives_pure ⟨t, rest, rfl, hop, hd'⟩
    | none =>
        refine gives_putBack_bind hread hd' ?_
        intro s'' hd''
        exact gives_pure ⟨t, rest, rfl, hop, hd''⟩
  · refine gives_token_bind_error hd ?_
    intro s' hheld hd'
    exact refused_error hheld hd'

/-! ### One step of each parser

Each of the three is shown for a budget on the assumption that the parsers it calls
answer on theirs.
-/

section Step

variable {g : Grammar} {fuel : Nat}

/-- The parsers of expressions answer on as many items as the budget covers. -/
def ExpressionsAnswer (σ : Type) [TokenStream σ] (g : Grammar) (fuel : Nat) : Prop :=
  ∀ (level : Nat) (s m : PushBack σ) (is : List Item), Delivers s is m → Closed is →
    is.length * g.descent + (g.height - level) + 2 ≤ fuel →
    (expression g fuel level).Gives s (Answers g (.expression level) is m)

/-- The parsers of chains answer on as many items as the budget covers. -/
def ChainsAnswer (σ : Type) [TokenStream σ] (g : Grammar) (fuel : Nat) : Prop :=
  ∀ (level : Nat) (left : Tree) (s m : PushBack σ) (is : List Item), Delivers s is m → Closed is →
    is.length * g.descent + 1 ≤ fuel →
    (chain g fuel level left).Gives s (Answers g (.chain level left) is m)

/-- The parser of operands answers on as many items as the budget covers. -/
def OperandsAnswer (σ : Type) [TokenStream σ] (g : Grammar) (fuel : Nat) : Prop :=
  ∀ (s m : PushBack σ) (is : List Item), Delivers s is m → Closed is →
    is.length * g.descent + 1 ≤ fuel → (operand g fuel).Gives s (Answers g .operand is m)

private theorem associativity?_eq_some {level : Nat} (hlevel : ¬ g.height ≤ level) :
    g.associativity? level = some (if g.groupsFromRight level then .right else .left) := by
  have hlt : level < g.levels.length := Nat.not_le.1 hlevel
  have hl : g.associativity? level = some g.levels[level].associativity := by
    rw [associativity?, List.getElem?_eq_getElem hlt, Option.map_some]
  rw [groupsFromRight, hl]
  cases g.levels[level].associativity <;> rfl

private theorem expressionsAnswer_succ (he : ExpressionsAnswer σ g fuel)
    (hch : ChainsAnswer σ g fuel)
    (ho : OperandsAnswer σ g fuel) : ExpressionsAnswer σ g (fuel + 1) := by
  intro level s m is hd hc hfuel
  rw [expression]
  split
  · rename_i hlevel
    refine (ho s m is hd hc (by omega)).mono ?_
    rintro (e | tree) s' h
    · exact h
    · obtain ⟨rest, hr, hd'⟩ := h
      exact ⟨rest, .operand hlevel hr, hd'⟩
  · rename_i hlevel
    have hassoc := associativity?_eq_some hlevel
    refine gives_bind (he (level + 1) s m is hd hc (by omega)) ?_ fun e s' h => h
    rintro left s' ⟨mid, hr, hd'⟩
    have hlen := hr.length_le
    have hmid := mul_descent_lt (g := g) (Nat.lt_of_succ_le hlen)
    split
    · rename_i hright
      rw [if_pos hright] at hassoc
      -- One operator is looked for, and behind it the level is read once more.
      refine gives_bind (gives_operator hd' (hr.closed hc)) ?_ ?_
      · rintro (_ | op) s'' h
        · obtain ⟨t, rest, rfl, hop, hd''⟩ := h
          exact gives_pure ⟨_, .rightOne hassoc hr hop, hd''⟩
        · obtain ⟨t, rest, rfl, hop, hd''⟩ := h
          refine gives_emit_bind ?_
          have hsymbol := (isOperatorOf_of_tokenOp? hop).1
          have hrest : Closed rest := (hr.closed hc).tail (by simp [hsymbol])
          have hrestlen := mul_descent_lt (g := g) (Nat.lt_of_succ_le (Nat.le_of_succ_le hlen))
          refine gives_bind (he level s'' m rest hd'' hrest (by omega)) ?_ ?_
          · rintro right s₃ ⟨rest', hr', hd₃⟩
            exact gives_pure ⟨rest', .right hassoc hr hop hr', hd₃⟩
          · intro e s₃ h
            refine h.of_follow fun depth => ⟨depth, ?_⟩
            exact (hr.follow depth).trans
              (follow_ok (advance_operator (isOperator_iff.2 ⟨_, _, hop⟩) depth))
      · intro e s'' h
        exact h.of_follow fun depth => ⟨depth, hr.follow depth⟩
    · rename_i hleft
      rw [if_neg hleft] at hassoc
      -- What has been read so far is where the chain begins.
      refine (hch level left s' m mid hd' (hr.closed hc) (by omega)).mono ?_
      rintro (e | tree) s'' h
      · exact h.of_follow fun depth => ⟨depth, hr.follow depth⟩
      · obtain ⟨rest, hr', hd''⟩ := h
        exact ⟨rest, .left hassoc hr hr', hd''⟩

private theorem chainsAnswer_succ (he : ExpressionsAnswer σ g fuel) (hch : ChainsAnswer σ g fuel) :
    ChainsAnswer σ g (fuel + 1) := by
  intro level left s m is hd hc hfuel
  rw [chain]
  refine gives_bind (gives_operator hd hc) ?_ fun e s' h => h
  rintro (_ | op) s' h
  · obtain ⟨t, rest, rfl, hop, hd'⟩ := h
    exact gives_pure ⟨_, .chainEnd hop, hd'⟩
  · obtain ⟨t, rest, rfl, hop, hd'⟩ := h
    have hsymbol := (isOperatorOf_of_tokenOp? hop).1
    have hrest : Closed rest := hc.tail (by simp [hsymbol])
    have hrestlen := mul_descent_lt (g := g) (Nat.lt_add_one rest.length)
    have hstep : ∀ depth, g.follow (.operator depth) (.ok t :: rest)
        = g.follow (.operand depth) rest := fun depth =>
      follow_ok (advance_operator (isOperator_iff.2 ⟨level, op, hop⟩) depth)
    rw [List.length_cons] at hfuel
    refine gives_emit_bind (gives_bind (he (level + 1) s' m rest hd' hrest (by omega)) ?_ ?_)
    · rintro right s'' ⟨mid, hr, hd''⟩
      have hmid := mul_descent_le (g := g) (Nat.le_of_succ_le hr.length_le)
      refine (hch level _ s'' m mid hd'' (hr.closed hrest) (by omega)).mono ?_
      rintro (e | tree) s₃ h
      · exact h.of_follow fun depth => ⟨depth, (hstep depth).trans (hr.follow depth)⟩
      · obtain ⟨rest', hr', hd₃⟩ := h
        exact ⟨rest', .chainLink hop hr hr', hd₃⟩
    · intro e s'' h
      exact h.of_follow fun depth => ⟨depth, hstep depth⟩

private theorem unaryOp?_of_priorityOf {text : String} {priority : Nat}
    (h : g.priorityOf text = .ok (some priority)) :
    ∃ op, g.unaryOp? text = some op ∧ g.unaryPriority op = some priority := by
  unfold priorityOf at h
  split at h
  · cases h
  · rename_i op hop
    split at h
    · rename_i p hp
      cases h
      exact ⟨op, hop, hp⟩
    · cases h

/-! An operand is known by its first token, so there is one statement for each kind. -/

section Operand

variable {s m : PushBack σ} {t : Token} {rest : List Item}

private theorem gives_leaf (hd : Delivers s (.ok t :: rest) m)
    (hkind : t.kind = .number ∨ t.kind = .name) :
    (operand g (fuel + 1)).Gives s (Answers g .operand (.ok t :: rest) m) := by
  rw [operand]
  refine gives_token_bind hd ?_
  intro s' _ hd'
  rcases hkind with hkind | hkind
  · rw [hkind]
    exact gives_pure ⟨rest, .number hkind, hd'⟩
  · rw [hkind]
    exact gives_pure ⟨rest, .name hkind, hd'⟩

private theorem gives_bracket (he : ExpressionsAnswer σ g fuel) (hd : Delivers s (.ok t :: rest) m)
    (hc : Closed (.ok t :: rest)) (hfuel : (rest.length + 1) * g.descent ≤ fuel)
    (hkind : t.kind = .leftParen) :
    (operand g (fuel + 1)).Gives s (Answers g .operand (.ok t :: rest) m) := by
  have hrest : Closed rest := hc.tail (by simp [hkind])
  have hrestlen := mul_descent_lt (g := g) (Nat.lt_add_one rest.length)
  have hstep : ∀ depth, g.follow (.operand depth) (.ok t :: rest)
      = g.follow (.operand (depth + 1)) rest := fun depth =>
    follow_ok (advance_leftParen hkind depth)
  rw [operand]
  refine gives_token_bind hd ?_
  intro s' _ hd'
  rw [hkind]
  refine gives_bind (he 0 s' m rest hd' hrest (by omega)) ?_ ?_
  · rintro inner s'' ⟨mid, hr, hd''⟩
    have hback : ∀ depth, g.follow (.operand depth) (.ok t :: rest)
        = g.follow (.operator (depth + 1)) mid := fun depth =>
      (hstep depth).trans (hr.follow (depth + 1))
    rcases (hr.closed hrest).cases_head with ⟨c, behind, rfl⟩ | ⟨e, behind, rfl⟩
    · refine gives_token_bind hd'' ?_
      intro s₃ hread hd₃
      split
      · rename_i hclose
        exact gives_pure ⟨behind, .bracket hkind hr hclose, hd₃⟩
      · rename_i hclose
        -- No operator can stand here: the expression in the bracket would have taken it.
        have hno : g.isOperator c = false := hr.stops.isOperator
        have hunclosed : Refused g (fun depth => .operator (depth + 1)) (.ok c :: behind) m
            (.unclosed c.display) s₃ := by
          refine refused_token hread hd₃ fun depth => ?_
          simp [advance, advanceClosing, hno, hclose]
        exact gives_fail (hunclosed.of_follow fun depth => ⟨depth, hback depth⟩)
    · refine gives_token_bind_error hd'' ?_
      intro s₃ hheld hd₃
      exact (refused_error hheld hd₃).of_follow fun depth => ⟨depth, hback depth⟩
  · intro e s'' h
    exact h.of_follow fun depth => ⟨depth + 1, hstep depth⟩

private theorem gives_sign (he : ExpressionsAnswer σ g fuel) (hd : Delivers s (.ok t :: rest) m)
    (hc : Closed (.ok t :: rest)) (hfuel : (rest.length + 1) * g.descent ≤ fuel)
    (hkind : t.kind = .symbol) :
    (operand g (fuel + 1)).Gives s (Answers g .operand (.ok t :: rest) m) := by
  have hrest : Closed rest := hc.tail (by simp [hkind])
  have hrestlen := mul_descent_lt (g := g) (Nat.lt_add_one rest.length)
  rw [operand]
  refine gives_token_bind hd ?_
  intro s' hread hd'
  rw [hkind]
  refine gives_ofTable_bind ?_ ?_
  · rintro (_ | priority) hpriority
    · refine gives_fail (refused_token hread hd' fun depth => ?_)
      simp [advance, before, advanceOperand, hkind, hpriority, Except.map]
    · obtain ⟨op, hop, hp⟩ := unaryOp?_of_priorityOf hpriority
      have hstep : ∀ depth, g.follow (.operand depth) (.ok t :: rest)
          = g.follow (.operand depth) rest := fun depth =>
        follow_ok (advance_sign hkind hpriority depth)
      -- A symbol with a priority writes an operation, so the second look-up does not fail.
      have hlookup : g.unaryOp t.text = .ok op := Operation.ofSymbol_of_ofSymbol? hop
      rw [hlookup]
      refine gives_ofTable_bind ?_ ?_
      · intro op' hop'
        cases hop'
        refine gives_bind (he _ s' m rest hd' hrest (by omega)) ?_ ?_
        · rintro tree s'' ⟨mid, hr, hd''⟩
          exact gives_pure ⟨mid, .sign hkind hop hp hr, hd''⟩
        · intro e s'' h
          exact h.of_follow fun depth => ⟨depth, hstep depth⟩
      · intro e he'
        cases he'
  · intro e he'
    refine refused_token hread hd' fun depth => ?_
    simp [advance, before, advanceOperand, hkind, he', Except.map]

/-- Any other token begins no operand. -/
theorem gives_noOperand (hd : Delivers s (.ok t :: rest) m)
    (hkind : t.kind = .stop ∨ t.kind = .rightParen ∨ t.kind = .equals ∨ t.kind = .keyword) :
    (operand g (fuel + 1)).Gives s (Answers g .operand (.ok t :: rest) m) := by
  rw [operand]
  refine gives_token_bind hd ?_
  intro s' hread hd'
  rcases hkind with hkind | hkind | hkind | hkind
  all_goals
    rw [hkind]
    refine gives_fail (refused_token hread hd' fun depth => ?_)
    simp [advance, before, advanceOperand, hkind, Except.map]

end Operand

private theorem operandsAnswer_succ (he : ExpressionsAnswer σ g fuel) :
    OperandsAnswer σ g (fuel + 1) := by
  intro s m is hd hc hfuel
  rcases hc.cases_head with ⟨t, rest, rfl⟩ | ⟨e, rest, rfl⟩
  · rw [List.length_cons] at hfuel
    have hpaid : (rest.length + 1) * g.descent ≤ fuel := Nat.le_of_succ_le_succ hfuel
    cases hkind : t.kind with
    | number => exact gives_leaf hd (Or.inl hkind)
    | name => exact gives_leaf hd (Or.inr hkind)
    | leftParen => exact gives_bracket he hd hc hpaid hkind
    | symbol => exact gives_sign he hd hc hpaid hkind
    | stop | rightParen | equals | keyword => exact gives_noOperand hd (by simp [hkind])
  · rw [operand]
    refine gives_token_bind_error hd ?_
    intro s' hheld hd'
    exact refused_error hheld hd'

end Step

/-- **A part is read as far as it goes, or refused where following it goes wrong.** -/
theorem answers_all (σ : Type) [TokenStream σ] (g : Grammar) (fuel : Nat) :
    ExpressionsAnswer σ g fuel ∧ ChainsAnswer σ g fuel ∧ OperandsAnswer σ g fuel := by
  induction fuel with
  | zero =>
      refine ⟨?_, ?_, ?_⟩
      · intro level s m is _ _ hfuel
        omega
      · intro level left s m is _ _ hfuel
        omega
      · intro s m is _ _ hfuel
        omega
  | succ fuel ih =>
      obtain ⟨he, hch, ho⟩ := ih
      exact ⟨expressionsAnswer_succ he hch ho, chainsAnswer_succ he hch, operandsAnswer_succ he⟩

private theorem gives_expression {g : Grammar} {fuel : Nat} {s m : PushBack σ} {is : List Item}
    (hd : Delivers s is m) (hc : Closed is) (hfuel : g.budget is.length ≤ fuel) :
    (expression g fuel 0).Gives s (Answers g (.expression 0) is m) := by
  refine (answers_all σ g fuel).1 0 s m is hd hc (Nat.le_trans ?_ hfuel)
  simp only [budget, Nat.add_mul, Nat.one_mul, descent]
  omega

/-! ### Lines -/

section Line

variable {g : Grammar}

/-- What the parser of a definition answers, behind the keyword. -/
def DefinitionAnswers (g : Grammar) (is : List Item) (m : PushBack σ) :
    Except ReadError Tree → PushBack σ → Prop
  | .ok tree, s => ∃ x e body value rest, is = .ok x :: .ok e :: body ∧ x.kind = .name ∧
      e.kind = .equals ∧ tree = .define x.text value ∧
      g.Reads (.expression 0) body value rest ∧ Delivers s rest m
  | .error e, s => Refused g (fun _ => .name) is m e s

private theorem gives_definition {fuel : Nat} {s m : PushBack σ} {is : List Item}
    (hd : Delivers s is m) (hc : Closed is) (hfuel : g.budget is.length ≤ fuel) :
    (definition g fuel).Gives s (DefinitionAnswers g is m) := by
  rw [definition]
  rcases hc.cases_head with ⟨x, is, rfl⟩ | ⟨e, is, rfl⟩
  · refine gives_token_bind hd ?_
    intro s' hread hd'
    split
    · rename_i hx
      have hc' : Closed is := hc.tail (by simp [hx])
      rcases hc'.cases_head with ⟨e, body, rfl⟩ | ⟨e, body, rfl⟩
      · refine gives_token_bind hd' ?_
        intro s'' hread' hd''
        split
        · rename_i he
          have hbody : g.budget body.length ≤ fuel := by
            refine Nat.le_trans (g.budget_mono ?_) hfuel
            simp only [List.length_cons]
            omega
          refine gives_bind (gives_expression hd'' (hc'.tail (by simp [he])) hbody) ?_ ?_
          · rintro value s₃ ⟨rest, hr, hd₃⟩
            exact gives_pure ⟨x, e, body, value, rest, rfl, hx, he, rfl, hr, hd₃⟩
          · intro error s₃ h
            exact h.of_follow fun _ => ⟨0, (follow_name hx _).trans (follow_equals he _)⟩
        · rename_i he
          have hmissing : Refused g (fun _ => .equals x.text) (.ok e :: body) m
              (.missingEquals x.text e.display) s'' := by
            refine refused_token hread' hd'' fun _ => ?_
            simp [advance, he]
          exact gives_fail (hmissing.of_follow fun depth => ⟨depth, follow_name hx _⟩)
      · refine gives_token_bind_error hd' ?_
        intro s'' hheld hd''
        exact (refused_error hheld hd'').of_follow fun depth => ⟨depth, follow_name hx _⟩
    · rename_i hx
      refine gives_fail (refused_token hread hd' fun _ => ?_)
      simp [advance, hx]
  · refine gives_token_bind_error hd ?_
    intro s' hheld hd'
    exact refused_error hheld hd'

/-- Behind a tree there is the end, or the line is refused. -/
theorem gives_finish {tree : Tree} {s m : PushBack σ} {rest : List Item}
    {Q : Except ReadError (Option Tree) → PushBack σ → Prop} (hd : Delivers s rest m)
    (hc : Closed rest) (hno : g.NoOperatorFrom 0 rest)
    (hok : ∀ stop behind s', rest = .ok stop :: behind → stop.kind = .stop → s'.held = none →
      Delivers s' behind m → Q (.ok (some tree)) s')
    (herr : ∀ e s', Refused g (fun _ => .operator 0) rest m e s' → Q (.error e) s') :
    (finish tree).Gives s Q := by
  rw [finish]
  rcases hc.cases_head with ⟨t, behind, rfl⟩ | ⟨e, behind, rfl⟩
  · refine gives_token_bind hd ?_
    intro s' hread hd'
    split
    · rename_i hstop
      have hkind : t.kind = .stop := by simpa [Token.isStop] using hstop
      exact gives_emit_bind (gives_pure (hok t behind s' rfl hkind hread.held hd'))
    · rename_i hstop
      have hoperator : g.isOperator t = false := hno.isOperator
      refine gives_fail (herr _ _ (refused_token hread hd' fun _ => ?_))
      simp [advance, advanceClosing, hoperator, hstop]
  · refine gives_token_bind_error hd ?_
    intro s' hheld hd'
    exact herr _ _ (refused_error hheld hd')

/-- What the parser of a line answers: what it is read to, or where following it goes wrong. -/
def LineAnswers (g : Grammar) (is : List Item) (m : PushBack σ) :
    Except ReadError (Option Tree) → PushBack σ → Prop
  | .ok tree?, s => s.held = none ∧ ∃ rest, g.ReadsLine is tree? rest ∧ Delivers s rest m
  | .error e, s => Refused g (fun _ => .line) is m e s

/-- **A line is read, or refused where following it goes wrong.** -/
theorem gives_line {fuel : Nat} {s m : PushBack σ} {is : List Item} (hd : Delivers s is m)
    (hc : Closed is) (hfuel : g.budget is.length ≤ fuel) :
    (line g fuel).Gives s (LineAnswers g is m) := by
  rw [line]
  rcases hc.cases_head with ⟨t, is, rfl⟩ | ⟨e, is, rfl⟩
  · refine gives_token_bind hd ?_
    intro s' hread hd'
    split
    · rename_i hkind
      exact gives_pure ⟨hread.held, is, .blank hkind, hd'⟩
    · rename_i hkind
      have hc' : Closed is := hc.tail (by simp [hkind])
      have hfuel' : g.budget is.length ≤ fuel :=
        Nat.le_trans (g.budget_mono (Nat.le_add_right _ 1)) hfuel
      refine gives_bind (gives_definition hd' hc' hfuel') ?_ ?_
      · rintro tree s'' ⟨x, e, body, value, rest, rfl, hx, he, rfl, hr, hd''⟩
        have hbody : Closed body := (hc'.tail (by simp [hx])).tail (by simp [he])
        refine gives_finish hd'' (hr.closed hbody) hr.stops ?_ ?_
        · rintro stop behind s₃ rfl hstop hheld hd₃
          exact ⟨hheld, behind, .definition hkind hx he hr hstop, hd₃⟩
        · intro error s₃ h
          refine h.of_follow fun depth => ⟨depth, ?_⟩
          exact (follow_definition hkind hx he _).trans (hr.follow 0)
      · intro error s'' h
        exact h.of_follow fun depth => ⟨depth, follow_keyword hkind _⟩
    · rename_i hstop hkeyword
      -- The token that told what the line is belongs to its expression, and comes again.
      refine gives_putBack_bind hread hd' ?_
      intro s'' hd''
      have hline : g.follow .line (.ok t :: is) = g.follow (.operand 0) (.ok t :: is) :=
        follow_line hstop hkeyword
      refine gives_bind (gives_expression hd'' hc hfuel) ?_ ?_
      · rintro tree s₃ ⟨rest, hr, hd₃⟩
        refine gives_finish hd₃ (hr.closed hc) hr.stops ?_ ?_
        · rintro stop behind s₄ rfl hstop' hheld hd₄
          exact ⟨hheld, behind, .expression hr hstop', hd₄⟩
        · intro error s₄ h
          exact h.of_follow fun depth => ⟨depth, hline.trans (hr.follow 0)⟩
      · intro error s₃ h
        exact h.of_follow fun _ => ⟨0, hline⟩
  · refine gives_token_bind_error hd ?_
    intro s' hheld hd'
    exact refused_error hheld hd'

end Line

end Parser

end Calculator
