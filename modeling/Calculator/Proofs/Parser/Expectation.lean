/-
What a line may go on with.

Levels, groupings and priorities decide the tree of a line.  Whether there is a tree
at all, and which token is the first wrong one, depends on much less: whether an
operand or an operator is expected next, and how many brackets are open.  An
`Expectation` is that much of the state of reading, `advance` is what one token
makes of it, and `follow` is what all tokens make of it.

Following a line goes wrong at an error of the stream, at a symbol that the table
knows nothing of, or at a token of the wrong kind (`follow_eq_wrong`).  That this is
the error with which the line is refused is left to the parser itself.
-/
import Calculator.Proofs.Parser.Reading

namespace Calculator

/-- What may come next in a line.  The depth is the number of open brackets. -/
inductive Expectation where
  /-- Anything that a line begins with. -/
  | line
  /-- The name of a definition. -/
  | name
  /-- The equals sign behind the name of a definition. -/
  | equals (name : String)
  | operand (depth : Nat)
  | operator (depth : Nat)
deriving DecidableEq

/-- What comes of following a line. -/
inductive Verdict where
  /-- The line has come to its end, and the rest lies behind it. -/
  | complete (rest : List Item)
  /-- The line cannot go on like this; the rest lies behind the first wrong item. -/
  | wrong (e : ReadError) (rest : List Item)
  /-- The items end before the line does. -/
  | unfinished

/-- The error says something about the order of the tokens. -/
def ReadError.IsGrammatical : ReadError → Prop
  | .token _ | .table _ => False
  | .noOperand _ | .endsEarly | .unclosed _ | .missingName _ | .missingEquals _ _ | .trailing _ =>
    True

/-- What the error names is the token. -/
def ReadError.Describes : ReadError → Token → Prop
  | .noOperand found, t | .unclosed found, t | .missingName found, t | .missingEquals _ found, t
  | .trailing found, t => found = t.display
  | .endsEarly, t => t.kind = .stop
  | .table e, t => e = .noUnaryPriority t.text
  | .token _, _ => False

namespace Grammar

/-- The token is an operator of some level. -/
def isOperator (g : Grammar) (t : Token) : Bool :=
  (List.range g.height).any fun level => (g.tokenOp? level t).isSome

/-- The expectation behind a token where an operand is expected. -/
def advanceOperand (g : Grammar) (depth : Nat) (t : Token) : Except ReadError Expectation :=
  match t.kind with
  | .number | .name => .ok (.operator depth)
  | .leftParen => .ok (.operand (depth + 1))
  | .symbol =>
    match g.priorityOf t.text with
    | .ok (some _) => .ok (.operand depth)
    | .ok none => .error (.noOperand t.display)
    | .error e => .error (.table e)
  | .stop => .error .endsEarly
  | .rightParen | .equals | .keyword => .error (.noOperand t.display)

/-- The expectation behind a token that is no operator where one is expected; none at the end. -/
def advanceClosing (depth : Nat) (t : Token) : Except ReadError (Option Expectation) :=
  match depth with
  | 0 => if t.isStop then .ok none else .error (.trailing t.display)
  | depth + 1 =>
    if t.kind = .rightParen then .ok (some (.operator depth)) else .error (.unclosed t.display)

/-- The expectation behind a token; none if the line ends with it. -/
def advance (g : Grammar) : Expectation → Token → Except ReadError (Option Expectation)
  | .line, t =>
    match t.kind with
    | .stop => .ok none
    | .keyword => .ok (some .name)
    | _ => (g.advanceOperand 0 t).map some
  | .name, t =>
    if t.kind = .name then .ok (some (.equals t.text)) else .error (.missingName t.display)
  | .equals name, t =>
    if t.kind = .equals then .ok (some (.operand 0)) else .error (.missingEquals name t.display)
  | .operand depth, t => (g.advanceOperand depth t).map some
  | .operator depth, t =>
    if g.isOperator t then .ok (some (.operand depth)) else advanceClosing depth t

/-- Follows a line item by item, up to its end or the first wrong item. -/
def follow (g : Grammar) : Expectation → List Item → Verdict
  | _, [] => .unfinished
  | _, .error e :: rest => .wrong (.token e) rest
  | q, .ok t :: rest =>
    match g.advance q t with
    | .ok (some q') => g.follow q' rest
    | .ok none => .complete rest
    | .error e => .wrong e rest

variable {g : Grammar}

theorem isOperator_iff {t : Token} :
    g.isOperator t = true ↔ ∃ level op, g.tokenOp? level t = some op := by
  simp only [isOperator, List.any_eq_true, List.mem_range, Option.isSome_iff_exists]
  constructor
  · rintro ⟨level, -, op, hop⟩
    exact ⟨level, op, hop⟩
  · rintro ⟨level, op, hop⟩
    refine ⟨level, ?_, op, hop⟩
    by_cases hlt : level < g.height
    · exact hlt
    · rw [tokenOp?_eq_none_of_le (Nat.not_lt.1 hlt) t] at hop
      cases hop

/-- A token that is no symbol is no operator. -/
theorem isOperator_eq_false {t : Token} (h : t.kind ≠ .symbol) : g.isOperator t = false := by
  rw [Bool.eq_false_iff]
  intro ht
  obtain ⟨level, op, hop⟩ := isOperator_iff.1 ht
  exact h (isOperatorOf_of_tokenOp? hop).1

theorem NoOperatorFrom.isOperator {t : Token} {rest : List Item}
    (h : g.NoOperatorFrom 0 (.ok t :: rest)) : g.isOperator t = false := by
  rw [Bool.eq_false_iff]
  intro ht
  obtain ⟨level, op, hop⟩ := isOperator_iff.1 ht
  rw [h t rest rfl level (Nat.zero_le _)] at hop
  cases hop

/-! ### One token -/

theorem follow_ok {q q' : Expectation} {t : Token} {rest : List Item}
    (h : g.advance q t = .ok (some q')) : g.follow q (.ok t :: rest) = g.follow q' rest := by
  rw [follow, h]

theorem follow_wrong {q : Expectation} {t : Token} {rest : List Item} {e : ReadError}
    (h : g.advance q t = .error e) : g.follow q (.ok t :: rest) = .wrong e rest := by
  rw [follow, h]

theorem advance_operator {t : Token} (h : g.isOperator t = true) (depth : Nat) :
    g.advance (.operator depth) t = .ok (some (.operand depth)) := by
  simp [advance, h]

theorem advance_leaf {t : Token} (h : t.kind = .number ∨ t.kind = .name) (depth : Nat) :
    g.advance (.operand depth) t = .ok (some (.operator depth)) := by
  rcases h with h | h <;> simp [advance, advanceOperand, h, Except.map]

theorem advance_leftParen {t : Token} (h : t.kind = .leftParen) (depth : Nat) :
    g.advance (.operand depth) t = .ok (some (.operand (depth + 1))) := by
  simp [advance, advanceOperand, h, Except.map]

theorem advance_rightParen {t : Token} (h : t.kind = .rightParen) (depth : Nat) :
    g.advance (.operator (depth + 1)) t = .ok (some (.operator depth)) := by
  have hno : g.isOperator t = false := isOperator_eq_false (by simp [h])
  simp [advance, advanceClosing, h, hno]

theorem advance_stop {t : Token} (h : t.kind = .stop) :
    g.advance (.operator 0) t = .ok none := by
  have hno : g.isOperator t = false := isOperator_eq_false (by simp [h])
  simp [advance, advanceClosing, hno, Token.isStop, h]

theorem priorityOf_eq {text : String} {op : UnaryOp} {priority : Nat}
    (hop : g.unaryOp? text = some op) (hpriority : g.unaryPriority op = some priority) :
    g.priorityOf text = .ok (some priority) := by
  simp [priorityOf, hop, hpriority]

theorem advance_sign {t : Token} {priority : Nat} (ht : t.kind = .symbol)
    (h : g.priorityOf t.text = .ok (some priority)) (depth : Nat) :
    g.advance (.operand depth) t = .ok (some (.operand depth)) := by
  simp [advance, advanceOperand, ht, h, Except.map]

/-! ### Lines

The token that tells what a line is comes back in front of an expression, so a line
that is no definition is followed as its expression is.
-/

theorem advance_line {t : Token} (hstop : t.kind ≠ .stop) (hkeyword : t.kind ≠ .keyword) :
    g.advance .line t = g.advance (.operand 0) t := by
  cases h : t.kind <;> simp_all [advance]

theorem follow_line {t : Token} {rest : List Item} (hstop : t.kind ≠ .stop)
    (hkeyword : t.kind ≠ .keyword) :
    g.follow .line (.ok t :: rest) = g.follow (.operand 0) (.ok t :: rest) := by
  rw [follow, follow, advance_line hstop hkeyword]

theorem follow_keyword {k : Token} (hk : k.kind = .keyword) (rest : List Item) :
    g.follow .line (.ok k :: rest) = g.follow .name rest :=
  follow_ok (by simp [advance, hk])

theorem follow_name {x : Token} (hx : x.kind = .name) (rest : List Item) :
    g.follow .name (.ok x :: rest) = g.follow (.equals x.text) rest :=
  follow_ok (by simp [advance, hx])

theorem follow_equals {name : String} {e : Token} (he : e.kind = .equals) (rest : List Item) :
    g.follow (.equals name) (.ok e :: rest) = g.follow (.operand 0) rest :=
  follow_ok (by simp [advance, he])

/-- In front of the value of a definition an operand is expected, as in front of an expression. -/
theorem follow_definition {k x e : Token} (hk : k.kind = .keyword) (hx : x.kind = .name)
    (he : e.kind = .equals) (rest : List Item) :
    g.follow .line (.ok k :: .ok x :: .ok e :: rest) = g.follow (.operand 0) rest :=
  (follow_keyword hk _).trans ((follow_name hx _).trans (follow_equals he rest))

theorem follow_blank {stop : Token} (h : stop.kind = .stop) (rest : List Item) :
    g.follow .line (.ok stop :: rest) = .complete rest := by
  rw [follow, show g.advance .line stop = .ok none by simp [advance, h]]

/-- Behind an expression only the end completes a line. -/
theorem follow_stop {stop : Token} (h : stop.kind = .stop) (rest : List Item) :
    g.follow (.operator 0) (.ok stop :: rest) = .complete rest := by
  rw [follow, advance_stop h]

/-- An expression begins with a token that neither ends a line nor opens a definition. -/
theorem exists_eq_cons_of_complete {is rest : List Item}
    (h : g.follow (.operand 0) is = .complete rest) :
    ∃ t is', is = .ok t :: is' ∧ t.kind ≠ .stop ∧ t.kind ≠ .keyword := by
  cases is with
  | nil =>
      rw [follow] at h
      cases h
  | cons i is =>
      cases i with
      | error e =>
          rw [follow] at h
          cases h
      | ok t =>
          -- Neither the end nor the keyword begins an operand.
          refine ⟨t, is, rfl, ?_, ?_⟩
          · intro hkind
            have hwrong : g.advance (.operand 0) t = .error .endsEarly := by
              simp [advance, advanceOperand, hkind, Except.map]
            rw [follow_wrong hwrong] at h
            cases h
          · intro hkind
            have hwrong : g.advance (.operand 0) t = .error (.noOperand t.display) := by
              simp [advance, advanceOperand, hkind, Except.map]
            rw [follow_wrong hwrong] at h
            cases h

/-- A line that can be followed as an expression can be followed. -/
theorem follow_line_of_complete {is rest : List Item}
    (h : g.follow (.operand 0) is = .complete rest) : g.follow .line is = .complete rest := by
  obtain ⟨t, is, rfl, hstop, hkeyword⟩ := exists_eq_cons_of_complete h
  rw [follow_line hstop hkeyword]
  exact h

/-! ### Where following goes wrong -/

theorem advanceOperand_error {depth : Nat} {t : Token} {e : ReadError}
    (h : g.advanceOperand depth t = .error e) :
    (∃ e', t.kind = .symbol ∧ g.priorityOf t.text = .error e' ∧ e = .table e') ∨
      e.IsGrammatical ∧ e.Describes t := by
  unfold advanceOperand at h
  split at h
  · cases h
  · cases h
  · cases h
  · rename_i hkind
    split at h
    · cases h
    · cases h
      exact Or.inr ⟨trivial, rfl⟩
    · rename_i e' hpriority
      cases h
      exact Or.inl ⟨e', hkind, hpriority, rfl⟩
  · rename_i hkind
    cases h
    exact Or.inr ⟨trivial, hkind⟩
  · cases h
    exact Or.inr ⟨trivial, rfl⟩
  · cases h
    exact Or.inr ⟨trivial, rfl⟩
  · cases h
    exact Or.inr ⟨trivial, rfl⟩

private theorem advanceClosing_error {depth : Nat} {t : Token} {e : ReadError}
    (h : advanceClosing depth t = .error e) : e.IsGrammatical ∧ e.Describes t := by
  unfold advanceClosing at h
  split at h <;> split at h <;> cases h <;> exact ⟨trivial, rfl⟩

/-- A token cannot come next because of its kind, and then the error describes it, or because the
table has no answer. -/
theorem advance_error {q : Expectation} {t : Token} {e : ReadError}
    (h : g.advance q t = .error e) :
    (∃ e', t.kind = .symbol ∧ g.priorityOf t.text = .error e' ∧ e = .table e') ∨
      e.IsGrammatical ∧ e.Describes t := by
  have hmap : ∀ depth, (g.advanceOperand depth t).map some = .error e →
      g.advanceOperand depth t = .error e := by
    intro depth hmap
    cases hop : g.advanceOperand depth t with
    | ok q' =>
        rw [hop] at hmap
        cases hmap
    | error e' =>
        rw [hop] at hmap
        cases hmap
        rfl
  cases q with
  | line =>
      rw [advance] at h
      split at h
      · cases h
      · cases h
      · exact advanceOperand_error (hmap 0 h)
  | name =>
      rw [advance] at h
      split at h
      · cases h
      · cases h
        exact Or.inr ⟨trivial, rfl⟩
  | equals name =>
      rw [advance] at h
      split at h
      · cases h
      · cases h
        exact Or.inr ⟨trivial, rfl⟩
  | operand depth => exact advanceOperand_error (hmap depth h)
  | operator depth =>
      rw [advance] at h
      split at h
      · cases h
      · exact Or.inr (advanceClosing_error h)

/-- **Following goes wrong at an error of the stream, at a token that cannot come next, or at a
symbol for which the table has no answer.** -/
theorem follow_eq_wrong {q : Expectation} {is rest : List Item} {e : ReadError}
    (h : g.follow q is = .wrong e rest) :
    (∃ e', .error e' ∈ is ∧ e = .token e') ∨
      (∃ t e', .ok t ∈ is ∧ t.kind = .symbol ∧ g.priorityOf t.text = .error e' ∧ e = .table e') ∨
        e.IsGrammatical := by
  induction is generalizing q with
  | nil =>
      rw [follow] at h
      cases h
  | cons i is ih =>
      cases i with
      | error e' =>
          rw [follow] at h
          cases h
          exact Or.inl ⟨e', List.mem_cons_self, rfl⟩
      | ok t =>
          rw [follow] at h
          split at h
          · rcases ih h with ⟨e', he', htoken⟩ | ⟨t', e', ht', htable⟩ | hgrammatical
            · exact Or.inl ⟨e', List.mem_cons_of_mem _ he', htoken⟩
            · exact Or.inr (Or.inl ⟨t', e', List.mem_cons_of_mem _ ht', htable⟩)
            · exact Or.inr (Or.inr hgrammatical)
          · cases h
          · rename_i hadvance
            cases h
            rcases advance_error hadvance with ⟨e', htable⟩ | ⟨hgrammatical, -⟩
            · exact Or.inr (Or.inl ⟨t, e', List.mem_cons_self, htable⟩)
            · exact Or.inr (Or.inr hgrammatical)

end Grammar

end Calculator
