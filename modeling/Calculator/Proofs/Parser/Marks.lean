/-
What stands in a line, whatever its tree.

A tree says how the operations of a line are nested.  Read from left to right, and
without the nesting, it is the line again but for its brackets: numbers, variables,
signs and operators in the order in which they were written.  These are its `marks`.

Levels, groupings and priorities have no part in them.  A token leaves its mark by what
is expected where it stands, a sign where an operand is expected and an operator behind
one, and that is known from following the line (`marks`).  So the marks of every tree
that a line can be read to are the marks of its tokens (`ReadsLine.marks`), and two
grammars with the same operations agree on them, as they agree on where a line goes
wrong (`follow_congr`).
-/
import Calculator.Proofs.Parser.Faithful

namespace Calculator

/-- Something that stands in a line. -/
inductive Mark where
  | number (digits : String)
  | var (name : String)
  | unary (op : UnaryOp)
  | binary (op : BinaryOp)
  /-- The name of a definition. -/
  | define (name : String)
deriving DecidableEq

/-- What stands in the line of a tree, from left to right. -/
def Tree.marks : Tree → List Mark
  | .number digits => [.number digits]
  | .var name => [.var name]
  | .unary op operand => .unary op :: operand.marks
  | .binary op left right => left.marks ++ .binary op :: right.marks
  | .define name value => .define name :: value.marks

private theorem Tree.marks_ne_nil (tree : Tree) : tree.marks ≠ [] := by
  cases tree <;> simp [marks]

namespace Grammar

/-! ### The marks of tokens -/

/-- The mark that a token leaves where something is expected; brackets leave none. -/
def mark (g : Grammar) : Expectation → Token → List Mark
  | .line, t | .operand _, t =>
    match t.kind with
    | .number => [.number t.text]
    | .name => [.var t.text]
    | .symbol => ((g.unaryOp? t.text).map Mark.unary).toList
    | .stop | .leftParen | .rightParen | .equals | .keyword => []
  | .operator _, t =>
    match t.kind with
    | .symbol => ((g.binaryOp? t.text).map Mark.binary).toList
    | .number | .name | .stop | .leftParen | .rightParen | .equals | .keyword => []
  | .name, t => [.define t.text]
  | .equals _, _ => []

/-- The marks that a line leaves as far as it can be followed. -/
def marks (g : Grammar) : Expectation → List Item → List Mark
  | _, [] | _, .error _ :: _ => []
  | q, .ok t :: rest =>
    match g.advance q t with
    | .ok (some q') => g.mark q t ++ g.marks q' rest
    | .ok none | .error _ => []

variable {g : Grammar}

private theorem marks_ok {q q' : Expectation} {t : Token} {rest : List Item}
    (h : g.advance q t = .ok (some q')) :
    g.marks q (.ok t :: rest) = g.mark q t ++ g.marks q' rest := by
  rw [marks, h]

/-- At the end nothing more is left behind. -/
theorem marks_stop {stop : Token} (h : stop.kind = .stop) (rest : List Item) :
    g.marks (.operator 0) (.ok stop :: rest) = [] := by
  rw [marks, advance_stop h]

private theorem marks_operator {level : Nat} {t : Token} {op : BinaryOp} {rest : List Item}
    (h : g.tokenOp? level t = some op) (depth : Nat) :
    g.marks (.operator depth) (.ok t :: rest) = .binary op :: g.marks (.operand depth) rest := by
  obtain ⟨hkind, hop, -⟩ := tokenOp?_eq_some_iff.1 h
  rw [marks_ok (advance_operator (isOperator_iff.2 ⟨level, op, h⟩) depth)]
  simp [mark, hkind, hop]

private theorem marks_sign {t : Token} {op : UnaryOp} {priority : Nat} {rest : List Item}
    (ht : t.kind = .symbol) (hop : g.unaryOp? t.text = some op)
    (hpriority : g.unaryPriority op = some priority) (depth : Nat) :
    g.marks (.operand depth) (.ok t :: rest) = .unary op :: g.marks (.operand depth) rest := by
  rw [marks_ok (advance_sign ht (priorityOf_eq hop hpriority) depth)]
  simp [mark, ht, hop]

/-! ### The marks of what is read -/

/-- The marks that a part begins with: a chain goes on from the tree so far. -/
def Part.marks : Part → List Mark
  | .chain _ left => left.marks
  | .expression _ | .operand => []

/-- **A tree has the marks of the tokens it is read from.** -/
theorem Reads.marks {part : Part} {is rest : List Item} {tree : Tree}
    (h : g.Reads part is tree rest) (depth : Nat) :
    Part.marks part ++ g.marks (before depth part) is
      = tree.marks ++ g.marks (.operator depth) rest := by
  induction h generalizing depth with
  | operand _ _ ih => exact ih depth
  | left _ _ _ ih ih' => exact (ih depth).trans (ih' depth)
  | chainEnd => rfl
  | chainLink hop _ _ ih ih' =>
      have hright := ih depth
      have hrest := ih' depth
      simp only [Part.marks, before, List.nil_append, Tree.marks, List.append_assoc,
        List.cons_append] at hright hrest ⊢
      rw [marks_operator hop, hright, hrest]
  | rightOne _ _ _ ih => exact ih depth
  | right _ _ hop _ ih ih' =>
      have hleft := ih depth
      have hright := ih' depth
      simp only [Part.marks, before, List.nil_append, Tree.marks, List.append_assoc,
        List.cons_append] at hleft hright ⊢
      rw [hleft, marks_operator hop, hright]
  | number ht =>
      show g.marks (.operand depth) _ = _
      rw [marks_ok (advance_leaf (Or.inl ht) depth)]
      simp [mark, ht, Tree.marks]
  | name ht =>
      show g.marks (.operand depth) _ = _
      rw [marks_ok (advance_leaf (Or.inr ht) depth)]
      simp [mark, ht, Tree.marks]
  | bracket hl _ hr ih =>
      have hinner := ih (depth + 1)
      simp only [Part.marks, before, List.nil_append] at hinner ⊢
      rw [marks_ok (advance_leftParen hl depth), hinner,
        marks_ok (advance_rightParen hr depth)]
      simp [mark, hl, hr]
  | sign ht hop hpriority _ ih =>
      have hoperand := ih depth
      simp only [Part.marks, before, List.nil_append, Tree.marks, List.cons_append] at hoperand ⊢
      rw [marks_sign ht hop hpriority, hoperand]

/-- **A line has the marks of what it is read to**, and none if it is empty. -/
theorem ReadsLine.marks {is rest : List Item} {tree? : Option Tree}
    (h : g.ReadsLine is tree? rest) : g.marks .line is = tree?.elim [] Tree.marks := by
  cases h with
  | blank hstop =>
      rw [Grammar.marks]
      simp [advance, hstop]
  | expression h hstop =>
      obtain ⟨t, is, rfl, hkind, hkeyword⟩ :=
        exists_eq_cons_of_complete ((h.follow 0).trans (follow_stop hstop _))
      -- The token that tells what a line is leaves the mark that it leaves in an expression.
      have hline : g.marks .line (.ok t :: is) = g.marks (.operand 0) (.ok t :: is) := by
        rw [Grammar.marks, Grammar.marks, advance_line hkind hkeyword]
        rfl
      have hmarks := h.marks 0
      simp only [Part.marks, before, List.nil_append, marks_stop hstop, List.append_nil] at hmarks
      rw [hline, hmarks]
      rfl
  | @definition k x e _ is _ _ hk hx he h hstop =>
      have hmarks := h.marks 0
      simp only [Part.marks, before, List.nil_append, marks_stop hstop, List.append_nil] at hmarks
      have hkeyword : g.advance .line k = .ok (some .name) := by simp [advance, hk]
      have hname : g.advance .name x = .ok (some (.equals x.text)) := by simp [advance, hx]
      have hequals : g.advance (.equals x.text) e = .ok (some (.operand 0)) := by
        simp [advance, he]
      rw [marks_ok hkeyword, marks_ok hname, marks_ok hequals, hmarks]
      simp [mark, hk, Tree.marks]

/-! ### Grammars with the same operations -/

/-- Two grammars write the same operations in the same way, and place the same of them.  How many
levels there are and what stands in which, how a level groups, and which priority a sign has, may
differ. -/
structure SameOperations (g g' : Grammar) : Prop where
  binarySymbol : g.binarySymbol = g'.binarySymbol
  unarySymbol : g.unarySymbol = g'.unarySymbol
  places : ∀ op, g.Places op ↔ g'.Places op
  prioritized : ∀ op, (g.unaryPriority op).isSome = (g'.unaryPriority op).isSome

/-- A token is an operator if it writes an operation that stands in some level. -/
theorem isOperator_iff_places {t : Token} : g.isOperator t = true ↔
    t.kind = .symbol ∧ ∃ op, g.binaryOp? t.text = some op ∧ g.Places op := by
  rw [isOperator_iff]
  constructor
  · intro h
    obtain ⟨level, op, hop⟩ := h
    obtain ⟨hkind, hbinary, hplace⟩ := tokenOp?_eq_some_iff.1 hop
    exact ⟨hkind, op, hbinary, level, hplace⟩
  · intro h
    obtain ⟨hkind, op, hbinary, level, hplace⟩ := h
    exact ⟨level, op, tokenOp?_eq_some_iff.2 ⟨hkind, hbinary, hplace⟩⟩

section Same

variable {g' : Grammar} (h : g.SameOperations g')

include h

theorem SameOperations.binaryOp? (text : String) : g.binaryOp? text = g'.binaryOp? text := by
  rw [Grammar.binaryOp?, Grammar.binaryOp?, h.binarySymbol]

theorem SameOperations.unaryOp? (text : String) : g.unaryOp? text = g'.unaryOp? text := by
  rw [Grammar.unaryOp?, Grammar.unaryOp?, h.unarySymbol]

private theorem isOperator_congr (t : Token) : g.isOperator t = g'.isOperator t := by
  rw [Bool.eq_iff_iff, isOperator_iff_places, isOperator_iff_places, h.binaryOp?]
  simp only [h.places]

/-- Whether a sign has a priority matters to what is expected behind it, and nothing else of it. -/
theorem advanceOperand_congr (depth : Nat) (t : Token) :
    g.advanceOperand depth t = g'.advanceOperand depth t := by
  cases hkind : t.kind with
  | symbol =>
      simp only [advanceOperand, hkind, priorityOf, h.unaryOp?]
      cases g'.unaryOp? t.text with
      | none => rfl
      | some op =>
          have hsome := h.prioritized op
          cases hp : g.unaryPriority op <;> cases hp' : g'.unaryPriority op <;> simp_all
  | _ => simp [advanceOperand, hkind]

private theorem advance_congr (q : Expectation) (t : Token) : g.advance q t = g'.advance q t := by
  cases q with
  | line => simp only [advance, advanceOperand_congr h]
  | operand depth => simp only [advance, advanceOperand_congr h]
  | operator depth => simp only [advance, isOperator_congr h]
  | name => rfl
  | equals name => rfl

private theorem mark_congr (q : Expectation) (t : Token) : g.mark q t = g'.mark q t := by
  cases q with
  | line | operand => simp only [mark, h.unaryOp?]
  | operator => simp only [mark, h.binaryOp?]
  | name | equals => rfl

/-- **A line goes as far with one as with the other.** -/
theorem follow_congr (q : Expectation) (is : List Item) : g.follow q is = g'.follow q is := by
  induction is generalizing q with
  | nil => rfl
  | cons i is ih =>
      cases i with
      | error e => rfl
      | ok t => simp only [follow, advance_congr h, ih]

/-- **A line leaves the same marks with both.** -/
theorem marks_congr (q : Expectation) (is : List Item) : g.marks q is = g'.marks q is := by
  induction is generalizing q with
  | nil => rfl
  | cons i is ih =>
      cases i with
      | error e => rfl
      | ok t => simp only [marks, advance_congr h, mark_congr h, ih]

end Same

end Grammar

/-- **The same items are answered alike.**  With grammars that have the same operations, they are
both refused with one error, both read to nothing, or read to trees with the same marks. -/
theorem Parser.LineAnswers.map_marks_eq {σ : Type} [TokenStream σ] {g g' : Grammar}
    (h : g.SameOperations g') {is : List Item} {s s' m m' : PushBack σ}
    {answer answer' : Except ReadError (Option Tree)} (ha : LineAnswers g is m answer s)
    (ha' : LineAnswers g' is m' answer' s') :
    answer.map (Option.map Tree.marks) = answer'.map (Option.map Tree.marks) := by
  have hfollow : g.follow .line is = g'.follow .line is := Grammar.follow_congr h .line is
  cases answer with
  | error e =>
      obtain ⟨-, rest, -, hwrong⟩ := ha
      cases answer' with
      | error e' =>
          obtain ⟨-, rest', -, hwrong'⟩ := ha'
          rw [hwrong 0, hwrong' 0] at hfollow
          cases hfollow
          rfl
      | ok tree?' =>
          obtain ⟨-, rest', hr', -⟩ := ha'
          rw [hwrong 0, hr'.follow] at hfollow
          cases hfollow
  | ok tree? =>
      obtain ⟨-, rest, hr, -⟩ := ha
      cases answer' with
      | error e' =>
          obtain ⟨-, rest', -, hwrong'⟩ := ha'
          rw [hr.follow, hwrong' 0] at hfollow
          cases hfollow
      | ok tree?' =>
          obtain ⟨-, rest', hr', -⟩ := ha'
          have hmarks : tree?.elim [] Tree.marks = tree?'.elim [] Tree.marks := by
            rw [← hr.marks, ← hr'.marks, Grammar.marks_congr h]
          -- A tree has marks, so the marks tell whether there is one.
          cases tree? with
          | none =>
              cases tree?' with
              | none => rfl
              | some tree' => exact absurd hmarks.symm tree'.marks_ne_nil
          | some tree =>
              cases tree?' with
              | none => exact absurd hmarks tree.marks_ne_nil
              | some tree' => exact congrArg (fun marks => Except.ok (some marks)) hmarks

end Calculator
