/-
What is read and what is derived can be followed.

Two ways lead to a tree: the parser's, which goes on wherever it can, and the
grammar's, which may stop earlier.  They need not lead to the same tree.  But both
pass through the same expectations, because an expectation does not depend on which
level a token was taken for: in front of a part an operand is expected, and behind it
an operator, at the same depth (`Reads.follow`, `Derives.follow`).

For the grammar the table has to be sound, because the grammar speaks of symbols and
`advance` of look-ups.
-/
import Calculator.Proofs.Parser.Expectation
import Calculator.Proofs.Table.Sound

namespace Calculator

namespace Grammar

variable {g : Grammar}

/-! ### What is read is followed -/

/-- The expectation in front of a part. -/
def before (depth : Nat) : Part → Expectation
  | .expression _ | .operand => .operand depth
  | .chain _ _ => .operator depth

/-- **A reading can be followed**, at any depth, and behind it an operator is expected. -/
theorem Reads.follow {part : Part} {is rest : List Item} {tree : Tree}
    (h : g.Reads part is tree rest) (depth : Nat) :
    g.follow (before depth part) is = g.follow (.operator depth) rest := by
  induction h generalizing depth with
  | operand _ _ ih => exact ih depth
  | left _ _ _ ih ih' => exact (ih depth).trans (ih' depth)
  | chainEnd => rfl
  | chainLink hop _ _ ih ih' =>
      have ho := isOperator_iff.2 ⟨_, _, hop⟩
      exact (follow_ok (advance_operator ho depth)).trans ((ih depth).trans (ih' depth))
  | rightOne _ _ _ ih => exact ih depth
  | right _ _ hop _ ih ih' =>
      have ho := isOperator_iff.2 ⟨_, _, hop⟩
      exact (ih depth).trans ((follow_ok (advance_operator ho depth)).trans (ih' depth))
  | number ht => exact follow_ok (advance_leaf (Or.inl ht) depth)
  | name ht => exact follow_ok (advance_leaf (Or.inr ht) depth)
  | bracket hl _ hr ih =>
      calc g.follow (.operand depth) _
          = g.follow (.operand (depth + 1)) _ := follow_ok (advance_leftParen hl depth)
        _ = g.follow (.operator (depth + 1)) _ := ih (depth + 1)
        _ = g.follow (.operator depth) _ := follow_ok (advance_rightParen hr depth)
  | sign ht hop hpriority _ ih =>
      exact (follow_ok (advance_sign ht (priorityOf_eq hop hpriority) depth)).trans (ih depth)

/-- A line that is read can be followed to its end. -/
theorem ReadsLine.follow {is rest : List Item} {tree? : Option Tree}
    (h : g.ReadsLine is tree? rest) : g.follow .line is = .complete rest := by
  cases h with
  | blank hstop => exact follow_blank hstop rest
  | expression h hstop =>
      exact follow_line_of_complete ((h.follow 0).trans (follow_stop hstop rest))
  | definition hk hx he h hstop =>
      exact (follow_definition hk hx he _).trans ((h.follow 0).trans (follow_stop hstop rest))

/-! ### What is derived is followed

The grammar names operators by their symbols.  In a sound table a symbol writes one
operation of each kind, so the look-ups find the operation that was meant.
-/

section Sound

variable {table : Table} (hs : table.Sound)

include hs

private theorem binaryOp?_eq {op : BinaryOp} {s : String}
    (h : table.grammar.binarySymbol op = some s) : table.grammar.binaryOp? s = some op :=
  Operation.ofSymbol?_eq_some hs.binary_inj h

theorem unaryOp?_eq {op : UnaryOp} {s : String}
    (h : table.grammar.unarySymbol op = some s) : table.grammar.unaryOp? s = some op :=
  Operation.ofSymbol?_eq_some hs.unary_inj h

theorem IsOperatorOf.tokenOp? {level : Nat} {op : BinaryOp} {t : Token}
    (h : table.grammar.IsOperatorOf level op t) :
    table.grammar.tokenOp? level t = some op := by
  obtain ⟨hkind, hsymbol, hplace⟩ := h
  exact tokenOp?_eq_some_iff.2 ⟨hkind, binaryOp?_eq hs hsymbol, hplace⟩

theorem IsSignOf.priorityOf {op : UnaryOp} {priority : Nat} {t : Token}
    (h : table.grammar.IsSignOf op priority t) :
    table.grammar.priorityOf t.text = .ok (some priority) :=
  priorityOf_eq (unaryOp?_eq hs h.2.1) h.2.2

/-- **A derivation can be followed**, at any depth and whatever lies behind it. -/
theorem Derives.follow {part : Part} {ts : List Token} {tree : Tree}
    (h : table.grammar.Derives part ts tree) (depth : Nat) (rest : List Item) :
    table.grammar.follow (before depth part) (ts.map .ok ++ rest)
      = table.grammar.follow (.operator depth) rest := by
  induction h generalizing depth rest with
  | operand _ _ ih => exact ih depth rest
  | left _ _ _ ih ih' =>
      rw [List.map_append, List.append_assoc]
      exact (ih depth _).trans (ih' depth rest)
  | chainEnd => rfl
  | chainLink hop _ _ ih ih' =>
      have ho := isOperator_iff.2 ⟨_, _, IsOperatorOf.tokenOp? hs hop⟩
      rw [List.map_cons, List.map_append, List.cons_append, List.append_assoc]
      exact (follow_ok (advance_operator ho depth)).trans ((ih depth _).trans (ih' depth rest))
  | rightOne _ _ ih => exact ih depth rest
  | right _ _ hop _ ih ih' =>
      have ho := isOperator_iff.2 ⟨_, _, IsOperatorOf.tokenOp? hs hop⟩
      rw [List.map_append, List.map_cons, List.append_assoc, List.cons_append]
      exact (ih depth _).trans ((follow_ok (advance_operator ho depth)).trans (ih' depth rest))
  | number ht => exact follow_ok (advance_leaf (Or.inl ht) depth)
  | name ht => exact follow_ok (advance_leaf (Or.inr ht) depth)
  | bracket hl _ hr ih =>
      rw [List.map_cons, List.map_append, List.cons_append, List.append_assoc]
      calc table.grammar.follow (.operand depth) _
          = table.grammar.follow (.operand (depth + 1)) _ := follow_ok (advance_leftParen hl depth)
        _ = table.grammar.follow (.operator (depth + 1)) _ := ih (depth + 1) _
        _ = table.grammar.follow (.operator depth) rest := follow_ok (advance_rightParen hr depth)
  | sign ht _ ih =>
      exact (follow_ok (advance_sign ht.1 (IsSignOf.priorityOf hs ht) depth)).trans (ih depth rest)

/-- **A line of the grammar can be followed to its end.** -/
theorem Sentence.follow {ts : List Token} {tree : Tree} (h : table.grammar.Sentence ts tree)
    {stop : Token} (hstop : stop.kind = .stop) :
    table.grammar.follow .line (lineItems ts stop) = .complete [] := by
  cases h with
  | expression h =>
      refine follow_line_of_complete ?_
      exact (h.follow hs 0 [.ok stop]).trans (follow_stop hstop [])
  | definition hk hx he h =>
      refine (follow_definition hk hx he _).trans ?_
      exact (h.follow hs 0 [.ok stop]).trans (follow_stop hstop [])

end Sound

end Grammar

end Calculator
