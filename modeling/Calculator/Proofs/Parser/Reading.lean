/-
Reading one part after the other.

`Reads part is tree rest` says how a part is read off the front of some items: it
follows the grammar, but it looks at the token behind a level and goes on as long
as that token is an operator of it.  So there is never a choice, and a part goes as
far as it can.

Two facts carry everything that is said of readings later.  A reading takes tokens
that the grammar derives, and leaves the rest as it was (`Reads.derives`).  And the
token behind an expression is an operator of no level that the expression could
still have taken (`Reads.stops`).  The second is what a level does not check by
itself: it has asked about its own operators only, and the tighter levels within
have asked about theirs.
-/
import Calculator.Parser.Expression
import Calculator.Proofs.Parser.Derivation
import Calculator.Proofs.Token.Delivery

namespace Calculator

namespace Grammar

/-- The part is read off the front of the items, as far as it goes. -/
inductive Reads (g : Grammar) : Part → List Item → Tree → List Item → Prop
  | operand {level : Nat} {is rest : List Item} {tree : Tree} (hlevel : g.height ≤ level)
      (h : Reads g .operand is tree rest) : Reads g (.expression level) is tree rest
  | left {level : Nat} {is mid rest : List Item} {first tree : Tree}
      (hlevel : g.associativity? level = some .left)
      (hfirst : Reads g (.expression (level + 1)) is first mid)
      (hrest : Reads g (.chain level first) mid tree rest) :
      Reads g (.expression level) is tree rest
  | chainEnd {level : Nat} {left : Tree} {t : Token} {is : List Item}
      (ht : g.tokenOp? level t = none) :
      Reads g (.chain level left) (.ok t :: is) left (.ok t :: is)
  | chainLink {level : Nat} {op : BinaryOp} {o : Token} {is mid rest : List Item}
      {left right tree : Tree} (hop : g.tokenOp? level o = some op)
      (hright : Reads g (.expression (level + 1)) is right mid)
      (hrest : Reads g (.chain level (.binary op left right)) mid tree rest) :
      Reads g (.chain level left) (.ok o :: is) tree rest
  | rightOne {level : Nat} {t : Token} {is rest : List Item} {tree : Tree}
      (hlevel : g.associativity? level = some .right)
      (h : Reads g (.expression (level + 1)) is tree (.ok t :: rest))
      (ht : g.tokenOp? level t = none) : Reads g (.expression level) is tree (.ok t :: rest)
  | right {level : Nat} {op : BinaryOp} {o : Token} {is mid rest : List Item} {left right : Tree}
      (hlevel : g.associativity? level = some .right)
      (hleft : Reads g (.expression (level + 1)) is left (.ok o :: mid))
      (hop : g.tokenOp? level o = some op) (hright : Reads g (.expression level) mid right rest) :
      Reads g (.expression level) is (.binary op left right) rest
  | number {t : Token} {rest : List Item} (ht : t.kind = .number) :
      Reads g .operand (.ok t :: rest) (.number t.text) rest
  | name {t : Token} {rest : List Item} (ht : t.kind = .name) :
      Reads g .operand (.ok t :: rest) (.var t.text) rest
  | bracket {l r : Token} {is rest : List Item} {tree : Tree} (hl : l.kind = .leftParen)
      (h : Reads g (.expression 0) is tree (.ok r :: rest)) (hr : r.kind = .rightParen) :
      Reads g .operand (.ok l :: is) tree rest
  | sign {op : UnaryOp} {priority : Nat} {t : Token} {is rest : List Item} {tree : Tree}
      (ht : t.kind = .symbol) (hop : g.unaryOp? t.text = some op)
      (hpriority : g.unaryPriority op = some priority)
      (h : Reads g (.expression (g.operandLevel priority)) is tree rest) :
      Reads g .operand (.ok t :: is) (.unary op tree) rest

/-- A line is read up to its end; a line that is empty has no tree. -/
inductive ReadsLine (g : Grammar) : List Item → Option Tree → List Item → Prop
  | blank {stop : Token} {rest : List Item} (hstop : stop.kind = .stop) :
      ReadsLine g (.ok stop :: rest) none rest
  | expression {stop : Token} {is rest : List Item} {tree : Tree}
      (h : g.Reads (.expression 0) is tree (.ok stop :: rest)) (hstop : stop.kind = .stop) :
      ReadsLine g is (some tree) rest
  | definition {k x e stop : Token} {is rest : List Item} {value : Tree} (hk : k.kind = .keyword)
      (hx : x.kind = .name) (he : e.kind = .equals)
      (h : g.Reads (.expression 0) is value (.ok stop :: rest)) (hstop : stop.kind = .stop) :
      ReadsLine g (.ok k :: .ok x :: .ok e :: is) (some (.define x.text value)) rest

variable {g : Grammar}

/-! ### What a look-up says of the table -/

/-- A token writes an operation of a level if it is the symbol of one that stands there. -/
theorem tokenOp?_eq_some_iff {level : Nat} {t : Token} {op : BinaryOp} :
    g.tokenOp? level t = some op ↔ t.kind = .symbol ∧ g.binaryOp? t.text = some op ∧
      ∃ l, g.levels[level]? = some l ∧ l.has op = true := by
  constructor
  · intro h
    unfold tokenOp? at h
    split at h
    · rename_i hkind
      unfold opAt? at h
      split at h
      · rename_i op' l hop hl
        split at h
        · rename_i hhas
          cases h
          exact ⟨hkind, hop, l, hl, hhas⟩
        · cases h
      · cases h
    · cases h
  · intro h
    obtain ⟨hkind, hop, l, hl, hhas⟩ := h
    simp [tokenOp?, hkind, opAt?, hop, hl, hhas]

theorem isOperatorOf_of_tokenOp? {level : Nat} {t : Token} {op : BinaryOp}
    (h : g.tokenOp? level t = some op) : g.IsOperatorOf level op t := by
  obtain ⟨hkind, hop, hplace⟩ := tokenOp?_eq_some_iff.1 h
  exact ⟨hkind, Operation.symbol_of_ofSymbol? hop, hplace⟩

theorem isSignOf_of_unaryOp? {t : Token} {op : UnaryOp} {priority : Nat} (ht : t.kind = .symbol)
    (hop : g.unaryOp? t.text = some op) (hpriority : g.unaryPriority op = some priority) :
    g.IsSignOf op priority t :=
  ⟨ht, Operation.symbol_of_ofSymbol? hop, hpriority⟩

/-- Past the last level there are no operators. -/
theorem tokenOp?_eq_none_of_le {level : Nat} (h : g.height ≤ level) (t : Token) :
    g.tokenOp? level t = none := by
  rw [Option.eq_none_iff_forall_ne_some]
  intro op hop
  exact absurd h (Nat.not_le.2 (isOperatorOf_of_tokenOp? hop).lt_height)

/-! ### A reading follows the grammar -/

/-- **What is read is derived**: the items begin with tokens that stand for the tree, none of them
the end, and the rest is what lies behind them. -/
theorem Reads.derives {part : Part} {is rest : List Item} {tree : Tree}
    (h : g.Reads part is tree rest) :
    ∃ ts : List Token, is = ts.map .ok ++ rest ∧ g.Derives part ts tree ∧
      ∀ t ∈ ts, t.kind ≠ .stop := by
  induction h with
  | operand hlevel _ ih =>
      obtain ⟨ts, rfl, hd, hts⟩ := ih
      exact ⟨ts, rfl, .operand hlevel hd, hts⟩
  | left hlevel _ _ ih ih' =>
      obtain ⟨ts, rfl, hd, hts⟩ := ih
      obtain ⟨us, rfl, hd', hus⟩ := ih'
      exact ⟨ts ++ us, by simp, .left hlevel hd hd', List.forall_mem_append.2 ⟨hts, hus⟩⟩
  | chainEnd => exact ⟨[], rfl, .chainEnd _ _, by simp⟩
  | chainLink hop _ _ ih ih' =>
      have ho := isOperatorOf_of_tokenOp? hop
      obtain ⟨ts, rfl, hd, hts⟩ := ih
      obtain ⟨us, rfl, hd', hus⟩ := ih'
      refine ⟨_ :: (ts ++ us), by simp, .chainLink ho hd hd', List.forall_mem_cons.2 ⟨?_, ?_⟩⟩
      · simp [ho.1]
      · exact List.forall_mem_append.2 ⟨hts, hus⟩
  | rightOne hlevel _ _ ih =>
      obtain ⟨ts, rfl, hd, hts⟩ := ih
      exact ⟨ts, rfl, .rightOne hlevel hd, hts⟩
  | right hlevel _ hop _ ih ih' =>
      have ho := isOperatorOf_of_tokenOp? hop
      obtain ⟨ts, rfl, hd, hts⟩ := ih
      obtain ⟨us, rfl, hd', hus⟩ := ih'
      refine ⟨ts ++ _ :: us, by simp, .right hlevel hd ho hd', List.forall_mem_append.2 ⟨hts, ?_⟩⟩
      exact List.forall_mem_cons.2 ⟨by simp [ho.1], hus⟩
  | number ht => exact ⟨[_], rfl, .number ht, by simp [ht]⟩
  | name ht => exact ⟨[_], rfl, .name ht, by simp [ht]⟩
  | bracket hl _ hr ih =>
      obtain ⟨ts, rfl, hd, hts⟩ := ih
      refine ⟨_ :: (ts ++ [_]), by simp, .bracket hl hd hr, List.forall_mem_cons.2 ⟨?_, ?_⟩⟩
      · simp [hl]
      · exact List.forall_mem_append.2 ⟨hts, by simp [hr]⟩
  | sign ht hop hpriority _ ih =>
      obtain ⟨ts, rfl, hd, hts⟩ := ih
      refine ⟨_ :: ts, by simp, .sign (isSignOf_of_unaryOp? ht hop hpriority) hd, ?_⟩
      exact List.forall_mem_cons.2 ⟨by simp [ht], hts⟩

/-- A reading takes at least the tokens that its part needs. -/
theorem Reads.length_le {part : Part} {is rest : List Item} {tree : Tree}
    (h : g.Reads part is tree rest) : rest.length + minimum part ≤ is.length := by
  obtain ⟨ts, rfl, hd, -⟩ := h.derives
  have := hd.minimum_le
  rw [List.length_append, List.length_map]
  omega

/-- A reading never takes the end, so it leaves closed items closed. -/
theorem Reads.closed {part : Part} {is rest : List Item} {tree : Tree}
    (h : g.Reads part is tree rest) (hc : Closed is) : Closed rest := by
  obtain ⟨ts, rfl, -, hts⟩ := h.derives
  exact hc.of_append hts

/-! ### A reading stops at no operator it could take -/

/-- If the items begin with a token, it is an operator of no level from the given one on. -/
def NoOperatorFrom (g : Grammar) (level : Nat) (is : List Item) : Prop :=
  ∀ t rest, is = .ok t :: rest → ∀ l, level ≤ l → g.tokenOp? l t = none

/-- An operator of neither a level nor the levels above it is one of no level from it on. -/
theorem NoOperatorFrom.cons {level : Nat} {t : Token} {rest : List Item}
    (ht : g.tokenOp? level t = none) (h : g.NoOperatorFrom (level + 1) (.ok t :: rest)) :
    g.NoOperatorFrom level (.ok t :: rest) := by
  intro t' rest' he l hl
  cases he
  rcases Nat.eq_or_lt_of_le hl with rfl | hlt
  · exact ht
  · exact h t rest rfl l hlt

/-- What the token behind a part is not.  A chain has not looked for tighter operators in front of
it, so it relies on there being none. -/
def StopsAt (g : Grammar) : Part → List Item → List Item → Prop
  | .expression level, _, rest => g.NoOperatorFrom level rest
  | .chain level _, is, rest => g.NoOperatorFrom (level + 1) is → g.NoOperatorFrom level rest
  | .operand, _, _ => True

/-- **Behind an expression stands no operator that it could have taken.** -/
theorem Reads.stops {part : Part} {is rest : List Item} {tree : Tree}
    (h : g.Reads part is tree rest) : g.StopsAt part is rest := by
  -- A level has asked about its own operators, and what it was read from about the tighter ones.
  induction h with
  | operand hlevel _ _ =>
      intro t rest _ l hl
      exact tokenOp?_eq_none_of_le (Nat.le_trans hlevel hl) t
  | left _ _ _ ih ih' => exact ih' ih
  | chainEnd ht => exact fun h => h.cons ht
  | chainLink _ _ _ ih ih' => exact fun _ => ih' ih
  | rightOne _ _ ht ih => exact ih.cons ht
  | right _ _ _ _ _ ih => exact ih
  | number => trivial
  | name => trivial
  | bracket => trivial
  | sign => trivial

/-! ### Lines -/

/-- **A line that is read to a tree is a sentence**, with the end behind it. -/
theorem ReadsLine.sentence {is rest : List Item} {tree : Tree}
    (h : g.ReadsLine is (some tree) rest) :
    ∃ (ts : List Token) (stop : Token), is = ts.map .ok ++ .ok stop :: rest ∧
      stop.kind = .stop ∧ (∀ t ∈ ts, t.kind ≠ .stop) ∧ g.Sentence ts tree := by
  cases h with
  | @expression stop _ _ _ h hstop =>
      obtain ⟨ts, rfl, hd, hts⟩ := h.derives
      exact ⟨ts, stop, rfl, hstop, hts, .expression hd⟩
  | @definition k x e stop _ _ _ hk hx he h hstop =>
      obtain ⟨ts, rfl, hd, hts⟩ := h.derives
      refine ⟨k :: x :: e :: ts, stop, rfl, hstop, ?_, .definition hk hx he hd⟩
      simpa [hk, hx, he] using hts

end Grammar

end Calculator
