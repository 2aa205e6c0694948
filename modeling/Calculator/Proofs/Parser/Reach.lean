/-
How far a sign reaches.

The operand of a sign is read at the level above its priority, or past the last level,
and it is read wherever the sign stands.  So a sign reaches as far as its priority
says, whatever operator stands before it: its operand takes no operator that is not
tighter (`Reaches.tighter`), and the token behind it is none that is (`Reaches.ends`).

Where an operand ends is not to be seen in the tree, so the reading is followed with a
phrase (`Reads.takesPhrase`).  A phrase keeps no operator looser than the level it is
read at, so the operand of a sign is what it should be as soon as the sign is read,
whatever is read behind it.  What does stand there is an end, a bracket or an operator,
because the line is accepted as a whole (`WellFormed.closes_of_mem_signs`).
-/
import Calculator.Proofs.Parser.Layout
import Calculator.Proofs.Parser.Precedence

namespace Calculator

/-- The node is a unary operation. -/
def Tree.isUnary : Tree → Bool
  | .unary .. => true
  | .number _ | .var _ | .binary .. | .define .. => false

/-- A unary operation where it stands in a line. -/
structure Occurrence where
  op : UnaryOp
  /-- The token that writes it. -/
  token : Token
  operand : Phrase
  /-- The tokens behind the operand. -/
  after : List Token

/-- The operation applied to the tree of its operand. -/
def Occurrence.tree (s : Occurrence) : Tree :=
  .unary s.op s.operand.tree

namespace Phrase

/-- The operators outside the brackets and outside the operands of the signs. -/
def operators : Phrase → List Token
  | leaf _ | bracket .. | sign .. => []
  | joined left _ o right => left.operators ++ o :: right.operators

/-- The signs of a phrase, in the order of the line, if these tokens are behind the phrase. -/
def signs : Phrase → List Token → List Occurrence
  | leaf _, _ => []
  | bracket _ inner closing, rest => inner.signs (closing :: rest)
  | sign op t operand, rest => ⟨op, t, operand, rest⟩ :: operand.signs rest
  | joined left _ o right, rest => left.signs (o :: (right.tokens ++ rest)) ++ right.signs rest

/-- **Every unary operation of the tree has its sign**, in the same order. -/
theorem map_tree_signs (c : Phrase) (rest : List Token) :
    (c.signs rest).map Occurrence.tree = c.tree.nodes.filter Tree.isUnary := by
  induction c generalizing rest with
  | leaf t =>
      rw [tree]
      split <;> rfl
  | bracket _ _ closing ih => exact ih (closing :: rest)
  | sign op t operand ih =>
      rw [signs, List.map_cons, ih]
      rfl
  | joined left op o right ihleft ihright =>
      rw [signs, List.map_append, ihleft, ihright, ← List.filter_append]
      rfl

private theorem LaysOut.map_tree_signs {g : Grammar} {c : Phrase} {ts : List Token} {tree : Tree}
    (h : c.LaysOut g ts tree) (rest : List Token) :
    (c.signs rest).map Occurrence.tree = tree.nodes.filter Tree.isUnary := by
  cases h with
  | expression _ _ htree => rw [Phrase.map_tree_signs, htree]
  | definition _ _ _ _ _ htree =>
      rw [Phrase.map_tree_signs, htree]
      rfl

/-- A sign stands in the line where its occurrence says. -/
theorem exists_append_of_mem_signs {c : Phrase} {rest : List Token} {s : Occurrence}
    (hs : s ∈ c.signs rest) :
    ∃ before, c.tokens ++ rest = before ++ s.token :: (s.operand.tokens ++ s.after) := by
  induction c generalizing rest with
  | leaf => cases hs
  | bracket opening inner closing ih =>
      obtain ⟨before, hbefore⟩ := ih hs
      exact ⟨opening :: before, by rw [tokens_bracket_append, hbefore, List.cons_append]⟩
  | sign op t operand ih =>
      rcases List.mem_cons.1 hs with rfl | hs
      · exact ⟨[], rfl⟩
      · obtain ⟨before, hbefore⟩ := ih hs
        exact ⟨t :: before, by rw [tokens, List.cons_append, hbefore, List.cons_append]⟩
  | joined left op o right ihleft ihright =>
      rw [tokens_joined_append]
      rcases List.mem_append.1 hs with hs | hs
      · exact ihleft hs
      · obtain ⟨before, hbefore⟩ := ihright hs
        exact ⟨left.tokens ++ o :: before, by rw [hbefore]; simp⟩

private theorem LaysOut.exists_append_of_mem_signs {g : Grammar} {c : Phrase} {ts rest : List Token}
    {tree : Tree} {s : Occurrence} (h : c.LaysOut g ts tree) (hs : s ∈ c.signs rest) :
    ∃ before, ts ++ rest = before ++ s.token :: (s.operand.tokens ++ s.after) := by
  obtain ⟨before, hbefore⟩ := Phrase.exists_append_of_mem_signs hs
  cases h with
  | expression _ hts => exact ⟨before, by rw [← hts, hbefore]⟩
  | @definition k x e _ _ _ _ _ _ hts => exact ⟨k :: x :: e :: before, by simp [← hts, hbefore]⟩

end Phrase

/-! ### How far a sign reaches -/

namespace Grammar

/-- The token is an operator of the level or a tighter one. -/
def IsOperatorFrom (g : Grammar) (level : Nat) (o : Token) : Prop :=
  ∃ l op, g.IsOperatorOf l op o ∧ level ≤ l

/-- The operand takes no operator that is not tighter than the sign, and leaves none that is. -/
structure Complete (g : Grammar) (priority : Nat) (s : Occurrence) : Prop where
  sign : g.IsSignOf s.op priority s.token
  tighter : ∀ o ∈ s.operand.operators, g.IsOperatorFrom (priority + 1) o
  ends : g.EndsAt (priority + 1) s.after

/-- The phrase is what an expression of the level may be, if these tokens are behind it. -/
structure Fits (g : Grammar) (level : Nat) (c : Phrase) (rest : List Token) : Prop where
  wellFormed : c.WellFormed g
  operators : ∀ o ∈ c.operators, g.IsOperatorFrom level o
  signs : ∀ s ∈ c.signs rest, ∃ priority, g.Complete priority s

namespace Fits

variable {g : Grammar} {level : Nat} {c : Phrase} {rest : List Token}

theorem looser (h : g.Fits (level + 1) c rest) : g.Fits level c rest := by
  refine ⟨h.wellFormed, ?_, h.signs⟩
  intro o ho
  obtain ⟨l, op, hop, hle⟩ := h.operators o ho
  exact ⟨l, op, hop, Nat.le_of_succ_le hle⟩

theorem leaf {t : Token} (ht : t.kind = .number ∨ t.kind = .name) :
    g.Fits level (.leaf t) rest :=
  ⟨.leaf ht, by simp [Phrase.operators], by simp [Phrase.signs]⟩

theorem bracket {opening closing : Token} (hopening : opening.kind = .leftParen)
    (h : g.Fits 0 c (closing :: rest)) (hclosing : closing.kind = .rightParen) :
    g.Fits level (.bracket opening c closing) rest :=
  ⟨.bracket hopening h.wellFormed hclosing, by simp [Phrase.operators], h.signs⟩

/-- Past the last level there are no operators, so the operand of a sign has none that is not
tighter. -/
theorem sign {op : UnaryOp} {priority : Nat} {t : Token} (ht : g.IsSignOf op priority t)
    (h : g.Fits (g.operandLevel priority) c rest) (hends : g.EndsAt (priority + 1) rest) :
    g.Fits level (.sign op t c) rest := by
  have htighter : ∀ o ∈ c.operators, g.IsOperatorFrom (priority + 1) o := by
    intro o ho
    obtain ⟨l, op, hop, hle⟩ := h.operators o ho
    have hlt : l < g.height := hop.lt_height
    refine ⟨l, op, hop, ?_⟩
    rw [operandLevel] at hle
    omega
  refine ⟨.sign ht h.wellFormed, by simp [Phrase.operators], ?_⟩
  exact List.forall_mem_cons.2 ⟨⟨priority, ht, htighter, hends⟩, h.signs⟩

theorem joined {left right : Phrase} {op : BinaryOp} {o : Token}
    (hleft : g.Fits level left (o :: (right.tokens ++ rest))) (ho : g.IsOperatorOf level op o)
    (hright : g.Fits level right rest) : g.Fits level (.joined left op o right) rest := by
  refine ⟨.joined hleft.wellFormed ho hright.wellFormed, ?_, ?_⟩
  · refine List.forall_mem_append.2 ⟨hleft.operators, List.forall_mem_cons.2 ⟨?_, hright.operators⟩⟩
    exact ⟨level, op, ho, Nat.le_refl _⟩
  · exact List.forall_mem_append.2 ⟨hleft.signs, hright.signs⟩

end Fits

/-- What a part takes off some tokens, as a phrase.  The rest of a level that groups from the left
carries any phrase of the level on that stands in front of it. -/
def TakesPhrase (g : Grammar) : Part → List Token → Tree → List Token → Prop
  | .operand, ts, tree, rest => ∃ c : Phrase,
      c.tokens ++ rest = ts ∧ c.tree = tree ∧ ∀ level, g.Fits level c rest
  | .expression level, ts, tree, rest => ∃ c : Phrase,
      c.tokens ++ rest = ts ∧ c.tree = tree ∧ g.Fits level c rest
  | .chain level left, ts, tree, rest => ∀ b : Phrase, b.tree = left → g.Fits level b ts →
      ∃ c : Phrase, c.tokens ++ rest = b.tokens ++ ts ∧ c.tree = tree ∧ g.Fits level c rest

/-- **What is read is a phrase**, in which every sign reaches as far as it can. -/
theorem Reads.takesPhrase {table : Table} (hs : table.Sound) {part : Part} {is rest : List Item}
    {tree : Tree} (h : table.grammar.Reads part is tree rest) {ts : List Token}
    (hts : is = ts.map .ok) :
    ∃ us : List Token, rest = us.map .ok ∧ table.grammar.TakesPhrase part ts tree us := by
  induction h generalizing ts with
  | operand _ _ ih =>
      obtain ⟨us, hus, c, htokens, htree, hc⟩ := ih hts
      exact ⟨us, hus, c, htokens, htree, hc _⟩
  | left _ _ _ ih ih' =>
      obtain ⟨us, hus, b, rfl, hb, hfits⟩ := ih hts
      obtain ⟨vs, hvs, hrest⟩ := ih' hus
      exact ⟨vs, hvs, hrest b hb hfits.looser⟩
  | chainEnd => exact ⟨ts, hts, fun b hb hfits => ⟨b, rfl, hb, hfits⟩⟩
  | @chainLink _ op o _ _ _ _ _ _ hop _ _ ih ih' =>
      obtain ⟨ts, rfl, htail⟩ := eq_cons_of_map_ok hts
      obtain ⟨us, hus, c, rfl, hc, hright⟩ := ih htail
      obtain ⟨vs, hvs, hrest⟩ := ih' hus
      refine ⟨vs, hvs, ?_⟩
      intro b hb hleft
      have hjoined := hleft.joined (isOperatorOf_of_tokenOp? hop) hright.looser
      simpa [Phrase.tokens] using hrest (.joined b op o c) (by rw [Phrase.tree, hb, hc]) hjoined
  | rightOne _ _ _ ih =>
      obtain ⟨us, hus, c, htokens, htree, hc⟩ := ih hts
      exact ⟨us, hus, c, htokens, htree, hc.looser⟩
  | @right _ op o _ _ _ _ _ _ _ hop _ ih ih' =>
      obtain ⟨us, hus, b, rfl, hb, hleft⟩ := ih hts
      obtain ⟨us, rfl, htail⟩ := eq_cons_of_map_ok hus
      obtain ⟨vs, hvs, c, rfl, hc, hright⟩ := ih' htail
      refine ⟨vs, hvs, .joined b op o c, by simp [Phrase.tokens], by rw [Phrase.tree, hb, hc], ?_⟩
      exact hleft.looser.joined (isOperatorOf_of_tokenOp? hop) hright
  | @number t _ ht =>
      obtain ⟨ts, rfl, htail⟩ := eq_cons_of_map_ok hts
      exact ⟨ts, htail, .leaf t, rfl, by simp [Phrase.tree, ht], fun _ => .leaf (Or.inl ht)⟩
  | @name t _ ht =>
      obtain ⟨ts, rfl, htail⟩ := eq_cons_of_map_ok hts
      exact ⟨ts, htail, .leaf t, rfl, by simp [Phrase.tree, ht], fun _ => .leaf (Or.inr ht)⟩
  | @bracket l r _ _ _ hl _ hr ih =>
      obtain ⟨ts, rfl, htail⟩ := eq_cons_of_map_ok hts
      obtain ⟨us, hus, c, rfl, hc, hinner⟩ := ih htail
      obtain ⟨us, rfl, hbehind⟩ := eq_cons_of_map_ok hus
      refine ⟨us, hbehind, .bracket l c r, ?_, hc, fun _ => hinner.bracket hl hr⟩
      exact Phrase.tokens_bracket_append l c r us
  | @sign op priority t _ _ _ ht hop hpriority h ih =>
      obtain ⟨ts, rfl, htail⟩ := eq_cons_of_map_ok hts
      obtain ⟨us, rfl, c, rfl, hc, hoperand⟩ := ih htail
      have hsign := isSignOf_of_unaryOp? ht hop hpriority
      exact ⟨us, rfl, .sign op t c, rfl, by rw [Phrase.tree, hc],
        fun _ => hoperand.sign hsign (h.endsAt hs)⟩

/-- The tokens begin with one that an operand can end at: the end, a closing bracket or an
operator. -/
def Closes (g : Grammar) (ts : List Token) : Prop :=
  ∃ t rest, ts = t :: rest ∧ (t.kind = .stop ∨ t.kind = .rightParen ∨ g.IsOperatorFrom 0 t)

end Grammar

/-- **Behind the operand of a sign stands what can be behind an operand**, if it stands behind the
phrase. -/
theorem Phrase.WellFormed.closes_of_mem_signs {g : Grammar} {c : Phrase} {rest : List Token}
    {s : Occurrence} (h : c.WellFormed g) (hrest : g.Closes rest) (hs : s ∈ c.signs rest) :
    g.Closes s.after := by
  induction h generalizing rest with
  | leaf => cases hs
  | @bracket _ closing _ _ _ hclosing ih =>
      exact ih ⟨closing, rest, rfl, Or.inr (Or.inl hclosing)⟩ hs
  | sign _ _ ih =>
      rcases List.mem_cons.1 hs with rfl | hs
      · exact hrest
      · exact ih hrest hs
  | @joined _ right op level o _ ho _ ihleft ihright =>
      rcases List.mem_append.1 hs with hs | hs
      · exact ihleft ⟨o, _, rfl, Or.inr (Or.inr ⟨level, op, ho, Nat.zero_le _⟩)⟩ hs
      · exact ihright hrest hs

/-- The operand of a sign is as long as its priority says. -/
structure Occurrence.Reaches (g : Grammar) (priority : Nat) (s : Occurrence) : Prop where
  /-- The token writes the operation, and that has the priority. -/
  sign : g.IsSignOf s.op priority s.token
  /-- The operand takes operators only that are tighter than the sign. -/
  tighter : ∀ o ∈ s.operand.operators,
    ∃ level op, g.IsOperatorOf level op o ∧ priority < level
  /-- It ends at the end, at a closing bracket, or at an operator that is not tighter. -/
  ends : ∃ t rest, s.after = t :: rest ∧ (t.kind = .stop ∨ t.kind = .rightParen ∨
    ∃ level op, g.IsOperatorOf level op t ∧ level ≤ priority)
  /-- Where no level is tighter than the sign, it takes one operand without operators. -/
  bare : g.height ≤ priority + 1 → ∀ left op o right, s.operand ≠ .joined left op o right

private theorem Grammar.Complete.reaches {g : Grammar} {priority : Nat} {s : Occurrence}
    (h : g.Complete priority s) (hafter : g.Closes s.after) : s.Reaches g priority := by
  refine ⟨h.sign, h.tighter, ?_, ?_⟩
  · obtain ⟨t, rest, heq, ht⟩ := hafter
    refine ⟨t, rest, heq, ht.imp_right (Or.imp_right ?_)⟩
    rintro ⟨level, op, hop, -⟩
    have hends : ¬ priority + 1 ≤ level := fun hle => h.ends t (by rw [heq]; rfl) level op hle hop
    exact ⟨level, op, hop, Nat.le_of_not_lt hends⟩
  · intro hheight left op o right hjoined
    obtain ⟨level, op, hop, hle⟩ := h.tighter o (by simp [hjoined, Phrase.operators])
    exact absurd (Nat.lt_of_lt_of_le hop.lt_height hheight) (Nat.not_lt.2 hle)

/-! ### Lines -/

namespace Grammar

variable {table : Table}

private theorem Reads.exists_fits (hs : table.Sound) {ts : List Token} {stop : Token} {tree : Tree}
    (h : table.grammar.Reads (.expression 0) (lineItems ts stop) tree [.ok stop]) :
    ∃ c : Phrase, c.tokens = ts ∧ c.tree = tree ∧ table.grammar.Fits 0 c [stop] := by
  have hitems : lineItems ts stop = (ts ++ [stop]).map .ok := by simp [lineItems]
  obtain ⟨us, hus, c, htokens, htree, hc⟩ := h.takesPhrase hs hitems
  obtain rfl : us = [stop] := by simpa using hus.symm
  exact ⟨c, List.append_cancel_right htokens, htree, hc⟩

/-- What a line is read to is laid out by a phrase. -/
theorem ReadsLine.exists_laysOut (hs : table.Sound) {ts : List Token} {stop : Token} {tree : Tree}
    {rest : List Item} (hts : ∀ t ∈ ts, t.kind ≠ .stop)
    (h : table.grammar.ReadsLine (lineItems ts stop) (some tree) rest) :
    ∃ c : Phrase, c.LaysOut table.grammar ts tree ∧ table.grammar.Fits 0 c [stop] := by
  rcases h.cases_lineItems hts with h | ⟨k, x, e, us, value, rfl, rfl, hk, hx, he, h⟩
  · obtain ⟨c, htokens, htree, hc⟩ := h.exists_fits hs
    exact ⟨c, .expression hc.wellFormed htokens htree, hc⟩
  · obtain ⟨c, htokens, htree, hc⟩ := h.exists_fits hs
    exact ⟨c, .definition hk hx he hc.wellFormed htokens htree, hc⟩

end Grammar

namespace LineReader

variable {σ : Type} [TokenStream σ]

/-- **A sign reaches exactly as far as its priority says.**  A line that is accepted is laid out in
one way.  In that, every sign has an operand whose operators are tighter than the sign, and behind
the operand stands no operator that is tighter. -/
theorem signs_reach {d : Draft} {table : Table} (hb : d.build = .ok table) (r : LineReader σ)
    (hg : r.grammar = table.grammar) {ts : List Token} {stop : Token} {after : PushBack σ}
    (hts : ∀ t ∈ ts, t.kind ≠ .stop) (hstop : stop.kind = .stop)
    (hd : Delivers r.tokens (lineItems ts stop) after) :
    ∃ out, r.Yields out ∧ ∀ tree, out.answer = .ok (some tree) →
      ∃ c : Phrase, c.LaysOut table.grammar ts tree ∧
        (∀ c' : Phrase, c'.LaysOut table.grammar ts tree → c' = c) ∧
        (c.signs [stop]).map Occurrence.tree = tree.nodes.filter Tree.isUnary ∧
        ∀ s ∈ c.signs [stop], ∃ priority, s.Reaches table.grammar priority ∧
          ∃ before, ts ++ [stop] = before ++ s.token :: (s.operand.tokens ++ s.after) := by
  obtain ⟨out, hyields, -, hanswer⟩ := yields_answers hd (closed_lineItems hstop)
  refine ⟨out, hyields, ?_⟩
  intro tree htree
  rw [hg, htree] at hanswer
  obtain ⟨-, rest, hr, -⟩ := hanswer
  obtain ⟨c, hc, hfits⟩ := hr.exists_laysOut (Draft.sound_of_build hb) hts
  have hend : table.grammar.Closes [stop] := ⟨stop, [], rfl, Or.inl hstop⟩
  refine ⟨c, hc, fun c' hc' => hc.unique hc', hc.map_tree_signs [stop], ?_⟩
  intro s hs
  obtain ⟨priority, hcomplete⟩ := hfits.signs s hs
  exact ⟨priority, hcomplete.reaches (hfits.wellFormed.closes_of_mem_signs hend hs),
    hc.exists_append_of_mem_signs hs⟩

/-- The phrase of `2 ** - 3 * 4`: the sign takes the product, although a power stands before it. -/
def lowSignPhrase : Phrase :=
  .joined (.leaf ⟨.number, "2"⟩) .pow ⟨.symbol, "**"⟩
    (.sign .neg ⟨.symbol, "-"⟩
      (.joined (.leaf ⟨.number, "3"⟩) .mul ⟨.symbol, "*"⟩ (.leaf ⟨.number, "4"⟩)))

/-- The sign in it, up to the end of the line. -/
def lowSignOccurrence : Occurrence where
  op := .neg
  token := ⟨.symbol, "-"⟩
  operand := .joined (.leaf ⟨.number, "3"⟩) .mul ⟨.symbol, "*"⟩ (.leaf ⟨.number, "4"⟩)
  after := [.bare .stop]

private theorem laysOut_lowSignPhrase :
    lowSignPhrase.LaysOut Table.standard.grammar lowSign lowSignTree := by
  have hpower : Table.standard.grammar.IsOperatorOf 2 .pow ⟨.symbol, "**"⟩ :=
    ⟨rfl, by decide, _, rfl, by decide⟩
  have htimes : Table.standard.grammar.IsOperatorOf 1 .mul ⟨.symbol, "*"⟩ :=
    ⟨rfl, by decide, _, rfl, by decide⟩
  have hsign : Table.standard.grammar.IsSignOf .neg 0 ⟨.symbol, "-"⟩ :=
    ⟨rfl, by decide, by decide⟩
  exact .expression (.joined (.leaf (Or.inl rfl)) hpower
    (.sign hsign (.joined (.leaf (Or.inl rfl)) htimes (.leaf (Or.inl rfl))))) rfl rfl

theorem signs_reach_lowSign :
    (∀ t ∈ lowSign, t.kind ≠ .stop) ∧
      (∃ after, Delivers lowSignReader.tokens (lineItems lowSign (.bare .stop)) after) ∧
      ∃ out, lowSignReader.Yields out ∧ out.answer = .ok (some lowSignTree) ∧
        lowSignOccurrence.Reaches Table.standard.grammar 0 := by
  have hts : ∀ t ∈ lowSign, t.kind ≠ .stop := by decide
  obtain ⟨m, hm⟩ := Script.exists_delivers (Script.new (lineItems lowSign (.bare .stop)))
  have hd : Delivers lowSignReader.tokens (lineItems lowSign (.bare .stop)) (.wrap m) :=
    PushBack.delivers_wrap hm
  obtain ⟨out, hyields, hreach⟩ :=
    signs_reach Draft.build_standard lowSignReader rfl hts rfl hd
  have hread : (lowSignReader.readLine? 20).bind (·.answer.toOption) = some (some lowSignTree) := by
    decide +kernel
  have hok : out.answer = .ok (some lowSignTree) := hyields.answer_eq_ok hread
  obtain ⟨c, -, hunique, -, hsigns⟩ := hreach lowSignTree hok
  obtain rfl : lowSignPhrase = c := hunique lowSignPhrase laysOut_lowSignPhrase
  obtain ⟨priority, hreaches, -⟩ := hsigns lowSignOccurrence List.mem_cons_self
  obtain rfl : 0 = priority := Option.some.inj hreaches.sign.2.2
  exact ⟨hts, ⟨_, hd⟩, out, hyields, hok, hreaches⟩

end LineReader

end Calculator
