/-
The tree of a line is the tree of its chain.

The parser knows nothing of chains.  It descends through all levels to every operand,
collects a level that groups from the left in a loop and one that groups from the
right by reading itself again, and each time puts back the token that ended it.  What
comes of that is the tree that `Groups` makes of the whole chain at once
(`yields_tree_iff_isChainLine`).

From a reading to a chain the induction is on the reading, and the invariant is about
levels: what an expression of a level takes are links of that level and tighter ones,
and its tree is the tree of these links.  An operator of the level that joins two such
chains is then their pivot, from the left because what follows it is tighter, from
the right because what precedes it is.

From a chain to a reading there is no induction on levels at all.  A line that is cut
into a chain can be followed to its end, so it is read to some tree; that tree belongs
to a chain again, and there is only one.
-/
import Calculator.Proofs.Parser.Acceptance
import Calculator.Proofs.Parser.Chain

namespace Calculator

namespace Grammar

variable {table : Table}

/-! ### What is read is a chain -/

/-- Two chains with an operator between them that is not tighter than the first and looser than all
of the second are split at it, if its level groups from the left. -/
theorem Groups.join_left {g : Grammar} {a left right : Tree} {before after : List Link} {k : Link}
    (hk : g.associativity? k.level = some .left) (hbefore : ∀ l ∈ before, k.level ≤ l.level)
    (hafter : ∀ l ∈ after, k.level < l.level) (hleft : g.Groups a before left)
    (hright : g.Groups k.operand after right) :
    g.Groups a (before ++ k :: after) (.binary k.op left right) := by
  refine .split ⟨?_, ?_, ?_⟩ hleft hright
  · intro l hl
    rcases List.mem_append.1 hl with hl | hl
    · exact hbefore l hl
    · exact Nat.le_of_lt (hafter l hl)
  · intro _ l hl
    exact Nat.ne_of_gt (hafter l hl)
  · intro hright
    rw [hk] at hright
    cases hright

/-- The same from the right: the operator is looser than all of the first chain and not tighter than
the second. -/
theorem Groups.join_right {g : Grammar} {a left right : Tree} {before after : List Link} {k : Link}
    (hk : g.associativity? k.level = some .right) (hbefore : ∀ l ∈ before, k.level < l.level)
    (hafter : ∀ l ∈ after, k.level ≤ l.level) (hleft : g.Groups a before left)
    (hright : g.Groups k.operand after right) :
    g.Groups a (before ++ k :: after) (.binary k.op left right) := by
  refine .split ⟨?_, ?_, ?_⟩ hleft hright
  · intro l hl
    rcases List.mem_append.1 hl with hl | hl
    · exact Nat.le_of_lt (hbefore l hl)
    · exact hafter l hl
  · intro hleft
    rw [hk] at hleft
    cases hleft
  · intro _ l hl
    exact Nat.ne_of_gt (hbefore l hl)

/-- What a part takes off some tokens, as a chain.  An expression is a chain of links that are not
looser than its level; the rest of a level that groups from the left carries any such chain on. -/
def TakesChain (g : Grammar) : Part → List Token → Tree → List Token → Prop
  | .operand, ts, tree, rest => g.Cuts (.operand tree) ts rest
  | .expression level, ts, tree, rest => ∃ a links mid, g.Cuts (.operand a) ts mid ∧
      g.Cuts (.links links) mid rest ∧ (∀ l ∈ links, level ≤ l.level) ∧ g.Groups a links tree
  | .chain level left, ts, tree, rest => g.associativity? level = some .left →
      ∃ links, g.Cuts (.links links) ts rest ∧ (∀ l ∈ links, level ≤ l.level) ∧
        ∀ a before, (∀ l ∈ before, level ≤ l.level) → g.Groups a before left →
          g.Groups a (before ++ links) tree

private theorem level_lt_height {g : Grammar} {links : List Link} {ts rest : List Token}
    (h : g.Cuts (.links links) ts rest) {l : Link} (hl : l ∈ links) : l.level < g.height := by
  have hassoc := h.isSome_associativity? l hl
  rw [associativity?, Option.isSome_map, Option.isSome_iff_exists] at hassoc
  obtain ⟨level, hlevel⟩ := hassoc
  exact (List.getElem?_eq_some_iff.1 hlevel).1

theorem eq_cons_of_map_ok {ts : List Token} {t : Token} {is : List Item}
    (h : .ok t :: is = ts.map Except.ok) : ∃ us : List Token, ts = t :: us ∧ is = us.map .ok := by
  obtain ⟨t', us, rfl, ht, hus⟩ := List.map_eq_cons_iff.1 h.symm
  cases ht
  exact ⟨us, rfl, hus.symm⟩

namespace TakesChain

variable {g : Grammar} {level : Nat} {ts us vs : List Token} {tree : Tree}

/-- An operand is a chain without links. -/
theorem single (h : g.TakesChain .operand ts tree us) :
    g.TakesChain (.expression level) ts tree us :=
  ⟨tree, [], us, h, .noLink us, by simp, .one tree⟩

/-- A chain of tighter links is one of the level. -/
theorem looser (h : g.TakesChain (.expression (level + 1)) ts tree us) :
    g.TakesChain (.expression level) ts tree us := by
  obtain ⟨a, links, mid, hfirst, hlinks, hlevels, htree⟩ := h
  exact ⟨a, links, mid, hfirst, hlinks, fun l hl => Nat.le_of_lt (hlevels l hl), htree⟩

/-- A level that groups from the left is its first part and what carries that on. -/
theorem left {first : Tree} (hlevel : g.associativity? level = some .left)
    (hfirst : g.TakesChain (.expression (level + 1)) ts first us)
    (hrest : g.TakesChain (.chain level first) us tree vs) :
    g.TakesChain (.expression level) ts tree vs := by
  obtain ⟨a, links, mid, hoperand, hlinks, hlevels, htree⟩ := hfirst.looser
  obtain ⟨links', hlinks', hlevels', hcarry⟩ := hrest hlevel
  exact ⟨a, links ++ links', mid, hoperand, hlinks.append hlinks',
    List.forall_mem_append.2 ⟨hlevels, hlevels'⟩, hcarry a links hlevels htree⟩

/-- There may be nothing to carry on. -/
theorem chainEnd (left : Tree) : g.TakesChain (.chain level left) ts left ts := by
  refine fun _ => ⟨[], .noLink ts, by simp, ?_⟩
  intro a before _ h
  simpa using h

/-- Another operator and the tighter part behind it carry a level on. -/
theorem chainLink {op : BinaryOp} {o : Token} {left right : Tree} (ho : g.IsOperatorOf level op o)
    (hright : g.TakesChain (.expression (level + 1)) ts right us)
    (hrest : g.TakesChain (.chain level (.binary op left right)) us tree vs) :
    g.TakesChain (.chain level left) (o :: ts) tree vs := by
  intro hlevel
  obtain ⟨a', links, mid, hoperand, hlinks, hlevels, htree⟩ := hright
  obtain ⟨links', hlinks', hlevels', hcarry⟩ := hrest hlevel
  have hlink : ∀ l ∈ (⟨op, level, a'⟩ :: links : List Link), level ≤ l.level :=
    List.forall_mem_cons.2 ⟨Nat.le_refl _, fun l hl => Nat.le_of_lt (hlevels l hl)⟩
  refine ⟨⟨op, level, a'⟩ :: links ++ links',
    .link ho hoperand (hlinks.append hlinks'), List.forall_mem_append.2 ⟨hlink, hlevels'⟩, ?_⟩
  -- The chain so far and the part behind the operator are joined, and then carried on.
  intro a before hbefore hleft
  have hjoin : g.Groups a (before ++ ⟨op, level, a'⟩ :: links) (.binary op left right) :=
    .join_left hlevel hbefore hlevels hleft htree
  simpa using hcarry a _ (List.forall_mem_append.2 ⟨hbefore, hlink⟩) hjoin

/-- A level that groups from the right is a tighter part, an operator and the level again. -/
theorem right {op : BinaryOp} {o : Token} {left right : Tree}
    (hlevel : g.associativity? level = some .right) (ho : g.IsOperatorOf level op o)
    (hleft : g.TakesChain (.expression (level + 1)) ts left (o :: us))
    (hright : g.TakesChain (.expression level) us right vs) :
    g.TakesChain (.expression level) ts (.binary op left right) vs := by
  obtain ⟨a, links, mid, hfirst, hlinks, hlevels, htree⟩ := hleft
  obtain ⟨a', links', mid', hfirst', hlinks', hlevels', htree'⟩ := hright
  refine ⟨a, links ++ ⟨op, level, a'⟩ :: links', mid, hfirst,
    hlinks.append (.link ho hfirst' hlinks'), ?_,
    .join_right hlevel hlevels hlevels' htree htree'⟩
  refine List.forall_mem_append.2 ⟨fun l hl => Nat.le_of_lt (hlevels l hl), ?_⟩
  exact List.forall_mem_cons.2 ⟨Nat.le_refl _, hlevels'⟩

/-- A sign has for its operand a chain that no operator tighter than it could carry on. -/
theorem sign {op : UnaryOp} {priority : Nat} {t : Token} (ht : g.IsSignOf op priority t)
    (hwhole : g.EndsAt (priority + 1) us)
    (h : g.TakesChain (.expression (g.operandLevel priority)) ts tree us) :
    g.TakesChain .operand (t :: ts) (.unary op tree) us := by
  obtain ⟨a, links, mid, hfirst, hlinks, hlevels, htree⟩ := h
  refine Cuts.sign ht hfirst hlinks ?_ hwhole htree
  -- Past the last level there are no links, so the priority is below all there are.
  intro l hl
  have hle := hlevels l hl
  have hlt := level_lt_height hlinks hl
  simp only [operandLevel] at hle
  omega

end TakesChain

/-- Behind the operand of a sign stands no operator tighter than the sign. -/
theorem Reads.endsAt (hs : table.Sound) {priority : Nat} {is : List Item} {tree : Tree}
    {us : List Token}
    (h : table.grammar.Reads (.expression (table.grammar.operandLevel priority)) is tree
      (us.map .ok)) : table.grammar.EndsAt (priority + 1) us := by
  intro u hu l op hlevel hoperator
  obtain ⟨us, rfl⟩ : ∃ vs, us = u :: vs := List.head?_eq_some_iff.1 hu
  have hnone := h.stops u (us.map .ok) rfl l (Nat.le_trans (Nat.min_le_left _ _) hlevel)
  rw [IsOperatorOf.tokenOp? hs hoperator] at hnone
  cases hnone

/-- **What is read is a chain and its tree.** -/
theorem Reads.takesChain (hs : table.Sound) {part : Part} {is rest : List Item} {tree : Tree}
    (h : table.grammar.Reads part is tree rest) {ts : List Token} (hts : is = ts.map .ok) :
    ∃ us : List Token, rest = us.map .ok ∧ table.grammar.TakesChain part ts tree us := by
  induction h generalizing ts with
  | operand _ _ ih =>
      obtain ⟨us, hus, hchain⟩ := ih hts
      exact ⟨us, hus, hchain.single⟩
  | left hlevel _ _ ih ih' =>
      obtain ⟨us, hus, hfirst⟩ := ih hts
      obtain ⟨vs, hvs, hrest⟩ := ih' hus
      exact ⟨vs, hvs, hfirst.left hlevel hrest⟩
  | chainEnd => exact ⟨ts, hts, .chainEnd _⟩
  | chainLink hop _ _ ih ih' =>
      obtain ⟨ts, rfl, htail⟩ := eq_cons_of_map_ok hts
      obtain ⟨us, hus, hright⟩ := ih htail
      obtain ⟨vs, hvs, hrest⟩ := ih' hus
      exact ⟨vs, hvs, .chainLink (isOperatorOf_of_tokenOp? hop) hright hrest⟩
  | rightOne _ _ _ ih =>
      obtain ⟨us, hus, hchain⟩ := ih hts
      exact ⟨us, hus, hchain.looser⟩
  | right hlevel _ hop _ ih ih' =>
      obtain ⟨us, hus, hleft⟩ := ih hts
      obtain ⟨us, rfl, htail⟩ := eq_cons_of_map_ok hus
      obtain ⟨vs, hvs, hright⟩ := ih' htail
      exact ⟨vs, hvs, .right hlevel (isOperatorOf_of_tokenOp? hop) hleft hright⟩
  | number ht =>
      obtain ⟨ts, rfl, htail⟩ := eq_cons_of_map_ok hts
      exact ⟨ts, htail, .number ht⟩
  | name ht =>
      obtain ⟨ts, rfl, htail⟩ := eq_cons_of_map_ok hts
      exact ⟨ts, htail, .name ht⟩
  | bracket hl _ hr ih =>
      obtain ⟨ts, rfl, htail⟩ := eq_cons_of_map_ok hts
      obtain ⟨us, hus, a, links, mid, hfirst, hlinks, -, htree⟩ := ih htail
      obtain ⟨us, rfl, hbehind⟩ := eq_cons_of_map_ok hus
      exact ⟨us, hbehind, .bracket hl hfirst hlinks hr htree⟩
  | sign ht hop hpriority h ih =>
      obtain ⟨ts, rfl, htail⟩ := eq_cons_of_map_ok hts
      obtain ⟨us, rfl, hchain⟩ := ih htail
      exact ⟨us, rfl, hchain.sign (isSignOf_of_unaryOp? ht hop hpriority) (h.endsAt hs)⟩

/-- The end of a line cuts it in one way, and nothing lies behind it. -/
theorem lineItems_eq {ts us : List Token} {stop stop' : Token} {rest : List Item}
    (hts : ∀ t ∈ ts, t.kind ≠ .stop) (hus : ∀ t ∈ us, t.kind ≠ .stop) (hstop' : stop'.kind = .stop)
    (h : lineItems ts stop = us.map .ok ++ .ok stop' :: rest) :
    us = ts ∧ stop' = stop ∧ rest = [] := by
  obtain rfl : ts = us := lineItems_cancel hts hus hstop' h
  have hend : [.ok stop] = (.ok stop' :: rest : List Item) := List.append_cancel_left h
  obtain ⟨hstop, hrest⟩ := List.cons.inj hend
  cases hstop
  exact ⟨rfl, rfl, hrest.symm⟩

/-- A line that is read is an expression up to its end, or a definition by one. -/
theorem ReadsLine.cases_lineItems {g : Grammar} {ts : List Token} {stop : Token} {tree : Tree}
    {rest : List Item} (hts : ∀ t ∈ ts, t.kind ≠ .stop)
    (h : g.ReadsLine (lineItems ts stop) (some tree) rest) :
    g.Reads (.expression 0) (lineItems ts stop) tree [.ok stop] ∨
      ∃ k x e us value, ts = k :: x :: e :: us ∧ tree = .define x.text value ∧
        k.kind = .keyword ∧ x.kind = .name ∧ e.kind = .equals ∧
        g.Reads (.expression 0) (lineItems us stop) value [.ok stop] := by
  generalize his : lineItems ts stop = is at h
  cases h with
  | @expression stop' _ _ _ h hstop' =>
      obtain ⟨us, rfl, -, hus⟩ := h.derives
      obtain ⟨rfl, rfl, rfl⟩ := lineItems_eq hts hus hstop' his
      exact Or.inl h
  | @definition k x e stop' _ _ value hk hx he h hstop' =>
      obtain ⟨us, rfl, -, hus⟩ := h.derives
      have hline : ∀ t ∈ k :: x :: e :: us, t.kind ≠ .stop := by simpa [hk, hx, he] using hus
      obtain ⟨rfl, rfl, rfl⟩ := lineItems_eq hts hline hstop' his
      exact Or.inr ⟨k, x, e, us, value, rfl, rfl, hk, hx, he, h⟩

/-- **What an expression is read to is the tree of its chain.** -/
theorem Reads.isChain (hs : table.Sound) {ts : List Token} {stop : Token} {tree : Tree}
    (h : table.grammar.Reads (.expression 0) (lineItems ts stop) tree [.ok stop]) :
    table.grammar.IsChain ts stop tree := by
  have hitems : lineItems ts stop = (ts ++ [stop]).map .ok := by simp [lineItems]
  obtain ⟨us, hus, a, links, mid, hfirst, hlinks, -, htree⟩ := h.takesChain hs hitems
  obtain rfl : us = [stop] := by simpa using hus.symm
  exact ⟨a, links, mid, hfirst, hlinks, htree⟩

/-- What a line is read to is the tree of its chain. -/
theorem ReadsLine.isChainLine (hs : table.Sound) {ts : List Token} {stop : Token} {tree : Tree}
    {rest : List Item} (hts : ∀ t ∈ ts, t.kind ≠ .stop)
    (h : table.grammar.ReadsLine (lineItems ts stop) (some tree) rest) :
    table.grammar.IsChainLine ts stop tree := by
  rcases h.cases_lineItems hts with h | ⟨k, x, e, us, value, rfl, rfl, hk, hx, he, h⟩
  · exact .expression (h.isChain hs)
  · exact .definition hk hx he (h.isChain hs)

/-! ### A chain is read -/

/-- The expectation in front of a piece. -/
def Piece.before (depth : Nat) : Piece → Expectation
  | .operand _ => .operand depth
  | .links _ => .operator depth

/-- **A chain can be followed**, at any depth, and behind it an operator is expected. -/
theorem Cuts.follow (hs : table.Sound) {piece : Piece} {ts rest : List Token}
    (h : table.grammar.Cuts piece ts rest) (depth : Nat) :
    table.grammar.follow (piece.before depth) (ts.map .ok)
      = table.grammar.follow (.operator depth) (rest.map .ok) := by
  induction h generalizing depth with
  | number ht => exact follow_ok (advance_leaf (Or.inl ht) depth)
  | name ht => exact follow_ok (advance_leaf (Or.inr ht) depth)
  | bracket hl _ _ hr _ ihfirst ihlinks =>
      calc table.grammar.follow (.operand depth) _
          = table.grammar.follow (.operand (depth + 1)) _ := follow_ok (advance_leftParen hl depth)
        _ = table.grammar.follow (.operator (depth + 1)) _ := ihfirst (depth + 1)
        _ = table.grammar.follow (.operator (depth + 1)) _ := ihlinks (depth + 1)
        _ = table.grammar.follow (.operator depth) _ := follow_ok (advance_rightParen hr depth)
  | sign ht _ _ _ _ _ ihfirst ihlinks =>
      calc table.grammar.follow (.operand depth) _
          = table.grammar.follow (.operand depth) _ :=
            follow_ok (advance_sign ht.1 (IsSignOf.priorityOf hs ht) depth)
        _ = table.grammar.follow (.operator depth) _ := ihfirst depth
        _ = table.grammar.follow (.operator depth) _ := ihlinks depth
  | noLink => rfl
  | link hop _ _ ihoperand ihrest =>
      have ho := isOperator_iff.2 ⟨_, _, IsOperatorOf.tokenOp? hs hop⟩
      calc table.grammar.follow (.operator depth) _
          = table.grammar.follow (.operand depth) _ := follow_ok (advance_operator ho depth)
        _ = table.grammar.follow (.operator depth) _ := ihoperand depth
        _ = table.grammar.follow (.operator depth) _ := ihrest depth

theorem IsChain.follow (hs : table.Sound) {ts : List Token} {stop : Token} {tree : Tree}
    (hstop : stop.kind = .stop) (h : table.grammar.IsChain ts stop tree) :
    table.grammar.follow (.operand 0) (lineItems ts stop) = .complete [] := by
  obtain ⟨a, links, mid, hfirst, hlinks, -⟩ := h
  have hitems : lineItems ts stop = (ts ++ [stop]).map .ok := by simp [lineItems]
  rw [hitems]
  exact (hfirst.follow hs 0).trans ((hlinks.follow hs 0).trans (follow_stop hstop []))

/-- A line that is a chain can be followed to its end. -/
theorem IsChainLine.follow (hs : table.Sound) {ts : List Token} {stop : Token} {tree : Tree}
    (hstop : stop.kind = .stop) (h : table.grammar.IsChainLine ts stop tree) :
    table.grammar.follow .line (lineItems ts stop) = .complete [] := by
  cases h with
  | expression h => exact follow_line_of_complete (h.follow hs hstop)
  | definition hk hx he h => exact (follow_definition hk hx he _).trans (h.follow hs hstop)

/-- An operand begins with a token that begins no line of another kind. -/
theorem Cuts.exists_eq_cons {g : Grammar} {tree : Tree} {ts rest : List Token}
    (h : g.Cuts (.operand tree) ts rest) :
    ∃ t us, ts = t :: us ∧ t.kind ≠ .stop ∧ t.kind ≠ .keyword := by
  cases h with
  | number ht | name ht => exact ⟨_, _, rfl, by simp [ht], by simp [ht]⟩
  | bracket hl => exact ⟨_, _, rfl, by simp [hl], by simp [hl]⟩
  | sign ht => exact ⟨_, _, rfl, by simp [ht.1], by simp [ht.1]⟩

theorem IsChain.exists_eq_cons {g : Grammar} {ts : List Token} {stop : Token} {tree : Tree}
    (hstop : stop.kind = .stop) (h : g.IsChain ts stop tree) :
    ∃ t us, ts = t :: us ∧ t.kind ≠ .keyword := by
  obtain ⟨a, links, mid, hfirst, -, -⟩ := h
  obtain ⟨t, us, hts, hkind, hkeyword⟩ := hfirst.exists_eq_cons
  cases ts with
  | nil =>
      obtain ⟨rfl, -⟩ : stop = t ∧ _ := by simpa using hts
      exact absurd hstop hkind
  | cons u ts =>
      obtain ⟨rfl, -⟩ : u = t ∧ _ := by simpa using hts
      exact ⟨u, ts, rfl, hkeyword⟩

/-- **The tokens of a line are the chain of one tree.** -/
theorem IsChainLine.unique (hs : table.Sound) (ho : table.grammar.Orderly) {ts : List Token}
    {stop : Token} {tree tree' : Tree} (hstop : stop.kind = .stop)
    (h : table.grammar.IsChainLine ts stop tree) (h' : table.grammar.IsChainLine ts stop tree') :
    tree' = tree := by
  have hnot : ∀ {k : Token} {us : List Token} {value : Tree}, k.kind = .keyword →
      ¬ table.grammar.IsChain (k :: us) stop value := by
    intro k us value hk hchain
    obtain ⟨t, vs, heq, hkeyword⟩ := hchain.exists_eq_cons hstop
    obtain ⟨rfl, -⟩ := List.cons.inj heq
    exact hkeyword hk
  cases h with
  | expression h =>
      cases h' with
      | expression h' => exact h.unique hs ho hstop h'
      | definition hk => exact absurd h (hnot hk)
  | definition hk _ _ h =>
      cases h' with
      | expression h' => exact absurd h' (hnot hk)
      | definition _ _ _ h' => rw [h.unique hs ho hstop h']

end Grammar

/-- **A line is answered with a tree exactly if its tokens are the chain of that tree.** -/
theorem Parser.LineAnswers.eq_ok_iff {σ : Type} [TokenStream σ] {table : Table} (hs : table.Sound)
    (ho : table.grammar.Orderly) {ts : List Token} {stop : Token} {s m : PushBack σ}
    {answer : Except ReadError (Option Tree)} (hts : ∀ t ∈ ts, t.kind ≠ .stop)
    (hstop : stop.kind = .stop) (h : LineAnswers table.grammar (lineItems ts stop) m answer s)
    (tree : Tree) : answer = .ok (some tree) ↔ table.grammar.IsChainLine ts stop tree := by
  constructor
  · rintro rfl
    obtain ⟨-, rest, hr, -⟩ := h
    exact hr.isChainLine hs hts
  · intro hline
    have hfollow := hline.follow hs hstop
    cases answer with
    | error e =>
        obtain ⟨-, rest, -, hwrong⟩ := h
        rw [hwrong 0] at hfollow
        cases hfollow
    | ok tree? =>
        obtain ⟨-, rest, hr, -⟩ := h
        cases tree? with
        | none =>
            obtain rfl : ts = [] := LineReader.eq_nil_of_readsLine hts hr
            cases hline with
            | expression hchain =>
                obtain ⟨t, us, hnil, -⟩ := hchain.exists_eq_cons hstop
                cases hnil
        | some tree' => rw [hline.unique hs ho hstop (hr.isChainLine hs hts)]

namespace LineReader

variable {σ : Type} [TokenStream σ]

/-- **Levels and groupings are those of the table.**  A reader yields a tree exactly if the tokens
of the line are cut into a chain, and the tree is the one that splitting the chain at its loosest
operators makes of it. -/
theorem yields_tree_iff_isChainLine {d : Draft} {table : Table} (hb : d.build = .ok table)
    (r : LineReader σ) (hg : r.grammar = table.grammar) {ts : List Token} {stop : Token}
    {after : PushBack σ} (hts : ∀ t ∈ ts, t.kind ≠ .stop) (hstop : stop.kind = .stop)
    (hd : Delivers r.tokens (lineItems ts stop) after) :
    ∃ out, r.Yields out ∧
      ∀ tree, out.answer = .ok (some tree) ↔ table.grammar.IsChainLine ts stop tree := by
  obtain ⟨out, hyields, -, hanswer⟩ := yields_answers hd (closed_lineItems hstop)
  rw [hg] at hanswer
  have hs : table.Sound := Draft.sound_of_build hb
  have ho : table.grammar.Orderly := Draft.orderly_of_build hb
  exact ⟨out, hyields, hanswer.eq_ok_iff hs ho hts hstop⟩

/-- The tokens of `8 - 2 ** 3 ** x - - 4 * 5`. -/
def mixedChain : List Token :=
  [⟨.number, "8"⟩, ⟨.symbol, "-"⟩, ⟨.number, "2"⟩, ⟨.symbol, "**"⟩, ⟨.number, "3"⟩,
    ⟨.symbol, "**"⟩, ⟨.name, "x"⟩, ⟨.symbol, "-"⟩, ⟨.symbol, "-"⟩, ⟨.number, "4"⟩,
    ⟨.symbol, "*"⟩, ⟨.number, "5"⟩]

/-- The differences are grouped from the left, the powers from the right, and the sign takes the
product. -/
def mixedChainTree : Tree :=
  .binary .sub
    (.binary .sub (.number "8")
      (.binary .pow (.number "2") (.binary .pow (.number "3") (.var "x"))))
    (.unary .neg (.binary .mul (.number "4") (.number "5")))

/-- A reader in front of these tokens. -/
def mixedChainReader : LineReader Script :=
  ofStream Table.standard.grammar (Script.new (lineItems mixedChain (.bare .stop)))

private theorem isChainLine_mixedChain :
    Table.standard.grammar.IsChainLine mixedChain (.bare .stop) mixedChainTree := by
  have hminus : Table.standard.grammar.IsOperatorOf 0 .sub ⟨.symbol, "-"⟩ :=
    ⟨rfl, by decide, _, rfl, by decide⟩
  have htimes : Table.standard.grammar.IsOperatorOf 1 .mul ⟨.symbol, "*"⟩ :=
    ⟨rfl, by decide, _, rfl, by decide⟩
  have hpower : Table.standard.grammar.IsOperatorOf 2 .pow ⟨.symbol, "**"⟩ :=
    ⟨rfl, by decide, _, rfl, by decide⟩
  have hsign : Table.standard.grammar.IsSignOf .neg 0 ⟨.symbol, "-"⟩ :=
    ⟨rfl, by decide, by decide⟩
  -- The powers are split at the first one, and the whole at the last difference.
  have hpowers : Table.standard.grammar.Groups (.number "2")
      ([] ++ ⟨.pow, 2, .number "3"⟩ :: [⟨.pow, 2, .var "x"⟩])
      (.binary .pow (.number "2") (.binary .pow (.number "3") (.var "x"))) :=
    .join_right (by decide) (by simp) (by simp) (.one _) (.single _ _ _)
  have hfirst : Table.standard.grammar.Groups (.number "8")
      ([] ++ ⟨.sub, 0, .number "2"⟩ :: ([] ++ ⟨.pow, 2, .number "3"⟩ :: [⟨.pow, 2, .var "x"⟩])) _ :=
    .join_left (by decide) (by simp) (by simp) (.one _) hpowers
  have hend : Table.standard.grammar.EndsAt 1 [.bare .stop] :=
    Grammar.endsAt_cons (by simp [Token.bare]) 1
  refine .expression ⟨_, _, _, .number rfl, .link hminus (.number rfl) (.link hpower (.number rfl)
    (.link hpower (.name rfl) (.link hminus (.sign hsign (.number rfl)
      (.link htimes (.number rfl) (.noLink _)) (by simp) hend (.single _ _ _)) (.noLink _)))), ?_⟩
  exact .join_left (by decide) (by simp) (by simp) hfirst (.one _)

theorem yields_mixedChainTree :
    (∀ t ∈ mixedChain, t.kind ≠ .stop) ∧
      (∃ after, Delivers mixedChainReader.tokens (lineItems mixedChain (.bare .stop)) after) ∧
      ∃ out, mixedChainReader.Yields out ∧ out.answer = .ok (some mixedChainTree) := by
  have hts : ∀ t ∈ mixedChain, t.kind ≠ .stop := by decide
  obtain ⟨m, hm⟩ := Script.exists_delivers (Script.new (lineItems mixedChain (.bare .stop)))
  have hd : Delivers mixedChainReader.tokens (lineItems mixedChain (.bare .stop)) (.wrap m) :=
    PushBack.delivers_wrap hm
  obtain ⟨out, hyields, hiff⟩ :=
    yields_tree_iff_isChainLine Draft.build_standard mixedChainReader rfl hts rfl hd
  exact ⟨hts, ⟨_, hd⟩, out, hyields, (hiff mixedChainTree).2 isChainLine_mixedChain⟩

end LineReader

end Calculator
