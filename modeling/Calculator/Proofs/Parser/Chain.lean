/-
Chains of operands, and the tree that the levels make of one.

An expression, seen without its levels, is an operand and then operators with an
operand behind each:

    a₀  o₁ a₁  o₂ a₂  …  oₙ aₙ

An operand is a number, a name, a bracket with a chain of its own, or a sign with a
chain of its own.  `Cuts` cuts tokens in this way.  The only thing that it asks of
levels is how far a sign reaches: it takes the operators that are tighter than its
priority, and all of these that there are.

What the levels are for comes second.  `Groups` makes a tree of a chain from the top
down: it looks for the loosest operator of all, the last of them if their level
groups from the left and the first if it groups from the right, and splits the chain
there (`Pivot`).  Nothing here descends from level to level, and nothing is put back.

Both are definite.  A chain has one pivot, hence one tree (`Groups.unique`), and in a
sound table tokens are cut in one way (`Cuts.unique`).
-/
import Calculator.Proofs.Parser.Derivation
import Calculator.Proofs.Table.Placement
import Calculator.Proofs.Token.Writing

namespace Calculator

/-- An operator of a chain, its level, and the operand behind it. -/
structure Link where
  op : BinaryOp
  level : Nat
  operand : Tree
deriving DecidableEq

namespace Grammar

/-! ### The tree of a chain -/

/-- The link at which a chain is split: none is looser, and among those of its level it is the last
one if the level groups from the left, the first one if it groups from the right. -/
structure Pivot (g : Grammar) (before : List Link) (k : Link) (after : List Link) : Prop where
  loosest : ∀ l ∈ before ++ after, k.level ≤ l.level
  last : g.associativity? k.level = some .left → ∀ l ∈ after, l.level ≠ k.level
  first : g.associativity? k.level = some .right → ∀ l ∈ before, l.level ≠ k.level

/-- The tree of an operand and the links behind it. -/
inductive Groups (g : Grammar) : Tree → List Link → Tree → Prop
  | one (a : Tree) : Groups g a [] a
  | split {a left right : Tree} {before after : List Link} {k : Link}
      (hk : g.Pivot before k after) (hleft : Groups g a before left)
      (hright : Groups g k.operand after right) :
      Groups g a (before ++ k :: after) (.binary k.op left right)

variable {g : Grammar}

/-- A chain of one operator is split at it. -/
theorem Groups.single (g : Grammar) (a : Tree) (k : Link) :
    g.Groups a [k] (.binary k.op a k.operand) := by
  have hk : g.Pivot [] k [] := ⟨by simp, by simp, by simp⟩
  exact .split hk (.one a) (.one k.operand)

/-- A pivot is not followed by another one. -/
theorem Pivot.false_of_later {before mid after : List Link} {k k' : Link}
    (h : g.Pivot before k (mid ++ k' :: after)) (h' : g.Pivot (before ++ k :: mid) k' after)
    (hk : (g.associativity? k.level).isSome = true) : False := by
  have hle : k.level ≤ k'.level := h.loosest k' (by simp)
  have hge : k'.level ≤ k.level := h'.loosest k (by simp)
  have hlevel : k'.level = k.level := Nat.le_antisymm hge hle
  obtain ⟨assoc, hassoc⟩ := Option.isSome_iff_exists.1 hk
  -- Of two links of one level, the last is no first one and the first no last one.
  cases assoc with
  | left => exact h.last hassoc k' (by simp) hlevel
  | right => exact h'.first (hlevel ▸ hassoc) k (by simp) hlevel.symm

/-- **A chain has one pivot.** -/
theorem Pivot.unique {before before' after after' : List Link} {k k' : Link}
    (h : g.Pivot before k after) (h' : g.Pivot before' k' after')
    (hlinks : ∀ l ∈ before ++ k :: after, (g.associativity? l.level).isSome = true)
    (heq : before ++ k :: after = before' ++ k' :: after') :
    before' = before ∧ k' = k ∧ after' = after := by
  have hk : (g.associativity? k.level).isSome = true := hlinks k (by simp)
  have hk' : (g.associativity? k'.level).isSome = true := hlinks k' (by rw [heq]; simp)
  rcases List.append_eq_append_iff.1 heq with ⟨mid, hbefore, hmid⟩ | ⟨mid, hbefore, hmid⟩
  · cases mid with
    | nil => simp_all
    | cons x mid =>
        obtain ⟨rfl, hafter⟩ := List.cons.inj hmid
        rw [hafter] at h
        rw [hbefore] at h'
        exact (h.false_of_later h' hk).elim
  · cases mid with
    | nil => simp_all
    | cons x mid =>
        obtain ⟨rfl, hafter⟩ := List.cons.inj hmid
        rw [hafter] at h'
        rw [hbefore] at h
        exact (h'.false_of_later h hk').elim

/-- A chain is an operand alone, or it is split at its pivot. -/
theorem Groups.cases_links {a tree : Tree} {links : List Link} (h : g.Groups a links tree) :
    links = [] ∧ tree = a ∨ ∃ before k after left right, links = before ++ k :: after ∧
      g.Pivot before k after ∧ g.Groups a before left ∧ g.Groups k.operand after right ∧
      tree = .binary k.op left right := by
  cases h with
  | one => exact Or.inl ⟨rfl, rfl⟩
  | split hk hleft hright => exact Or.inr ⟨_, _, _, _, _, rfl, hk, hleft, hright, rfl⟩

/-- **A chain has one tree.** -/
theorem Groups.unique {a tree tree' : Tree} {links : List Link}
    (hlinks : ∀ l ∈ links, (g.associativity? l.level).isSome = true)
    (h : g.Groups a links tree) (h' : g.Groups a links tree') : tree' = tree := by
  induction h generalizing tree' with
  | one a =>
      rcases h'.cases_links with ⟨-, heq⟩ | ⟨before, k, after, -, -, hnil, -⟩
      · exact heq
      · simp at hnil
  | @split a left right before after k hk _ _ ihleft ihright =>
      rcases h'.cases_links with ⟨hnil, -⟩ |
        ⟨before', k', after', left', right', heq, hk', hleft', hright', htree⟩
      · simp at hnil
      · obtain ⟨rfl, rfl, rfl⟩ := hk.unique hk' hlinks heq
        have hbefore := ihleft (fun l hl => hlinks l (by simp [hl])) hleft'
        have hafter := ihright (fun l hl => hlinks l (by simp [hl])) hright'
        rw [htree, hbefore, hafter]

/-! ### Cutting tokens into chains -/

/-- The tokens do not begin with an operator of the level or a tighter one. -/
def EndsAt (g : Grammar) (level : Nat) (ts : List Token) : Prop :=
  ∀ t ∈ ts.head?, ∀ l op, level ≤ l → ¬ g.IsOperatorOf l op t

/-- What is cut off the front of some tokens: an operand, or links. -/
inductive Piece where
  | operand (tree : Tree)
  | links (links : List Link)

/-- The piece is cut off the front of the tokens, and the rest lies behind it. -/
inductive Cuts (g : Grammar) : Piece → List Token → List Token → Prop
  | number {t : Token} {rest : List Token} (ht : t.kind = .number) :
      Cuts g (.operand (.number t.text)) (t :: rest) rest
  | name {t : Token} {rest : List Token} (ht : t.kind = .name) :
      Cuts g (.operand (.var t.text)) (t :: rest) rest
  | bracket {l r : Token} {ts mid rest : List Token} {a tree : Tree} {links : List Link}
      (hl : l.kind = .leftParen) (hfirst : Cuts g (.operand a) ts mid)
      (hlinks : Cuts g (.links links) mid (r :: rest)) (hr : r.kind = .rightParen)
      (htree : g.Groups a links tree) : Cuts g (.operand tree) (l :: ts) rest
  | sign {op : UnaryOp} {priority : Nat} {t : Token} {ts mid rest : List Token} {a tree : Tree}
      {links : List Link} (ht : g.IsSignOf op priority t) (hfirst : Cuts g (.operand a) ts mid)
      (hlinks : Cuts g (.links links) mid rest) (htighter : ∀ l ∈ links, priority < l.level)
      (hwhole : g.EndsAt (priority + 1) rest) (htree : g.Groups a links tree) :
      Cuts g (.operand (.unary op tree)) (t :: ts) rest
  | noLink (ts : List Token) : Cuts g (.links []) ts ts
  | link {op : BinaryOp} {level : Nat} {o : Token} {ts mid rest : List Token} {a : Tree}
      {links : List Link} (ho : g.IsOperatorOf level op o) (hoperand : Cuts g (.operand a) ts mid)
      (hrest : Cuts g (.links links) mid rest) :
      Cuts g (.links (⟨op, level, a⟩ :: links)) (o :: ts) rest

/-- The tokens are a chain whose tree is the given one, up to the end behind them. -/
def IsChain (g : Grammar) (ts : List Token) (stop : Token) (tree : Tree) : Prop :=
  ∃ a links mid, g.Cuts (.operand a) (ts ++ [stop]) mid ∧ g.Cuts (.links links) mid [stop] ∧
    g.Groups a links tree

/-- The tokens are a line whose expression is a chain. -/
inductive IsChainLine (g : Grammar) : List Token → Token → Tree → Prop
  | expression {ts : List Token} {stop : Token} {tree : Tree} (h : g.IsChain ts stop tree) :
      IsChainLine g ts stop tree
  | definition {k x e stop : Token} {ts : List Token} {value : Tree} (hk : k.kind = .keyword)
      (hx : x.kind = .name) (he : e.kind = .equals) (h : g.IsChain ts stop value) :
      IsChainLine g (k :: x :: e :: ts) stop (.define x.text value)

/-! ### Links -/

theorem endsAt_cons {t : Token} {ts : List Token} (h : t.kind ≠ .symbol) (level : Nat) :
    g.EndsAt level (t :: ts) := by
  intro u hu l op _ ho
  obtain rfl : t = u := by simpa using hu
  exact h ho.1

/-- Links behind links are links. -/
theorem Cuts.append {links links' : List Link} {ts mid rest : List Token}
    (h : g.Cuts (.links links) ts mid) (h' : g.Cuts (.links links') mid rest) :
    g.Cuts (.links (links ++ links')) ts rest := by
  induction links generalizing ts with
  | nil =>
      cases h
      exact h'
  | cons l links ih =>
      cases h with
      | link ho hoperand hrest => exact .link ho hoperand (ih hrest)

/-- The level of a link is one of the grammar. -/
theorem Cuts.isSome_associativity? {links : List Link} {ts rest : List Token}
    (h : g.Cuts (.links links) ts rest) :
    ∀ l ∈ links, (g.associativity? l.level).isSome = true := by
  induction links generalizing ts with
  | nil => simp
  | cons l links ih =>
      cases h with
      | link ho _ hrest =>
          refine List.forall_mem_cons.2 ⟨?_, ih hrest⟩
          obtain ⟨-, -, level, hlevel, -⟩ := ho
          simp [associativity?, hlevel]

/-! ### Chains in brackets

A chain ends where no operator follows, whatever it is that follows.  So what ends a
line may be replaced by a closing bracket and anything behind it.
-/

theorem EndsAt.change_tail {level : Nat} {ts tail tail' : List Token}
    (h : g.EndsAt level (ts ++ tail)) (h' : g.EndsAt 0 tail') : g.EndsAt level (ts ++ tail') := by
  cases ts with
  | nil =>
      intro t ht l op _
      exact h' t ht l op (Nat.zero_le l)
  | cons t ts => exact h

/-- **What is never reached may be replaced** by tokens that begin with no operator. -/
theorem Cuts.change_tail {piece : Piece} {ts rest us tail tail' : List Token}
    (h : g.Cuts piece ts rest) (hrest : rest = us ++ tail) (htail : g.EndsAt 0 tail') :
    ∃ vs, ts = vs ++ tail ∧ g.Cuts piece (vs ++ tail') (us ++ tail') := by
  induction h generalizing us with
  | @number t _ ht => exact ⟨t :: us, by rw [hrest, List.cons_append], .number ht⟩
  | @name t _ ht => exact ⟨t :: us, by rw [hrest, List.cons_append], .name ht⟩
  | @bracket l r _ _ rest _ _ _ hl _ _ hr htree ihfirst ihlinks =>
      have hclose : r :: rest = (r :: us) ++ tail := by rw [hrest, List.cons_append]
      obtain ⟨mid, hmid, hlinks⟩ := ihlinks hclose
      obtain ⟨vs, rfl, hfirst⟩ := ihfirst hmid
      exact ⟨l :: vs, rfl, .bracket hl hfirst hlinks hr htree⟩
  | @sign _ _ t _ _ _ _ _ _ ht _ _ htighter hwhole htree ihfirst ihlinks =>
      obtain ⟨mid, hmid, hlinks⟩ := ihlinks hrest
      obtain ⟨vs, rfl, hfirst⟩ := ihfirst hmid
      rw [hrest] at hwhole
      exact ⟨t :: vs, rfl, .sign ht hfirst hlinks htighter (hwhole.change_tail htail) htree⟩
  | noLink => exact ⟨us, hrest, .noLink _⟩
  | @link _ _ o _ _ _ _ _ ho _ _ ihoperand ihrest =>
      obtain ⟨mid, hmid, hrest'⟩ := ihrest hrest
      obtain ⟨vs, rfl, hoperand⟩ := ihoperand hmid
      exact ⟨o :: vs, rfl, .link ho hoperand hrest'⟩

/-- **A chain in brackets is an operand**, whatever follows. -/
theorem IsChain.bracketed {stop : Token} {ts : List Token} {tree : Tree}
    (h : g.IsChain ts stop tree) (rest : List Token) :
    g.Cuts (.operand tree) (Token.bracketed ts ++ rest) rest := by
  obtain ⟨a, links, mid, hfirst, hlinks, htree⟩ := h
  have hend : g.EndsAt 0 (.bare .rightParen :: rest) := endsAt_cons (by decide) 0
  have hstop : [stop] = [] ++ [stop] := rfl
  obtain ⟨between, hmid, hlinks'⟩ := hlinks.change_tail hstop hend
  obtain ⟨us, hus, hfirst'⟩ := hfirst.change_tail hmid hend
  obtain rfl : ts = us := List.append_cancel_right hus
  rw [Token.bracketed_append]
  exact .bracket rfl hfirst' hlinks' rfl htree

/-- An operand alone is a chain. -/
theorem Cuts.isChain {ts : List Token} {stop : Token} {tree : Tree}
    (h : g.Cuts (.operand tree) (ts ++ [stop]) [stop]) : g.IsChain ts stop tree :=
  ⟨tree, [], [stop], h, .noLink _, .one tree⟩

/-! ### Tokens are cut in one way

An operand is known by its first token.  How many links there are is known from what
stands behind them: in a bracket that is no operator at all, and behind a sign no
operator tighter than it.
-/

section Sound

variable {table : Table} (hs : table.Sound) (ho : table.grammar.Orderly)

/-- A token is the operator of one level, and of one operation. -/
theorem IsOperatorOf.unique (hs : table.Sound) (ho : table.grammar.Orderly) {l l' : Nat}
    {op op' : BinaryOp} {t : Token} (h : table.grammar.IsOperatorOf l op t)
    (h' : table.grammar.IsOperatorOf l' op' t) : l' = l ∧ op' = op := by
  obtain ⟨-, hsymbol, level, hlevel, hhas⟩ := h
  obtain ⟨-, hsymbol', level', hlevel', hhas'⟩ := h'
  obtain rfl : op' = op := hs.binary_inj hsymbol' hsymbol
  exact ⟨ho.one_level hlevel' hhas' hlevel hhas, rfl⟩

/-- A token is the sign of one operation. -/
theorem IsSignOf.unique (hs : table.Sound) {op op' : UnaryOp} {priority priority' : Nat} {t : Token}
    (h : table.grammar.IsSignOf op priority t) (h' : table.grammar.IsSignOf op' priority' t) :
    op' = op ∧ priority' = priority := by
  obtain ⟨-, hsymbol, hpriority⟩ := h
  obtain ⟨-, hsymbol', hpriority'⟩ := h'
  obtain rfl : op' = op := hs.unary_inj hsymbol' hsymbol
  exact ⟨rfl, Option.some.inj (hpriority'.symm.trans hpriority)⟩

/-- The tokens are cut in this way only.  Links are compared with links of the same reach. -/
def CutsOnly (g : Grammar) : Piece → List Token → List Token → Prop
  | .operand tree, ts, rest => ∀ tree' rest', g.Cuts (.operand tree') ts rest' →
      tree' = tree ∧ rest' = rest
  | .links links, ts, rest => ∀ level links' rest', g.Cuts (.links links') ts rest' →
      (∀ l ∈ links, level ≤ l.level) → (∀ l ∈ links', level ≤ l.level) →
      g.EndsAt level rest → g.EndsAt level rest' → links' = links ∧ rest' = rest

include hs ho

/-- **Tokens are cut in one way.** -/
theorem Cuts.unique {piece : Piece} {ts rest : List Token} (h : table.grammar.Cuts piece ts rest) :
    table.grammar.CutsOnly piece ts rest := by
  induction h with
  | number ht =>
      intro tree' rest' h'
      cases h' <;> simp_all [IsSignOf]
  | name ht =>
      intro tree' rest' h'
      cases h' <;> simp_all [IsSignOf]
  | @bracket l r ts mid rest a tree links hl _ hlinks hr htree ihfirst ihlinks =>
      intro tree' rest' h'
      cases h' with
      | number ht | name ht => simp [hl] at ht
      | sign ht => simp [IsSignOf, hl] at ht
      | @bracket _ r' _ mid' _ a' _ links' _ hfirst' hlinks' hr' htree' =>
          obtain ⟨rfl, rfl⟩ := ihfirst a' mid' hfirst'
          obtain ⟨rfl, hrest⟩ := ihlinks 0 links' (r' :: rest') hlinks' (by simp) (by simp)
            (endsAt_cons (by simp [hr]) 0) (endsAt_cons (by simp [hr']) 0)
          exact ⟨htree.unique hlinks.isSome_associativity? htree', (List.cons.inj hrest).2⟩
  | @sign op priority t ts mid rest a tree links ht _ hlinks htighter hwhole htree ihfirst
      ihlinks =>
      intro tree' rest' h'
      cases h' with
      | number ht' | name ht' => simp [ht.1] at ht'
      | bracket hl => simp [ht.1] at hl
      | @sign op' priority' _ _ mid' _ a' value' links' ht' hfirst' hlinks' htighter' hwhole'
          htree' =>
          obtain ⟨rfl, rfl⟩ := ht.unique hs ht'
          obtain ⟨rfl, rfl⟩ := ihfirst a' mid' hfirst'
          obtain ⟨rfl, rfl⟩ := ihlinks _ links' rest' hlinks' htighter htighter' hwhole hwhole'
          obtain rfl : value' = tree := htree.unique hlinks.isSome_associativity? htree'
          exact ⟨rfl, rfl⟩
  | noLink ts =>
      intro level links' rest' h' _ hlevels' hend _
      cases h' with
      | noLink => exact ⟨rfl, rfl⟩
      | link hop => exact absurd hop (hend _ rfl _ _ (hlevels' _ List.mem_cons_self))
  | @link op level o ts mid rest a links hop _ _ ihoperand ihrest =>
      intro bound links' rest' h' hlevels hlevels' hend hend'
      cases h' with
      | noLink => exact absurd hop (hend' _ rfl _ _ (hlevels _ List.mem_cons_self))
      | @link op' level' _ _ mid' _ a' links' hop' hoperand' hrest' =>
          obtain ⟨rfl, rfl⟩ := hop.unique hs ho hop'
          obtain ⟨rfl, rfl⟩ := ihoperand a' mid' hoperand'
          obtain ⟨rfl, rfl⟩ := ihrest bound links' rest' hrest'
            (List.forall_mem_cons.1 hlevels).2 (List.forall_mem_cons.1 hlevels').2 hend hend'
          exact ⟨rfl, rfl⟩

/-- **A chain of tokens has one tree.** -/
theorem IsChain.unique {ts : List Token} {stop : Token} {tree tree' : Tree}
    (hstop : stop.kind = .stop) (h : table.grammar.IsChain ts stop tree)
    (h' : table.grammar.IsChain ts stop tree') : tree' = tree := by
  obtain ⟨a, links, mid, hfirst, hlinks, htree⟩ := h
  obtain ⟨a', links', mid', hfirst', hlinks', htree'⟩ := h'
  have hend : table.grammar.EndsAt 0 [stop] := endsAt_cons (by simp [hstop]) 0
  obtain ⟨rfl, rfl⟩ := hfirst.unique hs ho a' mid' hfirst'
  obtain ⟨rfl, -⟩ := hlinks.unique hs ho 0 links' [stop] hlinks' (by simp) (by simp) hend hend
  exact htree.unique hlinks.isSome_associativity? htree'

end Sound

end Grammar

end Calculator
