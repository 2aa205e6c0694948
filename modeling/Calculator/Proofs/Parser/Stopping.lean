/-
Where an expression stops.

A level ends at a token that is none of its operators.  It has looked at its own operators
only, and sometimes at nothing: past the last level an operand ends without a look
at what follows, the operand of a sign was read at a level of its own, and a level
that groups from the right returns as soon as the expression behind its operator
does.  Still nothing is left that the level, or one that binds tighter, could have taken.

What carries this through the recursion is said of the stream that an expression leaves
(`Stopped`).  Each level finds it as the next tighter one has left it, free of tighter
operators, and has to see to its own alone (`conduct_stopped`).  The token that it looks
at for that is the one that is put back, so below the last level there always is one.

The stream may go on for ever, and nothing is said of parsers that do not succeed.
-/
import Calculator.Parser.Conduct
import Calculator.Proofs.Parser.Following
import Calculator.Proofs.Token.Exchange
import Calculator.Table.Standard

namespace Calculator

open TokenStream (Exchanges TellsLast reads)

namespace PushBack

variable {σ : Type} [TokenStream σ] {p p' p'' : PushBack σ}

/-! ### Tokens that are consumed -/

/-- The tokens are consumed between the two states: they are what was held and what the stream has
delivered since, up to what is held now. -/
def Consumes (p : PushBack σ) (ts : List Token) (p' : PushBack σ) : Prop :=
  ∃ is : List Item, Exchanges p.stream (reads is) p'.stream ∧
    p.held.toList.map .ok ++ is = (ts ++ p'.held.toList).map .ok

theorem Consumes.refl (p : PushBack σ) : p.Consumes [] p :=
  ⟨[], .nil _, by simp⟩

theorem Consumes.trans {ts us : List Token} (h : p.Consumes ts p') (h' : p'.Consumes us p'') :
    p.Consumes (ts ++ us) p'' := by
  obtain ⟨is, hexchanges, hitems⟩ := h
  obtain ⟨js, hexchanges', hitems'⟩ := h'
  refine ⟨is ++ js, ?_, ?_⟩
  · rw [reads, List.map_append]
    exact hexchanges.append hexchanges'
  · rw [← List.append_assoc, hitems, List.map_append, List.append_assoc, hitems']
    simp

/-- What happens to the stream within while tokens are consumed is that it is asked for more. -/
theorem Consumes.tellsLast {ts : List Token} (h : p.Consumes ts p') (hs : TellsLast p.stream) :
    TellsLast p'.stream := by
  obtain ⟨is, hexchanges, -⟩ := h
  exact hs.of_exchanges hexchanges

private theorem consumes_of_next {t : Token} (h : p.next = (.ok t, p')) : p.Consumes [t] p' := by
  unfold next at h
  split at h
  · rename_i u hheld
    cases h
    exact ⟨[], .nil _, by simp [hheld]⟩
  · rename_i hheld
    obtain ⟨hitem, rfl⟩ := Prod.mk.inj h
    have hnext : TokenStream.next p.stream = (.ok t, (TokenStream.next p.stream).2) :=
      Prod.ext hitem rfl
    exact ⟨[.ok t], .read hnext (.nil _), by simp [hheld]⟩

/-- Some tokens are consumed. -/
def Advances (p p' : PushBack σ) : Prop :=
  ∃ ts, ts ≠ [] ∧ p.Consumes ts p'

private theorem advances_of_next {t : Token} (h : p.next = (.ok t, p')) : p.Advances p' :=
  ⟨[t], by simp, consumes_of_next h⟩

theorem Advances.append {us : List Token} (h : p.Advances p') (h' : p'.Consumes us p'') :
    p.Advances p'' := by
  obtain ⟨ts, hts, hconsumes⟩ := h
  exact ⟨ts ++ us, by simp [hts], hconsumes.trans h'⟩

theorem Advances.trans (h : p.Advances p') (h' : p'.Advances p'') : p.Advances p'' := by
  obtain ⟨us, -, hconsumes⟩ := h'
  exact h.append hconsumes

/-! ### The token that is held -/

/-- The stream within tells its last token, and a token that is held is that one. -/
structure TellsHeld (p : PushBack σ) : Prop where
  tells : TellsLast p.stream
  held : ∀ t, p.held = some t → TokenStream.last? p.stream = some t

/-- Behind a request nothing is held, so there is nothing to ask for. -/
theorem tellsHeld_of_next (hs : TellsLast p.stream) {t : Token} (h : p.next = (.ok t, p')) :
    p'.TellsHeld := by
  have hheld : p'.held = none := by
    have hnext := p.held_next
    rwa [h] at hnext
  refine ⟨(consumes_of_next h).tellsLast hs, ?_⟩
  intro u hu
  rw [hheld] at hu
  cases hu

/-- The token of a request can be put back. -/
theorem TellsHeld.justRead (h : p.TellsHeld) {t : Token} (hnext : p.next = (.ok t, p')) :
    p'.JustRead t := by
  have hheld : p'.held = none := by
    have hnone := p.held_next
    rwa [hnext] at hnone
  refine ⟨hheld, ?_⟩
  unfold next at hnext
  split at hnext
  · rename_i u hu
    cases hnext
    exact h.held t hu
  · obtain ⟨hitem, rfl⟩ := Prod.mk.inj hnext
    exact h.tells [] p.stream t _ (.nil _) (Prod.ext hitem rfl)

/-- A token that is asked for and put back is held, and nothing has been consumed. -/
theorem TellsHeld.putBack (h : p.TellsHeld) {t : Token} (hnext : p.next = (.ok t, p')) :
    p.Consumes [] { p' with held := some t } ∧ TellsHeld { p' with held := some t } := by
  have hread : p'.JustRead t := h.justRead hnext
  obtain ⟨is, hexchanges, hitems⟩ := consumes_of_next hnext
  refine ⟨⟨is, hexchanges, ?_⟩, (tellsHeld_of_next h.tells hnext).tells, ?_⟩
  · rw [hitems, hread.held]
    rfl
  · intro u hu
    cases hu
    exact hread.last

end PushBack

namespace Parser

variable {σ : Type} [TokenStream σ] {p : PushBack σ}

/-! ### Levels -/

open PushBack (TellsHeld)

/-- Behind an expression of a level no operator of the level or a tighter one comes next, and if the
level is not past the last one then the token that comes next is held. -/
structure Stopped (g : Grammar) (level : Nat) (p : PushBack σ) : Prop where
  tells : p.TellsHeld
  free : g.NoOperatorFrom level [p.next.1]
  held : level < g.height → ∃ t, p.held = some t

/-- Past the last level there is no operator to look for. -/
theorem stopped_of_height_le {g : Grammar} {level : Nat} (h : g.height ≤ level)
    (hp : p.TellsHeld) : Stopped g level p := by
  refine ⟨hp, ?_, fun hlt => absurd hlt (Nat.not_lt.2 h)⟩
  intro t rest _ l hl
  exact Grammar.tokenOp?_eq_none_of_le (Nat.le_trans h hl) t

/-- **An operator is consumed, or the level stops in front of what comes next**, if that is none of
a tighter level. -/
theorem keeps_operator_of_tellsHeld (g : Grammar) (level : Nat) (h : p.TellsHeld)
    (hfree : g.NoOperatorFrom (level + 1) [p.next.1]) :
    (operator g level).Keeps (fun _ _ => True) p fun op? p' =>
      match op? with
      | some _ => p.Advances p' ∧ p'.TellsHeld
      | none => p.Consumes [] p' ∧ Stopped g level p' := by
  refine keeps_bind (Q := fun t p' => p.next = (.ok t, p')) ?_ fun t p' hnext => ?_
  · exact keeps_token (fun _ _ hnext => hnext) fun _ _ _ => trivial
  · have hitem : p.next.1 = .ok t := congrArg Prod.fst hnext
    rw [hitem] at hfree
    cases hop : g.tokenOp? level t with
    | some op =>
        exact keeps_pure ⟨PushBack.advances_of_next hnext, PushBack.tellsHeld_of_next h.tells hnext⟩
    | none =>
        obtain ⟨hconsumes, htells⟩ := h.putBack hnext
        have hput := ((h.justRead hnext).putBack (.nil p')).1
        refine keeps_bind (keeps_putBack (Q := fun _ p'' => p'' = _) hput rfl) ?_
        rintro _ _ rfl
        exact keeps_pure ⟨hconsumes, htells, hfree.cons hop, fun _ => ⟨t, rfl⟩⟩

/-- **An expression consumes tokens and stops.**  Here all parts begin somewhere behind one state of
the stream, and have consumed tokens since then when they end. -/
theorem conduct_stopped (g : Grammar) (start : PushBack σ) :
    Conduct g (fun _ _ => True) (fun p => (∃ ts, start.Consumes ts p) ∧ TellsLast p.stream)
      (fun _ p => start.Advances p ∧ p.TellsHeld)
      (fun level p => start.Advances p ∧ Stopped g level p) where
  token := by
    rintro p ⟨⟨ts, hconsumes⟩, hs⟩
    refine keeps_token ?_ fun _ _ _ => trivial
    intro t p' hnext
    refine ⟨⟨ts ++ [t], by simp, ?_⟩, PushBack.tellsHeld_of_next hs hnext⟩
    exact hconsumes.trans (PushBack.consumes_of_next hnext)
  opens := by
    rintro t p ⟨⟨ts, -, hconsumes⟩, htells⟩ -
    exact ⟨⟨ts, hconsumes⟩, htells.tells⟩
  closes := by
    rintro t p ⟨hadvances, htells⟩ -
    exact ⟨hadvances, stopped_of_height_le (Nat.le_refl _) htells⟩
  loosens := by
    -- An operand of a sign has stopped at a level of its own, which is nothing to an operand.
    rintro level level' p ⟨hadvances, hstopped⟩ hlevel
    exact ⟨hadvances, stopped_of_height_le hlevel hstopped.tells⟩
  resumes := by
    rintro level p ⟨⟨ts, -, hconsumes⟩, hstopped⟩
    exact ⟨⟨ts, hconsumes⟩, hstopped.tells.tells⟩
  operator := by
    rintro level p ⟨hadvances, htells, hfree, -⟩
    refine (keeps_operator_of_tellsHeld g level htells hfree).mono ?_
    rintro (_ | op) p' hp'
    · obtain ⟨hconsumes, hstopped⟩ := hp'
      exact ⟨hadvances.append hconsumes, hstopped⟩
    · obtain ⟨hop, htells'⟩ := hp'
      obtain ⟨ts, -, hconsumes⟩ := hadvances.trans hop
      exact ⟨⟨ts, hconsumes⟩, htells'.tells⟩
  refuses := fun _ _ => trivial

/-- **A finished level leaves nothing for itself or a tighter one.**  On any stream that tells its last
token, with a token held or without, an expression of a level that succeeds has consumed a token,
the token that comes next, if one does, writes no operation of the level or a tighter one, and below
the last level that token is held.  So it is whatever the tree ends in: an operand of a sign that was
read at a looser level, or the last of any number of operators that group from the right. -/
theorem finished_level_leaves_no_operator {d : Draft} {table : Table} (hb : d.build = .ok table)
    (hs : TellsLast p.stream) {fuel level : Nat} {step : Step σ Tree} {tree : Tree}
    (hstep : expression table.grammar fuel level p = some step) (htree : step.answer = .ok tree) :
    p.Advances step.tokens ∧
      (∀ t p', step.tokens.next = (.ok t, p') →
        ∀ l op, level ≤ l → ¬ table.grammar.IsOperatorOf l op t) ∧
      (level < table.grammar.height →
        ∃ t p', step.tokens.held = some t ∧ step.tokens.next = (.ok t, p')) := by
  have hreturns : (expression table.grammar fuel level).Returns p tree step.tokens :=
    ⟨step.events, by rw [hstep, ← htree]⟩
  obtain ⟨hadvances, hstopped⟩ := ((conduct_stopped table.grammar p).expression
    ⟨⟨[], .refl p⟩, hs⟩).of_returns hreturns
  refine ⟨hadvances, ?_, ?_⟩
  · intro t p' hnext l op hl hoperator
    have hitems : [step.tokens.next.1] = [.ok t] := by rw [hnext]
    have hnone : table.grammar.tokenOp? l t = none := hstopped.free t [] hitems l hl
    rw [hoperator.tokenOp? (Draft.sound_of_build hb)] at hnone
    cases hnone
  · intro hlevel
    obtain ⟨t, ht⟩ := hstopped.held hlevel
    exact ⟨t, _, ht, by rw [PushBack.next, ht]⟩

/-- The tokens of `2 ** 5 ** - 3 * 4 + 1`, the first of which has been put back. -/
def signedPowers : PushBack Script where
  stream :=
    { items := []
      ahead := [.ok ⟨.symbol, "**"⟩, .ok ⟨.number, "5"⟩, .ok ⟨.symbol, "**"⟩, .ok ⟨.symbol, "-"⟩,
        .ok ⟨.number, "3"⟩, .ok ⟨.symbol, "*"⟩, .ok ⟨.number, "4"⟩, .ok ⟨.symbol, "+"⟩,
        .ok ⟨.number, "1"⟩]
      last? := some ⟨.number, "2"⟩ }
  held := some ⟨.number, "2"⟩

/-- Two powers, and a sign that takes a product with it though a power is being read. -/
def signedPowersTree : Tree :=
  .binary .pow (.number "2") (.binary .pow (.number "5")
    (.unary .neg (.binary .mul (.number "3") (.number "4"))))

theorem finished_powers_leave_plus :
    (Draft.standard.build = .ok .standard ∧ TellsLast signedPowers.stream) ∧
      ∃ step, expression Table.standard.grammar 12 2 signedPowers = some step ∧
        step.answer = .ok signedPowersTree ∧ step.tokens.held = some ⟨.symbol, "+"⟩ ∧
        signedPowers.Advances step.tokens ∧
        ∀ l op, 2 ≤ l → ¬ Table.standard.grammar.IsOperatorOf l op ⟨.symbol, "+"⟩ := by
  have hb : Draft.standard.build = .ok .standard := Draft.build_standard
  have hs : TellsLast signedPowers.stream := signedPowers.stream.remembers.tellsLast
  obtain ⟨step, hstep, htree, hheld⟩ : ∃ step,
      expression Table.standard.grammar 12 2 signedPowers = some step ∧
        step.answer = .ok signedPowersTree ∧ step.tokens.held = some ⟨.symbol, "+"⟩ :=
    ⟨_, rfl, rfl, rfl⟩
  obtain ⟨hadvances, hfree, -⟩ := finished_level_leaves_no_operator hb hs hstep htree
  have hnext : step.tokens.next = (.ok ⟨.symbol, "+"⟩, { step.tokens with held := none }) := by
    rw [PushBack.next, hheld]
  exact ⟨⟨hb, hs⟩, step, hstep, htree, hheld, hadvances, hfree _ _ hnext⟩

end Parser

end Calculator
