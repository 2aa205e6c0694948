/-
Which beginnings of a line can still become one.

`follow` goes through a line up to its end or its first wrong item.  `Leads` is the
way it goes before that: some tokens lead from one expectation to another.  Wherever
a line has come to, there are tokens that bring it to its end (`completion`): an
operand if one is expected, and then as many brackets as are open.  So tokens that can
be followed at all begin some sentence (`Leads.begins`), and a token with which
following goes wrong is one behind which no sentence can go on
(`not_beginsLine_of_advance`).

The first needs that a line which can be followed to its end is a sentence.  This is
the converse of `Sentence.follow`, and the derivation is the one the parser makes when
it reads the line off a script.
-/
import Calculator.Proofs.Parser.Faithful

namespace Calculator

namespace Grammar

/-! ### The way of following -/

/-- Following the tokens goes well and leads from the first expectation to the second. -/
inductive Leads (g : Grammar) : Expectation → List Token → Expectation → Prop
  | nil (q : Expectation) : Leads g q [] q
  | cons {q q' q'' : Expectation} {t : Token} {ts : List Token}
      (ht : g.advance q t = .ok (some q')) (hts : Leads g q' ts q'') : Leads g q (t :: ts) q''

variable {g : Grammar}

theorem Leads.append {q q' q'' : Expectation} {ts us : List Token} (h : g.Leads q ts q')
    (h' : g.Leads q' us q'') : g.Leads q (ts ++ us) q'' := by
  induction h with
  | nil => exact h'
  | cons ht _ ih => exact .cons ht (ih h')

/-- Behind tokens that can be followed, following goes on from where they lead. -/
theorem Leads.follow {q q' : Expectation} {ts : List Token} (h : g.Leads q ts q')
    (rest : List Item) : g.follow q (ts.map .ok ++ rest) = g.follow q' rest := by
  induction h with
  | nil => rfl
  | cons ht _ ih => exact (follow_ok ht).trans ih

/-- The item is one with which following goes wrong. -/
def Breaks (g : Grammar) (q : Expectation) (e : ReadError) : Item → Prop
  | .ok t => g.advance q t = .error e
  | .error e' => e = .token e'

/-- **Following goes wrong at one item**, and the tokens before it can be followed. -/
theorem exists_leads_of_wrong {q : Expectation} {is rest : List Item} {e : ReadError}
    (h : g.follow q is = .wrong e rest) :
    ∃ (ts : List Token) (last : Item) (q' : Expectation),
      is = ts.map .ok ++ last :: rest ∧ g.Leads q ts q' ∧ g.Breaks q' e last := by
  induction is generalizing q with
  | nil =>
      rw [Grammar.follow] at h
      cases h
  | cons i is ih =>
      cases i with
      | error e' =>
          rw [Grammar.follow] at h
          cases h
          exact ⟨[], .error e', q, rfl, .nil q, rfl⟩
      | ok t =>
          rw [Grammar.follow] at h
          split at h
          · rename_i q' hadvance
            obtain ⟨ts, last, q'', rfl, hleads, hbreaks⟩ := ih h
            exact ⟨t :: ts, last, q'', rfl, .cons hadvance hleads, hbreaks⟩
          · cases h
          · rename_i hadvance
            cases h
            exact ⟨[], .ok t, q, rfl, .nil q, hadvance⟩

/-! ### Completing a line -/

/-- A token that is a number. -/
def zero : Token :=
  ⟨.number, "0"⟩

/-- As many closing brackets. -/
def closings (depth : Nat) : List Token :=
  List.replicate depth (.bare .rightParen)

/-- Tokens that complete a line, but for its end. -/
def completion : Expectation → List Token
  | .line => [zero]
  | .name => [⟨.name, "x"⟩, .bare .equals, zero]
  | .equals _ => [.bare .equals, zero]
  | .operand depth => zero :: closings depth
  | .operator depth => closings depth

private theorem leads_closings (depth : Nat) :
    g.Leads (.operator depth) (closings depth) (.operator 0) := by
  induction depth with
  | zero => exact .nil _
  | succ depth ih => exact .cons (advance_rightParen rfl depth) ih

private theorem leads_zero (depth : Nat) : g.Leads (.operand depth) [zero] (.operator depth) :=
  .cons (advance_leaf (Or.inl rfl) depth) (.nil _)

/-- **Every line can be completed**, wherever it has come to. -/
theorem leads_completion (q : Expectation) : g.Leads q (completion q) (.operator 0) := by
  have hequals : ∀ name, g.Leads (.equals name) (completion (.equals name)) (.operator 0) := by
    intro name
    have hadvance : g.advance (.equals name) (.bare .equals) = .ok (some (.operand 0)) := rfl
    exact .cons hadvance (leads_zero 0)
  cases q with
  | line =>
      have hadvance : g.advance .line zero = .ok (some (.operator 0)) := rfl
      exact .cons hadvance (.nil _)
  | name =>
      have hadvance : g.advance .name ⟨.name, "x"⟩ = .ok (some (.equals "x")) := rfl
      exact .cons hadvance (hequals "x")
  | equals name => exact hequals name
  | operand depth => exact (leads_zero depth).append (leads_closings depth)
  | operator depth => exact leads_closings depth

/-! ### Following and the grammar -/

/-- **A line that can be followed to its end is a sentence**, unless it is empty. -/
theorem exists_sentence_of_follow {ts : List Token} {stop : Token} (hstop : stop.kind = .stop)
    (hne : ts ≠ []) (h : g.follow .line (lineItems ts stop) = .complete []) :
    ∃ tree, g.Sentence ts tree := by
  -- The parser reads the line off a script, and it fails only where following goes wrong.
  obtain ⟨m, hm⟩ := Script.exists_delivers (Script.new (lineItems ts stop))
  obtain ⟨step, -, hanswer⟩ := Parser.gives_line (g := g) (PushBack.delivers_wrap hm)
    (closed_lineItems hstop) (Nat.le_refl _)
  cases hread : step.answer with
  | error e =>
      rw [hread] at hanswer
      obtain ⟨-, rest, -, hwrong⟩ := hanswer
      have hwrong : g.follow .line (lineItems ts stop) = .wrong e rest := hwrong 0
      rw [hwrong] at h
      cases h
  | ok tree? =>
      rw [hread] at hanswer
      obtain ⟨-, rest, hr, -⟩ := hanswer
      have hr : g.ReadsLine (lineItems ts stop) tree? rest := hr
      rw [hr.follow] at h
      cases h
      cases tree? with
      | some tree =>
          obtain ⟨us, stop', heq, -, -, hs⟩ := hr.sentence
          obtain rfl : ts = us := eq_of_lineItems_eq heq
          exact ⟨tree, hs⟩
      | none =>
          obtain ⟨t, us, rfl⟩ := List.exists_cons_of_ne_nil hne
          obtain ⟨is, his⟩ : ∃ is, lineItems (t :: us) stop = .ok t :: is := ⟨_, rfl⟩
          rw [his] at hr
          cases hr
          simp [lineItems] at his

/-- The tokens begin a sentence. -/
def Begins (g : Grammar) (ts : List Token) : Prop :=
  ∃ us tree, g.Sentence us tree ∧ ts <+: us

/-- The tokens begin a sentence with the end behind it. -/
def BeginsLine (g : Grammar) (ts : List Token) : Prop :=
  ∃ us stop tree, g.Sentence us tree ∧ stop.kind = .stop ∧ ts <+: us ++ [stop]

/-- **Tokens that can be followed begin a sentence.** -/
theorem Leads.begins {q : Expectation} {ts : List Token} (h : g.Leads .line ts q) :
    g.Begins ts := by
  have hne : ts ++ completion q ≠ [] := by
    -- Only behind an operand is nothing missing, and a line does not begin behind one.
    cases h with
    | nil => simp [completion]
    | cons => simp
  have hfollow : g.follow .line (lineItems (ts ++ completion q) (.bare .stop)) = .complete [] := by
    rw [lineItems, (h.append (leads_completion q)).follow]
    exact follow_stop rfl []
  obtain ⟨tree, hs⟩ := exists_sentence_of_follow rfl hne hfollow
  exact ⟨_, tree, hs, List.prefix_append _ _⟩

/-- **With a token that cannot come next no line goes on**, whatever lies behind it. -/
theorem not_beginsLine_of_advance {table : Table} (ht : table.Sound) {q : Expectation}
    {ts : List Token} {t : Token} {e : ReadError} (h : table.grammar.Leads .line ts q)
    (hadvance : table.grammar.advance q t = .error e) :
    ¬ table.grammar.BeginsLine (ts ++ [t]) := by
  rintro ⟨us, stop, tree, hs, hstop, behind, heq⟩
  have hitems : lineItems us stop = ts.map .ok ++ .ok t :: behind.map .ok := by
    have hmap := congrArg (List.map (.ok : Token → Item)) heq
    simpa [lineItems] using hmap.symm
  have hcomplete := hs.follow ht hstop
  rw [hitems, h.follow, follow_wrong hadvance] at hcomplete
  cases hcomplete

end Grammar

/-! ### What an error says of its token -/

namespace Grammar

variable {g : Grammar}

private theorem eq_noUnaryPriority_of_priorityOf {symbol : String} {e : TableError}
    (h : g.priorityOf symbol = .error e) : e = .noUnaryPriority symbol := by
  unfold priorityOf at h
  split at h
  · cases h
  · split at h
    · cases h
    · cases h
      rfl

/-- **The error describes the token with which following goes wrong.** -/
theorem describes_of_advance {q : Expectation} {t : Token} {e : ReadError}
    (h : g.advance q t = .error e) : e.Describes t := by
  rcases advance_error h with ⟨e', -, hpriority, rfl⟩ | ⟨-, hdescribes⟩
  · exact eq_noUnaryPriority_of_priorityOf hpriority
  · exact hdescribes

end Grammar

end Calculator
