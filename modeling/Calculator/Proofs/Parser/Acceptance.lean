/-
The lines a reader accepts are the sentences of its grammar.

A stream delivers some tokens and then the end.  A tree is read off them exactly if
the grammar has one for them, and the tree that is read is one that the grammar has.
Nothing is read off them exactly if the end is all there is.

That an accepted line is a sentence is `ReadsLine.sentence`.  The converse is where
the ambiguity of the grammar has to be met: the parser goes on wherever it can, and
that must not cost it a line which another derivation would have saved.  It does
not, because whether a line goes on does not depend on the derivation.  A sentence
can be followed to its end (`Sentence.follow`), and the parser fails only where
following fails (`gives_line`).
-/
import Calculator.LineReader
import Calculator.Proofs.Parser.Faithful
import Calculator.Proofs.Parser.Parallel
import Calculator.Table.Standard

namespace Calculator

theorem eq_ok_of_toOption {α ε : Type} {x : Except ε α} {a : α} (h : x.toOption = some a) :
    x = .ok a := by
  cases x with
  | ok b => exact congrArg Except.ok (Option.some.inj h)
  | error e => cases h

namespace LineReader

variable {σ : Type} [TokenStream σ]

/-! ### What a reader yields

A stream that may go on forever has no bound on its tokens, so there is no budget
that could be named in advance.  The answer of a reader is the one it gives on all
budgets from some one on.
-/

/-- On every budget that is large enough, reading a line gives the outcome. -/
def Yields (r : LineReader σ) (out : Outcome σ) : Prop :=
  ∃ enough, ∀ fuel, enough ≤ fuel → r.readLine? fuel = some out

private theorem readLine?_mono {r : LineReader σ} {out : Outcome σ} {fuel fuel' : Nat}
    (h : fuel ≤ fuel') (hr : r.readLine? fuel = some out) : r.readLine? fuel' = some out := by
  simp only [readLine?, Option.map_eq_some_iff] at hr ⊢
  obtain ⟨step, hstep, hout⟩ := hr
  exact ⟨step, Parser.extends_line h _ _ hstep, hout⟩

/-- One budget on which there is an answer is enough. -/
theorem yields_of_readLine? {r : LineReader σ} {out : Outcome σ} {fuel : Nat}
    (h : r.readLine? fuel = some out) : r.Yields out :=
  ⟨fuel, fun _ hle => readLine?_mono hle h⟩

theorem Yields.unique {r : LineReader σ} {out out' : Outcome σ} (h : r.Yields out)
    (h' : r.Yields out') : out = out' := by
  obtain ⟨enough, h⟩ := h
  obtain ⟨enough', h'⟩ := h'
  have hle := h (max enough enough') (Nat.le_max_left _ _)
  have hle' := h' (max enough enough') (Nat.le_max_right _ _)
  rw [hle] at hle'
  exact Option.some.inj hle'

/-- What is read on some budget is what the reader yields. -/
theorem Yields.answer_eq_ok {r : LineReader σ} {out : Outcome σ} (h : r.Yields out) {fuel : Nat}
    {tree? : Option Tree} (hr : (r.readLine? fuel).bind (·.answer.toOption) = some tree?) :
    out.answer = .ok tree? := by
  obtain ⟨out', hout', hanswer⟩ := Option.bind_eq_some_iff.1 hr
  rw [(yields_of_readLine? hout').unique h] at hanswer
  exact eq_ok_of_toOption hanswer

/-- A reader of a finite stream yields what it reads. -/
theorem yields_readLine {τ : Type} [FiniteStream τ] (r : LineReader τ) : r.Yields r.readLine :=
  yields_of_readLine? r.readLine?_budget

/-- On items that come to an end a reader yields what they are read to, or where following them goes
wrong. -/
theorem yields_answers {r : LineReader σ} {is : List Item} {m : PushBack σ}
    (hd : Delivers r.tokens is m) (hc : Closed is) :
    ∃ out, r.Yields out ∧ out.reader.grammar = r.grammar ∧
      Parser.LineAnswers r.grammar is m out.answer out.reader.tokens := by
  obtain ⟨step, hstep, hanswer⟩ :=
    Parser.gives_line hd hc (Nat.le_refl (r.grammar.budget is.length))
  have hread : r.readLine? (r.grammar.budget is.length)
      = some ⟨step.answer, { r with tokens := step.tokens }, step.events⟩ := by
    rw [readLine?, hstep, Option.map_some]
  exact ⟨_, yields_of_readLine? hread, rfl, hanswer⟩

/-! ### Acceptance -/

theorem sentence_of_readsLine {g : Grammar} {ts : List Token} {stop : Token} {rest : List Item}
    {tree : Tree} (hts : ∀ t ∈ ts, t.kind ≠ .stop)
    (h : g.ReadsLine (lineItems ts stop) (some tree) rest) : g.Sentence ts tree := by
  obtain ⟨us, stop', his, hstop', hus, hs⟩ := h.sentence
  rw [lineItems_cancel hts hus hstop' his]
  exact hs

theorem eq_nil_of_readsLine {g : Grammar} {ts : List Token} {stop : Token} {rest : List Item}
    (hts : ∀ t ∈ ts, t.kind ≠ .stop) (h : g.ReadsLine (lineItems ts stop) none rest) : ts = [] := by
  cases ts with
  | nil => rfl
  | cons t ts =>
      obtain ⟨is, his⟩ : ∃ is, lineItems (t :: ts) stop = .ok t :: is := ⟨_, rfl⟩
      rw [his] at h
      cases h with
      | blank hkind => exact absurd hkind (hts t List.mem_cons_self)

/-- **A reader accepts exactly the sentences of its grammar.**  On the tokens of a line it yields a
tree if and only if the grammar has one, and no tree if and only if there are no tokens; a tree that
it yields is one that the grammar has for these tokens. -/
theorem accepts_exactly_sentences {d : Draft} {table : Table} (hb : d.build = .ok table)
    (r : LineReader σ) (hg : r.grammar = table.grammar) {ts : List Token} {stop : Token}
    {after : PushBack σ} (hts : ∀ t ∈ ts, t.kind ≠ .stop) (hstop : stop.kind = .stop)
    (hd : Delivers r.tokens (lineItems ts stop) after) :
    ∃ out, r.Yields out ∧
      ((∃ tree, out.answer = .ok (some tree)) ↔ ∃ tree, table.grammar.Sentence ts tree) ∧
      (out.answer = .ok none ↔ ts = []) ∧
      ∀ tree, out.answer = .ok (some tree) → table.grammar.Sentence ts tree := by
  obtain ⟨out, hyields, -, hanswer⟩ := yields_answers hd (closed_lineItems hstop)
  rw [hg] at hanswer
  have hsentence : ∀ tree, out.answer = .ok (some tree) → table.grammar.Sentence ts tree := by
    intro tree htree
    rw [htree] at hanswer
    obtain ⟨-, rest, hr, -⟩ := hanswer
    exact sentence_of_readsLine hts hr
  have hblank : out.answer = .ok none → ts = [] := by
    intro hnone
    rw [hnone] at hanswer
    obtain ⟨-, rest, hr, -⟩ := hanswer
    exact eq_nil_of_readsLine hts hr
  -- A line that can be followed to its end is not refused.
  have haccepted : table.grammar.follow .line (lineItems ts stop) = .complete [] →
      ∃ tree?, out.answer = .ok tree? := by
    intro hfollow
    cases herr : out.answer with
    | ok tree? => exact ⟨tree?, rfl⟩
    | error e =>
        rw [herr] at hanswer
        obtain ⟨-, rest, -, hwrong⟩ := hanswer
        rw [hwrong 0] at hfollow
        cases hfollow
  refine ⟨out, hyields, ⟨?_, ?_⟩, ⟨hblank, ?_⟩, hsentence⟩
  · rintro ⟨tree, htree⟩
    exact ⟨tree, hsentence tree htree⟩
  · rintro ⟨tree, htree⟩
    obtain ⟨tree?, hok⟩ := haccepted (htree.follow (Draft.sound_of_build hb) hstop)
    cases tree? with
    | some tree' => exact ⟨tree', hok⟩
    | none => exact absurd (hblank hok) htree.ne_nil
  · rintro rfl
    obtain ⟨tree?, hok⟩ := haccepted (Grammar.follow_blank hstop [])
    cases tree? with
    | none => exact hok
    | some tree => exact absurd rfl (hsentence tree hok).ne_nil

/-- The tokens of `2 ** - 3 * 4`, which the standard grammar derives in two ways. -/
def lowSign : List Token :=
  [⟨.number, "2"⟩, ⟨.symbol, "**"⟩, ⟨.symbol, "-"⟩, ⟨.number, "3"⟩, ⟨.symbol, "*"⟩, ⟨.number, "4"⟩]

/-- The sign takes the product with it. -/
def lowSignTree : Tree :=
  .binary .pow (.number "2") (.unary .neg (.binary .mul (.number "3") (.number "4")))

/-- A reader in front of these tokens. -/
def lowSignReader : LineReader Script :=
  ofStream Table.standard.grammar (Script.new (lineItems lowSign (.bare .stop)))

theorem accepts_lowSign :
    (∀ t ∈ lowSign, t.kind ≠ .stop) ∧
      (∃ after, Delivers lowSignReader.tokens (lineItems lowSign (.bare .stop)) after) ∧
      ∃ out, lowSignReader.Yields out ∧ out.answer = .ok (some lowSignTree) ∧
        Table.standard.grammar.Sentence lowSign lowSignTree := by
  have hts : ∀ t ∈ lowSign, t.kind ≠ .stop := by decide
  obtain ⟨m, hm⟩ := Script.exists_delivers (Script.new (lineItems lowSign (.bare .stop)))
  have hd : Delivers lowSignReader.tokens (lineItems lowSign (.bare .stop)) (.wrap m) :=
    PushBack.delivers_wrap hm
  obtain ⟨out, hyields, -, -, hsentence⟩ :=
    accepts_exactly_sentences Draft.build_standard lowSignReader rfl hts rfl hd
  have hread : (lowSignReader.readLine? 20).bind (·.answer.toOption) = some (some lowSignTree) := by
    decide +kernel
  obtain ⟨out', hout', hanswer⟩ := Option.bind_eq_some_iff.1 hread
  rw [(yields_of_readLine? hout').unique hyields] at hanswer
  have hok : out.answer = .ok (some lowSignTree) := by
    cases h : out.answer with
    | ok tree? =>
        rw [h] at hanswer
        exact congrArg Except.ok (Option.some.inj hanswer)
    | error e =>
        rw [h] at hanswer
        cases hanswer
  exact ⟨hts, ⟨_, hd⟩, out, hyields, hok, hsentence _ hok⟩

end LineReader

end Calculator
