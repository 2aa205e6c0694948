/-
One line after the other off one stream.

A reader that is not reset goes on where the line before has left its stream.  Between two
lines nothing is left of the first but that: no token is held, whatever the line was
answered with, and the stream has been asked for the tokens up to its end and for no
more.  This is what a line keeps, so it holds of every reader that resets and
lines lead to, on any stream that tells its last token (`keeps_protocol`).

Put together with what a single line takes off its stream (`yields_at`), lines that a
stream delivers one behind the other are answered one behind the other, each with
the tree of its own tokens.
-/
import Calculator.Proofs.Parser.Place
import Calculator.Proofs.Parser.Precedence
import Calculator.Proofs.Parser.Protocol
import Mathlib.Data.List.Forall2

namespace Calculator

open TokenStream (Exchange Exchanges TellsLast reads)

/-! ### Whole lines -/

/-- The tokens of a line and the end behind them. -/
structure WholeLine where
  tokens : List Token
  stop : Token
  isStop : stop.kind = .stop

/-- What a stream delivers for a line. -/
def WholeLine.items (l : WholeLine) : List Item :=
  lineItems l.tokens l.stop

namespace Grammar

/-- The line is a sentence, or it is empty. -/
def HasLine (g : Grammar) (l : WholeLine) : Prop :=
  l.tokens = [] ∨ ∃ tree, g.Sentence l.tokens tree

/-- What a line stands for: the tree of its chain, or nothing if it is empty. -/
def StandsFor (g : Grammar) (l : WholeLine) : Option Tree → Prop
  | some tree => g.IsChainLine l.tokens l.stop tree
  | none => l.tokens = []

theorem HasLine.follow {table : Table} (hs : table.Sound) {l : WholeLine}
    (h : table.grammar.HasLine l) : table.grammar.follow .line l.items = .complete [] := by
  obtain ⟨tokens, stop, hstop⟩ := l
  rcases h with hnil | ⟨tree, htree⟩
  · cases hnil
    exact follow_blank hstop []
  · exact htree.follow hs hstop

/-- A line that is read with nothing left is read to what it stands for. -/
theorem ReadsLine.standsFor {table : Table} (hs : table.Sound) {l : WholeLine}
    {tree? : Option Tree} (h : table.grammar.ReadsLine l.items tree? []) :
    table.grammar.StandsFor l tree? := by
  cases tree? with
  | some tree =>
      obtain ⟨us, stop', heq, -, hus, -⟩ := h.sentence
      have htokens : l.tokens = us := eq_of_lineItems_eq heq
      rw [← htokens] at hus
      exact h.isChainLine hs hus
  | none =>
      generalize hitems : l.items = is at h
      cases h with
      | blank _ => exact eq_of_lineItems_eq hitems

end Grammar

namespace LineReader

variable {σ : Type} [TokenStream σ]

/-! ### What is asked for a line -/

/-- The reader with a record of what its stream is asked from now on. -/
def recorded (r : LineReader σ) : LineReader (Recording r.tokens.stream) where
  grammar := r.grammar
  tokens := { stream := .start r.tokens.stream, held := r.tokens.held }

/-- What the stream of a reader is asked while a line is read. -/
def exchanged? (r : LineReader σ) (fuel : Nat) : Option (List Exchange) :=
  (r.recorded.readLine? fuel).map fun out => out.reader.tokens.stream.log

/-- A line leaves the grammar. -/
theorem grammar_of_readLine? {r : LineReader σ} {fuel : Nat} {out : Outcome σ}
    (h : r.readLine? fuel = some out) : out.reader.grammar = r.grammar := by
  obtain ⟨step, -, rfl⟩ := Option.map_eq_some_iff.1 h
  rfl

/-- **A line asks for the tokens up to its end or to an error, and leaves none held.** -/
theorem exists_exchanged {r : LineReader σ} (hs : TellsLast r.tokens.stream)
    (hheld : r.tokens.held = none) {fuel : Nat} {out : Outcome σ}
    (h : r.readLine? fuel = some out) :
    out.reader.tokens.held = none ∧ ∃ (ts : List Token) (last : Item),
      (∀ t ∈ ts, t.kind ≠ .stop) ∧ r.exchanged? fuel = some (reads (ts.map .ok ++ [last])) ∧
      Exchanges r.tokens.stream (reads (ts.map .ok ++ [last])) out.reader.tokens.stream ∧
      ∀ e, out.answer = .error (.token e) ↔ last = .error e := by
  obtain ⟨g, stream, held⟩ := r
  cases hheld
  -- The line is read off a recording as it is read off the stream.
  have hmirror : Parser.line g fuel (.wrap stream)
      = (Parser.line g fuel (.wrap (.start stream))).map (Step.map Recording.stream) :=
    Parser.mirrored_line (Recording.mirrors_stream stream) g fuel (.wrap (.start stream))
  have hread : (Parser.line g fuel (.wrap stream)).map _ = some out := h
  rw [hmirror, Option.map_map, Option.map_eq_some_iff] at hread
  obtain ⟨step, hstep, rfl⟩ := hread
  obtain ⟨e?, hdone, hanswer⟩ := Parser.exists_done_of_line hs (PushBack.ready_start stream) hstep
  obtain ⟨ts, last, hts, hlog, hlast⟩ := hdone.log
  have hexchanges := step.tokens.stream.exchanges
  rw [hlog] at hexchanges
  refine ⟨hdone.held, ts, last, hts, ?_, hexchanges, fun e => (hanswer e).trans (hlast e).symm⟩
  show ((Parser.line g fuel (.wrap (Recording.start stream))).map _).map _ = _
  rw [hstep, ← hlog]
  rfl

/-! ### Resets and lines -/

/-- Resets and lines lead from one reader to another. -/
inductive Reaches : LineReader σ → LineReader σ → Prop
  | refl (r : LineReader σ) : Reaches r r
  | reset {r r' : LineReader σ} (h : Reaches r r') (text : String) : Reaches r (r'.reset text)
  | line {r r' : LineReader σ} {fuel : Nat} {out : Outcome σ} (h : Reaches r r')
      (hline : r'.readLine? fuel = some out) : Reaches r out.reader

/-- The reader stands between two lines: no token is held, and its stream is what the source has
become. -/
structure Between (g : Grammar) (source : σ) (r : LineReader σ) : Prop where
  grammar : r.grammar = g
  held : r.tokens.held = none
  exchanges : ∃ es, Exchanges source es r.tokens.stream

namespace Between

variable {g : Grammar} {source : σ} {r : LineReader σ}

theorem ofStream (g : Grammar) (source : σ) : Between g source (ofStream g source) :=
  ⟨rfl, rfl, [], .nil source⟩

theorem tellsLast (h : Between g source r) (hs : TellsLast source) : TellsLast r.tokens.stream := by
  obtain ⟨es, hes⟩ := h.exchanges
  exact hs.of_exchanges hes

theorem reset (h : Between g source r) (text : String) : Between g source (r.reset text) := by
  obtain ⟨es, hes⟩ := h.exchanges
  exact ⟨h.grammar, rfl, es ++ [.reset text], hes.append (.reset text (.nil _))⟩

theorem line (h : Between g source r) (hs : TellsLast source) {fuel : Nat} {out : Outcome σ}
    (hline : r.readLine? fuel = some out) : Between g source out.reader := by
  obtain ⟨es, hes⟩ := h.exchanges
  obtain ⟨hheld, ts, last, -, -, hread, -⟩ := exists_exchanged (h.tellsLast hs) h.held hline
  exact ⟨(grammar_of_readLine? hline).trans h.grammar, hheld, _, hes.append hread⟩

end Between

/-- **Whatever has been read and reset, no token is held.** -/
theorem Reaches.between {g : Grammar} {source : σ} (hs : TellsLast source) {r : LineReader σ}
    (h : Reaches (ofStream g source) r) : Between g source r := by
  generalize hfirst : ofStream g source = first at h
  induction h with
  | refl =>
      rw [← hfirst]
      exact .ofStream g source
  | reset _ text ih => exact ih.reset text
  | line _ hline ih => exact ih.line hs hline

/-! ### Lines in a row -/

/-- Lines are read one after the other, without a reset between them, and these are the answers. -/
inductive AnswersInTurn : LineReader σ → List (Option Tree) → LineReader σ → Prop
  | nil (r : LineReader σ) : AnswersInTurn r [] r
  | cons {r r' : LineReader σ} {out : Outcome σ} {tree? : Option Tree}
      {answers : List (Option Tree)} (hline : r.Yields out) (hanswer : out.answer = .ok tree?)
      (hrest : AnswersInTurn out.reader answers r') : AnswersInTurn r (tree? :: answers) r'

variable {table : Table}

/-- A line in front of the stream is answered with what it stands for, and taken off. -/
theorem exists_answer_of_delivers (ht : table.Sound) {s m : σ} {l : WholeLine}
    (hl : table.grammar.HasLine l) (hd : Delivers s l.items m) :
    ∃ out tree?, (ofStream table.grammar s).Yields out ∧ out.answer = .ok tree? ∧
      table.grammar.StandsFor l tree? ∧ out.reader = ofStream table.grammar m := by
  obtain ⟨out, front, rest, source', hyields, hitems, hreader, hfront, -, hsettles⟩ :=
    (ofStream table.grammar s).yields_at rfl hd (closed_lineItems l.isStop)
  have hfollow := hl.follow ht
  cases hanswer : out.answer with
  | error e =>
      rw [hanswer] at hsettles
      have hwrong : table.grammar.follow .line l.items = .wrong e rest := hsettles
      rw [hwrong] at hfollow
      cases hfollow
  | ok tree? =>
      rw [hanswer] at hsettles
      have hreads : table.grammar.ReadsLine l.items tree? rest := hsettles
      rw [hreads.follow] at hfollow
      cases hfollow
      rw [List.append_nil] at hitems
      rw [← hitems] at hfront
      rw [hfront.unique hd] at hreader
      exact ⟨out, tree?, hyields, hanswer, hreads.standsFor ht, hreader⟩

/-- **Lines in a row are answered in a row**, each with what it stands for. -/
theorem exists_answersInTurn (ht : table.Sound) {s m : σ} {lines : List WholeLine}
    (hlines : ∀ l ∈ lines, table.grammar.HasLine l)
    (hd : Delivers s (lines.flatMap WholeLine.items) m) :
    ∃ answers, AnswersInTurn (ofStream table.grammar s) answers (ofStream table.grammar m) ∧
      List.Forall₂ table.grammar.StandsFor lines answers := by
  induction lines generalizing s with
  | nil =>
      cases hd
      exact ⟨[], .nil _, .nil⟩
  | cons l lines ih =>
      obtain ⟨hl, hlines⟩ := List.forall_mem_cons.1 hlines
      rw [List.flatMap_cons] at hd
      obtain ⟨mid, hfirst, hrest⟩ := hd.exists_of_append
      obtain ⟨out, tree?, hyields, hanswer, hstands, hreader⟩ :=
        exists_answer_of_delivers ht hl hfirst
      obtain ⟨answers, hanswers, hall⟩ := ih hlines hrest
      rw [← hreader] at hanswers
      exact ⟨tree? :: answers, .cons hyields hanswer hanswers, .cons hstands hall⟩

/-- **Every line keeps to the one token of push-back.**  Whatever resets and lines came before, no
token is held, and none is when the line is answered, with a tree, with none, or with an error.  The
stream is asked for no token behind the end or an error, and an error of the stream is the only one
of its kind that a line fails with, so that nothing is ever put back in vain.  Hence lines that the
stream delivers in a row are answered in a row, without a reset. -/
theorem keeps_protocol {d : Draft} {table : Table} (hb : d.build = .ok table) {source : σ}
    (hs : TellsLast source) {r : LineReader σ} (hr : Reaches (ofStream table.grammar source) r) :
    r.tokens.held = none ∧
      (∀ fuel out, r.readLine? fuel = some out → out.reader.tokens.held = none ∧
        ∃ (ts : List Token) (last : Item), (∀ t ∈ ts, t.kind ≠ .stop) ∧
          r.exchanged? fuel = some (reads (ts.map .ok ++ [last])) ∧
          Exchanges r.tokens.stream (reads (ts.map .ok ++ [last])) out.reader.tokens.stream ∧
          ∀ e, out.answer = .error (.token e) ↔ last = .error e) ∧
      ∀ (lines : List WholeLine) (m : σ), (∀ l ∈ lines, table.grammar.HasLine l) →
        Exchanges r.tokens.stream (reads (lines.flatMap WholeLine.items)) m →
        ∃ answers, AnswersInTurn r answers (ofStream table.grammar m) ∧
          List.Forall₂ table.grammar.StandsFor lines answers := by
  have hbetween : Between table.grammar source r := hr.between hs
  have htells : TellsLast r.tokens.stream := hbetween.tellsLast hs
  refine ⟨hbetween.held, fun fuel out => exists_exchanged htells hbetween.held, ?_⟩
  intro lines m hlines hexchanges
  have hreader : r = ofStream table.grammar r.tokens.stream := by
    obtain ⟨g, tokens⟩ := r
    obtain rfl : g = table.grammar := hbetween.grammar
    rw [ofStream, ← PushBack.eq_wrap_of_held hbetween.held]
  rw [hreader]
  exact exists_answersInTurn (Draft.sound_of_build hb) hlines (htells.delivers hexchanges)

/-- The line `1 + x`. -/
def sumLine : WholeLine :=
  ⟨[⟨.number, "1"⟩, ⟨.symbol, "+"⟩, ⟨.name, "x"⟩], .bare .stop, rfl⟩

/-- The line `let x = 2`. -/
def definitionLine : WholeLine :=
  ⟨[⟨.keyword, "let"⟩, ⟨.name, "x"⟩, .bare .equals, ⟨.number, "2"⟩], .bare .stop, rfl⟩

/-- An empty line. -/
def emptyLine : WholeLine :=
  ⟨[], .bare .stop, rfl⟩

/-- A bracket that closes nothing, and three lines behind it. -/
def strayScript : Script :=
  .new (.ok (.bare .rightParen) :: [sumLine, emptyLine, definitionLine].flatMap WholeLine.items)

theorem keeps_protocol_strayScript :
    TellsLast strayScript ∧
      ∃ out m, (ofStream Table.standard.grammar strayScript).readLine? 8 = some out ∧
        out.answer = .error (.noOperand "')'") ∧ ∃ answers,
          AnswersInTurn out.reader answers (ofStream Table.standard.grammar m) ∧
          List.Forall₂ Table.standard.grammar.StandsFor [sumLine, emptyLine, definitionLine]
            answers := by
  have hs : TellsLast strayScript := strayScript.remembers.tellsLast
  obtain ⟨out, hout, hanswer, hahead⟩ : ∃ out,
      (ofStream Table.standard.grammar strayScript).readLine? 8 = some out ∧
        out.answer = .error (.noOperand "')'") ∧ out.reader.tokens.stream.ahead
          = [sumLine, emptyLine, definitionLine].flatMap WholeLine.items := ⟨_, rfl, rfl, rfl⟩
  obtain ⟨m, hm⟩ := Script.exists_delivers out.reader.tokens.stream
  rw [hahead] at hm
  have hsum : Table.standard.grammar.follow .line sumLine.items = .complete [] := by
    rfl
  have hdefinition : Table.standard.grammar.follow .line definitionLine.items = .complete [] := by
    rfl
  have hlines : ∀ l ∈ [sumLine, emptyLine, definitionLine], Table.standard.grammar.HasLine l := by
    simp only [List.forall_mem_cons]
    exact ⟨Or.inr (Grammar.exists_sentence_of_follow rfl (by decide) hsum), Or.inl rfl,
      Or.inr (Grammar.exists_sentence_of_follow rfl (by decide) hdefinition), by simp⟩
  obtain ⟨-, -, hturn⟩ := keeps_protocol Draft.build_standard hs (.line (.refl _) hout)
  exact ⟨hs, out, m, hout, hanswer, hturn _ m hlines (TokenStream.exchanges_of_delivers hm)⟩

end LineReader

end Calculator
