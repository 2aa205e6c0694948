/-
One line of a session.

A session begins every line with a reset, and a reset keeps nothing of the reader but
its grammar and its lexicon.  So as long as these are the two views of one table,
what a line is read to is settled by the table and the text: it is `Table.reading`.
`Uses` is that invariant, and every request keeps it.

What a text is cut into is known from the scanner, and what is made of that from the
parser.  `answers_of_delivers` puts the two together.
-/
import Calculator.Proofs.Parser.Acceptance
import Calculator.Proofs.Token.Writing
import Calculator.Session

namespace Calculator

/-! ### Answers -/

/-- Wrapping its error leaves an answer that is no error alone. -/
theorem mapError_eq_ok_iff {α ε ε' : Type} {x : Except ε α} {f : ε → ε'} {a : α} :
    x.mapError f = .ok a ↔ x = .ok a := by
  cases x with
  | ok b =>
      constructor
      · intro h
        cases h
        rfl
      · intro h
        cases h
        rfl
  | error e =>
      constructor
      · intro h
        cases h
      · intro h
        cases h

/-! ### Reading a text with a table -/

/-- What a text is read to with a table. -/
def Table.reading (table : Table) (text : String) : LineReader.Outcome Scanner :=
  ((LineReader.ofTable table).reset text).readLine

/-- A scanner keeps its lexicon. -/
theorem Scanner.lexicon_next (s : Scanner) : s.next.2.lexicon = s.lexicon := by
  unfold next
  split
  · rfl
  · simp only
    split <;> rfl

theorem PushBack.lexicon_next (s : PushBack Scanner) :
    s.next.2.stream.lexicon = s.stream.lexicon := by
  unfold next
  split
  · rfl
  · exact s.stream.lexicon_next

theorem Delivers.lexicon_eq {s m : PushBack Scanner} {is : List Item} (h : Delivers s is m) :
    m.stream.lexicon = s.stream.lexicon := by
  have hstep : ∀ {s s' : PushBack Scanner} {i : Item}, TokenStream.next s = (i, s') →
      s'.stream.lexicon = s.stream.lexicon := by
    intro s s' i hnext
    have hs' : s.next.2 = s' := congrArg Prod.snd hnext
    rw [← hs', s.lexicon_next]
  induction h with
  | nil => rfl
  | token hnext _ _ ih => exact ih.trans (hstep hnext)
  | error hnext _ ih => exact ih.trans (hstep hnext)

namespace Table

variable {table : Table} {text : String}

/-- What a text is read to is what its items are read to, or where following them goes wrong. -/
theorem answers_of_delivers {is : List Item} {m : Scanner}
    (hd : Delivers ((Scanner.new table.lexicon).reset text) is m) (hc : Closed is) :
    (table.reading text).reader.grammar = table.grammar ∧
      Parser.LineAnswers table.grammar is (.wrap m) (table.reading text).answer
        (table.reading text).reader.tokens := by
  have hwrap : Delivers ((LineReader.ofTable table).reset text).tokens is (.wrap m) :=
    PushBack.delivers_wrap hd
  obtain ⟨out, hyields, hgrammar, hanswer⟩ := LineReader.yields_answers hwrap hc
  have hout : table.reading text = out := (LineReader.yields_readLine _).unique hyields
  rw [hout]
  exact ⟨hgrammar, hanswer⟩

/-- A writing of well-formed tokens is read as these tokens and the end. -/
theorem answers_of_writing (ht : table.Sound) {gap : Nat} {ts : List Token}
    (h : Writing gap ts text.toList) (hts : ∀ t ∈ ts, t.WellFormed table.lexicon) :
    ∃ m, Parser.LineAnswers table.grammar (lineItems ts (.bare .stop)) m
      (table.reading text).answer (table.reading text).reader.tokens := by
  obtain ⟨m, hm⟩ := Scanner.delivers_of_writing (s := (Scanner.new table.lexicon).reset text)
    ht.lexable rfl h hts
  exact ⟨.wrap m, (answers_of_delivers hm (closed_lineItems rfl)).2⟩

/-- Every text is cut into well-formed tokens that something closes: its end, and then it is a
writing of them, or an error that it causes. -/
theorem exists_delivery (ht : table.Sound) (text : String) :
    ∃ (ts : List Token) (last : Item) (m : Scanner),
      Delivers ((Scanner.new table.lexicon).reset text) (ts.map .ok ++ [last]) m ∧
      Closed (ts.map .ok ++ [last]) ∧ (∀ t ∈ ts, t.WellFormed table.lexicon) ∧
      ((last = .ok (.bare .stop) ∧ ∃ gap, Writing gap ts text.toList) ∨
        ∃ e, last = .error e ∧ e.IsLexical) := by
  obtain ⟨ts, last, m, hm, hts, hlast⟩ :=
    Scanner.exists_delivery (s := (Scanner.new table.lexicon).reset text) ht.lexable rfl
  refine ⟨ts, last, m, hm, ⟨last, by simp, ?_⟩, hts, hlast⟩
  rcases hlast with ⟨rfl, -⟩ | ⟨e, rfl, -⟩ <;> rfl

/-- Whatever the answer, the reader still has both views of the table. -/
theorem lexicon_of_answers {g : Grammar} {is : List Item} {s m : PushBack Scanner}
    {answer : Except ReadError (Option Tree)} (h : Parser.LineAnswers g is m answer s) :
    s.stream.lexicon = m.stream.lexicon := by
  cases answer with
  | ok tree? =>
      obtain ⟨-, rest, -, hd⟩ := h
      exact hd.lexicon_eq.symm
  | error e =>
      obtain ⟨-, rest, hd, -⟩ := h
      exact hd.lexicon_eq.symm

/-- **Every text is read**: it is cut into well-formed tokens, up to its end or to an error that the
text causes, and these are read to a tree or refused. -/
theorem exists_reading (ht : table.Sound) (text : String) :
    ∃ (ts : List Token) (last : Item) (m : PushBack Scanner),
      (∀ t ∈ ts, t.WellFormed table.lexicon) ∧
      (last = .ok (.bare .stop) ∨ ∃ e, last = .error e ∧ e.IsLexical) ∧
      (table.reading text).reader.grammar = table.grammar ∧
      (table.reading text).reader.tokens.stream.lexicon = table.lexicon ∧
      Parser.LineAnswers table.grammar (ts.map .ok ++ [last]) m (table.reading text).answer
        (table.reading text).reader.tokens := by
  obtain ⟨ts, last, m, hm, hc, hts, hlast⟩ := exists_delivery ht text
  have hend : last = .ok (.bare .stop) ∨ ∃ e, last = .error e ∧ e.IsLexical :=
    hlast.imp_left And.left
  obtain ⟨hgrammar, hanswer⟩ := answers_of_delivers hm hc
  have hlexicon : m.lexicon = table.lexicon := (PushBack.delivers_wrap hm).lexicon_eq
  exact ⟨ts, last, .wrap m, hts, hend, hgrammar, (lexicon_of_answers hanswer).trans hlexicon,
    hanswer⟩

end Table

/-! ### The table of a session -/

namespace Session

/-- The session reads its lines with the two views of the table. -/
structure Uses (s : Session) (table : Table) : Prop where
  grammar : s.reader.grammar = table.grammar
  lexicon : s.reader.tokens.stream.lexicon = table.lexicon

theorem uses_new (table : Table) (env : Environment) : (new table env).Uses table :=
  ⟨rfl, rfl⟩

variable {s : Session} {table : Table}

/-- A reset leaves nothing of the lines before. -/
theorem Uses.reset_reader (hs : s.Uses table) (text : String) :
    s.reader.reset text = (LineReader.ofTable table).reset text := by
  have htokens : s.reader.tokens.reset text = (PushBack.wrap (.new table.lexicon)).reset text := by
    show PushBack.wrap { Scanner.new s.reader.tokens.stream.lexicon with rest := text.toList } = _
    rw [hs.lexicon]
    rfl
  show LineReader.mk s.reader.grammar (s.reader.tokens.reset text) = _
  rw [hs.grammar, htokens]
  rfl

/-- **What a line is read to is settled by the table and the text.** -/
theorem Uses.read_eq (hs : s.Uses table) (text : String) :
    s.read text = { answer := (table.reading text).answer.mapError .ofReading
                    session := { s with reader := (table.reading text).reader }
                    events := (table.reading text).events } := by
  rw [read, hs.reset_reader]
  rfl

/-! ### Requests keep the table -/

theorem Uses.read (hs : s.Uses table) (ht : table.Sound) (text : String) :
    (s.read text).session.Uses table := by
  obtain ⟨-, -, -, -, -, hgrammar, hlexicon, -⟩ := Table.exists_reading ht text
  rw [hs.read_eq]
  exact ⟨hgrammar, hlexicon⟩

theorem Uses.execute (hs : s.Uses table) (tree : Tree) : (s.execute tree).session.Uses table :=
  ⟨hs.grammar, hs.lexicon⟩

theorem Uses.execute? (hs : s.Uses table) (tree? : Option Tree) :
    (s.execute? tree?).session.Uses table := by
  cases tree? with
  | some tree => exact hs.execute tree
  | none => exact hs

theorem Uses.run (hs : s.Uses table) (ht : table.Sound) (text : String) :
    (s.run text).session.Uses table := by
  rw [Session.run]
  split
  · exact hs.read ht text
  · exact (hs.read ht text).execute? _

/-- The session behind some lines. -/
def after (lines : List String) (s : Session) : Session :=
  lines.foldl (fun s text => (s.run text).session) s

theorem Uses.after (hs : s.Uses table) (ht : table.Sound) (lines : List String) :
    (s.after lines).Uses table := by
  induction lines generalizing s with
  | nil => exact hs
  | cons text rest ih => exact ih (hs.run ht text)

end Session

end Calculator
