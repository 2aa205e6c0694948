/-
What a text is read to.

A text goes through two machines, and what each of them does is known without the
other: the scanner cuts a text into the tokens that it is a writing of, and the parser
makes the tree of their chain.  So a text is read to a tree exactly if it is a writing
of tokens whose chain has that tree (`reading_eq_ok_iff`), and neither machine has to
be looked at again.  What running such a text does follows from that.
-/
import Calculator.Proofs.Parser.Precedence
import Calculator.Proofs.Session.Line

namespace Calculator

namespace Table

/-- The text is a writing of the tokens, and the table lets a line hold them. -/
structure Writes (table : Table) (ts : List Token) (text : String) : Prop where
  wellFormed : ∀ t ∈ ts, t.WellFormed table.lexicon
  writing : ∃ gap, Writing gap ts text.toList

variable {table : Table} {text : String} {tree : Tree}

theorem Writes.kind_ne_stop {ts : List Token} (h : table.Writes ts text) :
    ∀ t ∈ ts, t.kind ≠ .stop :=
  fun t ht => (h.wellFormed t ht).kind_ne_stop

/-- There may be a space in front. -/
theorem Writes.space {ts : List Token} (h : table.Writes ts text) :
    table.Writes ts (" " ++ text) := by
  obtain ⟨gap, hwriting⟩ := h.writing
  exact ⟨h.wellFormed, gap + 1, by simpa using hwriting.space⟩

/-- A name and a value are written as a definition. -/
theorem Writes.definition {ts : List Token} (h : table.Writes ts text) {name : String}
    (hname : Token.isIdentifier name = true ∧ name ≠ keyword) :
    table.Writes (⟨.keyword, keyword⟩ :: ⟨.name, name⟩ :: .bare .equals :: ts)
      ("let " ++ name ++ " =" ++ text) := by
  obtain ⟨gap, hwriting⟩ := h.writing
  have hkeyword : Token.WellFormed table.lexicon ⟨.keyword, keyword⟩ := rfl
  have hequals : (Token.bare .equals).WellFormed table.lexicon := rfl
  refine ⟨?_, 0, by simpa using hwriting.definition name⟩
  simp only [List.forall_mem_cons]
  exact ⟨hkeyword, hname, hequals, h.wellFormed⟩

/-- A text with an error in it is read to no tree. -/
theorem not_readsLine_error {g : Grammar} {ts : List Token} {e : TokenError} {rest : List Item}
    (hts : ∀ t ∈ ts, t.kind ≠ .stop) :
    ¬ g.ReadsLine (ts.map .ok ++ [.error e]) (some tree) rest := by
  intro h
  obtain ⟨us, stop, heq, hstop, -, -⟩ := h.sentence
  have hmem : (.ok stop : Item) ∈ ts.map .ok ++ [.error e] := by
    rw [heq]
    simp
  have hstop' : stop ∈ ts := by simpa using hmem
  exact hts stop hstop' hstop

/-- **A text is read to a tree exactly if it is a writing of tokens whose chain has that tree.** -/
theorem reading_eq_ok_iff (hs : table.Sound) (ho : table.grammar.Orderly) :
    (table.reading text).answer = .ok (some tree) ↔
      ∃ ts, table.Writes ts text ∧ table.grammar.IsChainLine ts (.bare .stop) tree := by
  constructor
  · intro h
    obtain ⟨ts, last, m, hd, hc, hts, hlast⟩ := exists_delivery hs text
    have hkinds : ∀ t ∈ ts, t.kind ≠ .stop := fun t ht => (hts t ht).kind_ne_stop
    obtain ⟨-, hanswer⟩ := answers_of_delivers hd hc
    rcases hlast with ⟨rfl, hwriting⟩ | ⟨e, rfl, -⟩
    · exact ⟨ts, ⟨hts, hwriting⟩, (hanswer.eq_ok_iff hs ho hkinds rfl tree).1 h⟩
    · rw [h] at hanswer
      obtain ⟨-, rest, hr, -⟩ := hanswer
      exact absurd hr (not_readsLine_error hkinds)
  · intro h
    obtain ⟨ts, hwrites, hline⟩ := h
    obtain ⟨gap, hwriting⟩ := hwrites.writing
    obtain ⟨m, hanswer⟩ := answers_of_writing hs hwriting hwrites.wellFormed
    exact (hanswer.eq_ok_iff hs ho hwrites.kind_ne_stop rfl tree).2 hline

end Table

/-! ### Lines of a session -/

namespace Session

variable {s : Session} {table : Table} {text : String} {tree : Tree}

/-- A session reads a text to a tree exactly if its table does. -/
theorem Uses.read_eq_ok_iff (hs : s.Uses table) :
    (s.read text).answer = .ok (some tree) ↔
      (table.reading text).answer = .ok (some tree) := by
  rw [hs.read_eq]
  exact mapError_eq_ok_iff

/-- Running a text that is read to a tree is evaluating the tree. -/
theorem Uses.run_eq_execute (hs : s.Uses table)
    (h : (table.reading text).answer = .ok (some tree)) :
    (s.run text).answer = (s.execute tree).answer ∧
      (s.run text).session.env = (s.execute tree).session.env := by
  have hread : (s.read text).answer = .ok (some tree) := hs.read_eq_ok_iff.2 h
  have henv : (s.read text).session.env = s.env := rfl
  simp [Session.run, hread, Session.execute?, Session.execute, henv]

end Session

end Calculator
