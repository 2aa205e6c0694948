/-
Tables that may stand for each other.

Two tables with the same operations accept the same lines and refuse the others with
the same errors.  Whether they also agree on the trees is a question about chains, and
it has to be asked in one direction only: if every chain of the one table is a chain of
the other with the same tree, the two read every text alike (`reading_congr`).  A text
that the other reads to a tree is read to some tree by the first, whose chain the other
has as well, and there it has one tree.

That covers two ways to change a table without anyone noticing: describing it in
another order, which gives the same grammar, and putting in a level that holds
nothing, which respaces it.
-/
import Calculator.Proofs.Session.Arrangement
import Calculator.Proofs.Session.Reading
import Calculator.Proofs.Table.Insertion
import Calculator.Proofs.Table.Rearrangement

namespace Calculator

/-- Answers with the same marks are one answer if the second one has the tree of the first, should
there be one. -/
theorem answer_eq_of_marks {answer answer' : Except ReadError (Option Tree)}
    (hmarks : answer.map (Option.map Tree.marks) = answer'.map (Option.map Tree.marks))
    (htree : ∀ tree, answer = .ok (some tree) → answer' = .ok (some tree)) : answer = answer' := by
  cases answer with
  | error e =>
      cases answer' with
      | error e' => exact congrArg Except.error (Except.error.inj hmarks)
      | ok tree?' => cases hmarks
  | ok tree? =>
      cases tree? with
      | some tree => exact (htree tree rfl).symm
      | none =>
          cases answer' with
          | error e' => cases hmarks
          | ok tree?' =>
              cases tree?' with
              | none => rfl
              | some tree' => cases hmarks

/-- **Tables with the same operations and the same chains read every text alike.** -/
theorem Table.reading_congr {t t' : Table} (hs : t.Sound) (ho : t.grammar.Orderly)
    (hs' : t'.Sound) (ho' : t'.grammar.Orderly) (hsame : t.grammar.SameOperations t'.grammar)
    (hchain : ∀ {ts : List Token} {stop : Token} {tree : Tree},
      t.grammar.IsChainLine ts stop tree → t'.grammar.IsChainLine ts stop tree) (text : String) :
    (t.reading text).answer = (t'.reading text).answer := by
  obtain ⟨ts, last, m, hd, hc, hts, hlast⟩ := exists_delivery hs text
  have hkinds : ∀ u ∈ ts, u.kind ≠ .stop := fun u hu => (hts u hu).kind_ne_stop
  have hd' : Delivers ((Scanner.new t'.lexicon).reset text) (ts.map .ok ++ [last])
      (m.withLexicon t'.lexicon) :=
    Scanner.delivers_congr hd (scan_congr (mem_symbols_congr hs hs' hsame))
  obtain ⟨-, hanswer⟩ := answers_of_delivers hd hc
  obtain ⟨-, hanswer'⟩ := answers_of_delivers hd' hc
  refine answer_eq_of_marks (hanswer.map_marks_eq hsame hanswer') ?_
  intro tree htree
  rcases hlast with ⟨rfl, -⟩ | ⟨e, rfl, -⟩
  · have hline := (hanswer.eq_ok_iff hs ho hkinds rfl tree).1 htree
    exact (hanswer'.eq_ok_iff hs' ho' hkinds rfl tree).2 (hchain hline)
  · -- A text with an error in it is read to no tree.
    rw [htree] at hanswer
    obtain ⟨-, rest, hr, -⟩ := hanswer
    exact absurd hr (not_readsLine_error hkinds)

namespace Draft

/-! ### Another order of registration -/

/-- **The order in which symbols are registered does not matter, nor how registrations are
interleaved.**  Registrations of the same levels, groups and symbols are built to a table or refused
together.  The tables have one grammar, cut lines at the same symbols, and at symbols of the same
characters; they have one lexicon too if the operations are first named in the same order.  Every
text is read alike. -/
theorem build_of_sameCalls {registrations registrations' : List Registration}
    (h : SameCalls registrations registrations') :
    ((∃ table, (empty.registerAll registrations).build = .ok table) ↔
      ∃ table', (empty.registerAll registrations').build = .ok table') ∧
    ∀ table table', (empty.registerAll registrations).build = .ok table →
      (empty.registerAll registrations').build = .ok table' →
      table.grammar = table'.grammar ∧
      (∀ text, table.lexicon.isSymbol text = table'.lexicon.isSymbol text) ∧
      (∀ c, table.lexicon.isSymbolChar c = table'.lexicon.isSymbolChar c) ∧
      ((Plan.binaryOf registrations).placed.eraseDups
          = (Plan.binaryOf registrations').placed.eraseDups →
        (Plan.unaryOf registrations).placed.eraseDups
          = (Plan.unaryOf registrations').placed.eraseDups →
        table.lexicon = table'.lexicon) ∧
      ∀ text, (table.reading text).answer = (table'.reading text).answer := by
  have hdrafts := rearranges_of_sameCalls h
  refine ⟨hdrafts.isOk_build_iff, ?_⟩
  intro table table' hb hb'
  have hs : table.Sound := sound_of_build hb
  have hs' : table'.Sound := sound_of_build hb'
  have hgrammar : table.grammar = table'.grammar := hdrafts.grammar_eq hb hb'
  have hsame : table.grammar.SameOperations table'.grammar := by
    rw [hgrammar]
    exact ⟨rfl, rfl, fun _ => Iff.rfl, fun _ => rfl⟩
  have hsymbols := Table.mem_symbols_congr hs hs' hsame
  refine ⟨hgrammar, Lexicon.isSymbol_congr hsymbols,
    congrFun (Lexicon.isSymbolChar_congr hsymbols), ?_, ?_⟩
  · intro hbinaryOrder hunaryOrder
    simp only [← binary_empty_registerAll, ← unary_empty_registerAll] at hbinaryOrder hunaryOrder
    exact hdrafts.lexicon_eq hb hb' hbinaryOrder hunaryOrder
  · exact Table.reading_congr hs (orderly_of_build hb) hs' (orderly_of_build hb') hsame
      (fun hline => hgrammar ▸ hline)

/-- Registrations in the order in which a table is usually described. -/
def plainCalls : List Registration :=
  [.level [.add, .sub] .left, .level [.mul] .right, .group [.neg, .pos],
   .binarySymbol .add "+", .binarySymbol .sub "-", .binarySymbol .mul "*",
   .unarySymbol .neg "-", .unarySymbol .pos "+"]

/-- The same registrations in another order, some of them more than once. -/
def shuffledCalls : List Registration :=
  [.unarySymbol .pos "+", .binarySymbol .mul "*", .group [.pos, .neg, .pos],
   .level [.sub, .add, .sub] .left, .binarySymbol .sub "-", .binarySymbol .mul "*",
   .level [.mul] .right, .unarySymbol .neg "-", .binarySymbol .add "+"]

theorem build_shuffledCalls :
    SameCalls plainCalls shuffledCalls ∧
    ∃ table table', (empty.registerAll plainCalls).build = .ok table ∧
      (empty.registerAll shuffledCalls).build = .ok table' ∧
      table.lexicon ≠ table'.lexicon ∧ table.grammar = table'.grammar ∧
      (table.reading "1 - -2 * x + y").answer = (table'.reading "1 - -2 * x + y").answer := by
  have h : SameCalls plainCalls shuffledCalls :=
    ⟨⟨by decide, by decide⟩, ⟨by decide, by decide⟩, by decide⟩
  have hb : (empty.registerAll plainCalls).build = .ok (empty.registerAll plainCalls).table :=
    build_eq_ok_iff.2 ⟨by decide +kernel, rfl⟩
  obtain ⟨table', hb'⟩ := (build_of_sameCalls h).1.1 ⟨_, hb⟩
  obtain ⟨hgrammar, -, -, -, hreading⟩ := (build_of_sameCalls h).2 _ _ hb hb'
  obtain ⟨-, rfl⟩ := build_eq_ok_iff.1 hb'
  exact ⟨h, _, _, hb, hb', by decide +kernel, hgrammar, hreading _⟩

/-! ### An empty level -/

/-- **Only the order of the levels matters.**  An empty level may be put in at any place of a table
that is built, and with it an empty group at the same place if there are more groups than that.  The
table is built again; the priorities from there on are greater by one, lines are cut at the same
symbols, and every text is read as before: it is empty, or refused with the same error, or read to
the same tree. -/
theorem build_insertLevel_reads {d : Draft} {table : Table} (hb : d.build = .ok table) {k : Nat}
    (hk : k ≤ table.grammar.height) (associativity : Associativity) :
    ∃ table', (d.insertLevel k associativity).build = .ok table' ∧
      table'.grammar.levels = table.grammar.levels.insertIdx k (.ofList [] associativity) ∧
      table'.grammar.height = table.grammar.height + 1 ∧
      (∀ op, table'.grammar.unaryPriority op
        = (table.grammar.unaryPriority op).map (makeRoom k)) ∧
      table'.lexicon = table.lexicon ∧
      ∀ text, (table'.reading text).answer = (table.reading text).answer := by
  obtain ⟨-, rfl⟩ := build_eq_ok_iff.1 hb
  have hb' := build_insertLevel k associativity hb
  have hrespaces := d.respaces_insertLevel k associativity
  have hlevels := d.levels_insertLevel k associativity
  have hheight : (d.insertLevel k associativity).table.grammar.height
      = d.table.grammar.height + 1 := by
    rw [Grammar.height, hlevels, List.length_insertIdx_of_le_length hk]
    rfl
  refine ⟨_, hb', hlevels, hheight, hrespaces.priority, d.lexicon_insertLevel k associativity, ?_⟩
  intro text
  exact (Table.reading_congr (sound_of_build hb) (orderly_of_build hb) (sound_of_build hb')
    (orderly_of_build hb') hrespaces.sameOperations hrespaces.isChainLine text).symm

theorem build_standard_insertLevel :
    (standard.build = .ok .standard ∧ 0 ≤ Table.standard.grammar.height) ∧
    ∃ table, (standard.insertLevel 0 .right).build = .ok table ∧ table.grammar.height = 4 ∧
      table.grammar.unaryPriority .neg = some 1 ∧
      (table.reading "2 - -3 * x ** 2 - 1").answer
        = (Table.standard.reading "2 - -3 * x ** 2 - 1").answer := by
  have hk : 0 ≤ Table.standard.grammar.height := Nat.zero_le _
  obtain ⟨table, hb, -, hheight, hpriority, -, hreading⟩ :=
    build_insertLevel_reads build_standard hk .right
  refine ⟨⟨build_standard, hk⟩, table, hb, hheight, ?_, hreading _⟩
  rw [hpriority]
  decide

end Draft

end Calculator
