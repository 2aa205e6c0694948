/-
What a session can fail with.

Most failures say what is wrong with a line.  The others say that the program is
wrong, and no line should cause them: that needs every stage to get from the stage
before it what it relies on.  The tokens are well formed, so the numbers of a tree
are numerals and a definition stands at its root only; and the parser asks for no
token behind the end and puts none back that it has not read, so the only errors of
the stream are those of the text.

One internal failure is left.  A unary operation may have a symbol and no priority, and
if a binary operation has the same symbol then lines are cut at it (`Table.Orphan`).
Where an operand should begin the table is then asked for a priority it does not
have.
-/
import Calculator.Proofs.Evaluation.Evaluable
import Calculator.Proofs.Session.Line

namespace Calculator

namespace Failure

/-- The failure says what is wrong with a line. -/
def IsOfLine : Failure → Prop
  | .token e => e.IsLexical
  | .reading e => e.IsGrammatical
  | .value e => e.IsOfLine
  | .table _ | .shape _ => False

/-- A failure of a line is not internal. -/
theorem IsOfLine.isInternal_eq_false {f : Failure} (h : f.IsOfLine) : f.isInternal = false := by
  cases f with
  | token e => cases e <;> first | rfl | exact absurd h id
  | value e => cases e <;> first | rfl | exact absurd h id
  | reading => rfl
  | table | shape => exact absurd h id

end Failure

namespace Table

variable {table : Table}

/-- The symbol writes a unary operation without a priority and a binary operation of some level. -/
def Orphan (table : Table) (symbol : String) : Prop :=
  ∃ (u : UnaryOp) (b : BinaryOp), table.grammar.unarySymbol u = some symbol ∧
    table.grammar.unaryPriority u = none ∧ table.grammar.Places b ∧
    table.grammar.binarySymbol b = some symbol

private theorem priorityOf_of_orphan (ht : table.Sound) {symbol : String}
    (h : table.Orphan symbol) :
    table.grammar.priorityOf symbol = .error (.noUnaryPriority symbol) := by
  obtain ⟨u, -, hsymbol, hpriority, -⟩ := h
  rw [Grammar.priorityOf, Grammar.unaryOp?_eq ht hsymbol]
  simp [hpriority]

/-- **The table has an answer for every symbol of a line** unless the symbol is an orphan. -/
theorem orphan_of_priorityOf (ht : table.Sound) {symbol : String} {e : TableError}
    (hmem : symbol ∈ table.lexicon.symbols) (h : table.grammar.priorityOf symbol = .error e) :
    table.Orphan symbol := by
  unfold Grammar.priorityOf at h
  split at h
  · cases h
  · rename_i u hop
    have hu : table.grammar.unarySymbol u = some symbol := Operation.symbol_of_ofSymbol? hop
    split at h
    · cases h
    · rename_i hpriority
      rcases List.mem_append.1 hmem with hbinary | hunary
      · obtain ⟨b, hplaces, hb⟩ := (ht.mem_binary symbol).1 hbinary
        exact ⟨u, b, hu, hpriority, hplaces, hb⟩
      · -- A line is cut at it for a unary operation, which has to be this one.
        obtain ⟨u', priority, hpriority', hu'⟩ := (ht.mem_unary symbol).1 hunary
        rw [ht.unary_inj hu' hu, hpriority] at hpriority'
        cases hpriority'

theorem standard_not_orphan (symbol : String) : ¬ Table.standard.Orphan symbol := by
  rintro ⟨u, b, -, hpriority, -⟩
  cases u <;> exact absurd hpriority (by decide)

/-! ### Reading -/

/-- A token that a text is cut into, other than the end, stands in front of what closes the line. -/
theorem mem_of_mem_items {ts : List Token} {last : Item} {t : Token}
    (hlast : last = .ok (.bare .stop) ∨ ∃ e, last = .error e ∧ e.IsLexical)
    (h : .ok t ∈ ts.map Except.ok ++ [last]) (ht : t.kind ≠ .stop) : t ∈ ts := by
  rcases List.mem_append.1 h with h | h
  · obtain ⟨t', ht', heq⟩ := List.mem_map.1 h
    cases heq
    exact ht'
  · rw [List.mem_singleton] at h
    rcases hlast with rfl | ⟨e, rfl, -⟩
    · cases h
      exact absurd rfl ht
    · cases h

/-- The only errors that a text is cut into are its own. -/
theorem isLexical_of_mem_items {ts : List Token} {last : Item} {e : TokenError}
    (hlast : last = .ok (.bare .stop) ∨ ∃ e, last = .error e ∧ e.IsLexical)
    (h : .error e ∈ ts.map Except.ok ++ [last]) : e.IsLexical := by
  rcases List.mem_append.1 h with h | h
  · obtain ⟨t, -, heq⟩ := List.mem_map.1 h
    cases heq
  · rw [List.mem_singleton] at h
    rcases hlast with rfl | ⟨e', rfl, he'⟩
    · cases h
    · cases h
      exact he'

/-- A line that cannot be read is refused for what it says. -/
theorem isOfLine_of_reading (ht : table.Sound) (horphan : ∀ symbol, ¬ table.Orphan symbol)
    {text : String} {e : ReadError} (h : (table.reading text).answer = .error e) :
    (Failure.ofReading e).IsOfLine := by
  obtain ⟨ts, last, m, hts, hlast, -, -, hanswer⟩ := exists_reading ht text
  rw [h] at hanswer
  obtain ⟨-, rest, -, hwrong⟩ := hanswer
  rcases Grammar.follow_eq_wrong (hwrong 0) with htoken | htable | hgrammatical
  -- The errors of the stream are those of the text; nothing is asked for behind the end.
  · obtain ⟨e', he', rfl⟩ := htoken
    exact isLexical_of_mem_items hlast he'
  · obtain ⟨t, e', hmem, hkind, hpriority, -⟩ := htable
    have hwf : t.WellFormed table.lexicon :=
      hts t (mem_of_mem_items hlast hmem (by simp [hkind]))
    simp only [Token.WellFormed, hkind] at hwf
    exact absurd (orphan_of_priorityOf ht (Lexicon.isSymbol_iff.1 hwf) hpriority) (horphan t.text)
  · cases e with
    | token | table => exact absurd hgrammatical id
    | noOperand | endsEarly | unclosed | missingName | missingEquals | trailing =>
        exact hgrammatical

/-- A line that is read is one that can be evaluated. -/
theorem executable_of_reading (ht : table.Sound) {text : String} {tree : Tree}
    (h : (table.reading text).answer = .ok (some tree)) : tree.Executable := by
  obtain ⟨ts, last, m, hts, hlast, -, -, hanswer⟩ := exists_reading ht text
  rw [h] at hanswer
  obtain ⟨-, rest, hread, -⟩ := hanswer
  obtain ⟨us, stop, hitems, -, hus, hsentence⟩ := hread.sentence
  refine hsentence.executable (v := table.lexicon) ?_
  intro u hu
  have hmem : .ok u ∈ ts.map Except.ok ++ [last] := by
    rw [hitems]
    exact List.mem_append_left _ (List.mem_map_of_mem hu)
  exact hts u (mem_of_mem_items hlast hmem (hus u hu))

/-- A line that is nothing but an orphan is refused for want of its priority. -/
theorem reading_orphan (ht : table.Sound) {symbol : String} (h : table.Orphan symbol) :
    (table.reading symbol).answer = .error (.table (.noUnaryPriority symbol)) := by
  have hmem : symbol ∈ table.lexicon.symbols := by
    obtain ⟨-, b, -, -, hplaces, hb⟩ := h
    exact List.mem_append_left _ ((ht.mem_binary symbol).2 ⟨b, hplaces, hb⟩)
  have hwf : ∀ t ∈ [Token.mk .symbol symbol], t.WellFormed table.lexicon := by
    intro t htoken
    rw [List.mem_singleton.1 htoken]
    exact Lexicon.isSymbol_iff.2 hmem
  have hwriting : Writing 0 [⟨.symbol, symbol⟩] symbol.toList := by
    have hcons : Writing 0 [⟨.symbol, symbol⟩] ([] ++ symbol.toList ++ []) :=
      .cons 0 (.nil 0) (by simp)
    simpa using hcons
  obtain ⟨m, hanswer⟩ := answers_of_writing ht hwriting hwf
  have hwrong : table.grammar.follow .line (lineItems [⟨.symbol, symbol⟩] (.bare .stop))
      = .wrong (.table (.noUnaryPriority symbol)) [.ok (.bare .stop)] :=
    Grammar.follow_wrong (by
      simp [Grammar.advance, Grammar.advanceOperand, priorityOf_of_orphan ht h, Except.map])
  -- The line is not read, since what is read can be followed; so this is why it is refused.
  cases hreading : (table.reading symbol).answer with
  | error e =>
      rw [hreading] at hanswer
      obtain ⟨-, rest, -, he⟩ := hanswer
      rw [he 0] at hwrong
      cases hwrong
      rfl
  | ok tree? =>
      rw [hreading] at hanswer
      obtain ⟨-, rest, hread, -⟩ := hanswer
      rw [hread.follow] at hwrong
      cases hwrong

end Table

namespace Session

variable {s : Session} {table : Table}

/-- A tree that was read fails for what its line says. -/
theorem isOfLine_execute {tree : Tree} (htree : tree.Executable) {f : Failure}
    (h : (s.execute tree).answer = .error f) : f.IsOfLine := by
  have hanswer : (s.execute tree).answer = (s.env.execute tree).answer.mapError .ofValue := rfl
  cases hexecute : (s.env.execute tree).answer with
  | ok value? =>
      rw [hanswer, hexecute] at h
      cases h
  | error e =>
      have he : e.IsOfLine := htree.isOfLine hexecute
      rw [hanswer, hexecute] at h
      cases h
      cases e with
      | unbound | arithmetic => trivial
      | notEvaluable | notDigits | shape => exact absurd he id

/-- **A line fails for what it says** in a session whose table has no orphan. -/
theorem Uses.isOfLine_run (hs : s.Uses table) (ht : table.Sound)
    (horphan : ∀ symbol, ¬ table.Orphan symbol) {text : String} {f : Failure}
    (h : (s.run text).answer = .error f) : f.IsOfLine := by
  rw [Session.run, hs.read_eq] at h
  cases hreading : (table.reading text).answer with
  | error e =>
      simp only [hreading] at h
      cases h
      exact Table.isOfLine_of_reading ht horphan hreading
  | ok tree? =>
      simp only [hreading] at h
      cases tree? with
      | none => cases h
      | some tree => exact isOfLine_execute (Table.executable_of_reading ht hreading) h

/-- **What lines can make a session fail with.**  Without an orphan in the table, no line fails
internally, whatever the bindings and the lines before it; with one, the line that is nothing but
the orphan fails internally, and always in the same way.  The standard table has none. -/
theorem failures_of_lines {d : Draft} {table : Table} (hb : d.build = .ok table) :
    ((∀ symbol, ¬ table.Orphan symbol) →
      ∀ (env : Environment) (lines : List String) (text : String) (f : Failure),
        (((new table env).after lines).run text).answer = .error f →
          f.IsOfLine ∧ f.isInternal = false) ∧
    (∀ symbol, table.Orphan symbol → ∀ (env : Environment) (lines : List String),
      (((new table env).after lines).run symbol).answer
          = .error (.table (.noUnaryPriority symbol)) ∧
        Failure.isInternal (.table (.noUnaryPriority symbol)) = true) ∧
    ∀ symbol, ¬ Table.standard.Orphan symbol := by
  have ht : table.Sound := Draft.sound_of_build hb
  have huses : ∀ env lines, ((new table env).after lines).Uses table :=
    fun env lines => (uses_new table env).after ht lines
  refine ⟨?_, ?_, Table.standard_not_orphan⟩
  · intro horphan env lines text f h
    have hline : f.IsOfLine := (huses env lines).isOfLine_run ht horphan h
    exact ⟨hline, hline.isInternal_eq_false⟩
  · intro symbol horphan env lines
    refine ⟨?_, rfl⟩
    rw [run, (huses env lines).read_eq]
    simp only [Table.reading_orphan ht horphan]
    rfl

/-- Subtraction in a level of its own, and negation with its symbol and no group. -/
def groupless : Draft :=
  Draft.empty.registerAll
    [.level [.sub] .left, .binarySymbol .sub "-", .unarySymbol .neg "-"]

theorem failures_of_groupless :
    (groupless.build = .ok groupless.table ∧ groupless.table.Orphan "-" ∧
      (((new groupless.table .empty).after ["let x = 2-1", "x-"]).run "-").answer
          = .error (.table (.noUnaryPriority "-")) ∧
        Failure.isInternal (.table (.noUnaryPriority "-")) = true) ∧
    ∃ f, (((new .standard .empty).after ["let x = 0", "(x"]).run "1/x").answer = .error f ∧
      f.IsOfLine ∧ f.isInternal = false := by
  have hb : groupless.build = .ok groupless.table :=
    Draft.build_eq_ok_iff.2 ⟨by decide +kernel, rfl⟩
  have horphan : groupless.table.Orphan "-" :=
    ⟨.neg, .sub, by decide, by decide, ⟨0, Level.ofList [.sub] .left, rfl, by decide⟩, by decide⟩
  refine ⟨⟨hb, horphan, ?_⟩, ?_⟩
  · exact (failures_of_lines hb).2.1 "-" horphan .empty ["let x = 2-1", "x-"]
  · have hfails : (((new .standard .empty).after ["let x = 0", "(x"]).run "1/x").answer.toOption
        = none := by
      decide +kernel
    obtain ⟨hlines, -, hstandard⟩ := failures_of_lines Draft.build_standard
    cases hanswer : (((new .standard .empty).after ["let x = 0", "(x"]).run "1/x").answer with
    | ok value? =>
        rw [hanswer] at hfails
        cases hfails
    | error f => exact ⟨f, rfl, hlines hstandard .empty ["let x = 0", "(x"] "1/x" f hanswer⟩

end Session

end Calculator
