/-
Every variable can be read by its name.

What a name is, is decided in two places.  The command line tests the name of a binding
letter by letter, and a scanner finds out what a text begins with, how far that goes
and whether it is the keyword.  The two agree: a binding passes with a name exactly if
a scanner cuts the name into one token, a name with this text (`takesName_iff`,
`readAll_eq_name_iff`).

So the bindings that a session begins with are such names.  A line can only add the name
of a definition, which was a token too, and so every name that is bound stays one that
a line can hold (`Environment.Readable`), whatever has been run.
-/
import Calculator.CommandLine.Binding
import Calculator.Proofs.Session.Names
import Calculator.Proofs.Session.Numeral

namespace Calculator

/-! ### The name of a binding -/

namespace CommandLine

/-- Nothing is wrong with the name of the binding: it is read with this name, or it is only its
value that is no integer. -/
def TakesName (text name : String) : Prop :=
  (∃ value, readBinding text = .ok (name, value)) ∨
    ∃ digits, readBinding text = .error (.notInteger digits)

/-- A text is cut where no equals sign stands before. -/
theorem cutAtEquals_append {before behind : List Char} (h : '=' ∉ before) :
    cutAtEquals (before ++ '=' :: behind) = some (before, behind) := by
  induction before with
  | nil => simp [cutAtEquals]
  | cons c r ih =>
      obtain ⟨hc, hr⟩ : '=' ≠ c ∧ '=' ∉ r := by simpa using h
      rw [List.cons_append, cutAtEquals, if_neg (Ne.symm hc), ih hr]
      rfl

/-- **A binding passes with the name in front of its first equals sign** if that is one. -/
theorem takesName_iff {text : String} {before behind : List Char}
    (htext : text.toList = before ++ '=' :: behind) (h : '=' ∉ before) :
    TakesName text (String.ofList (Text.trim before)) ↔ isName (Text.trim before) = true := by
  have hcut : cutAtEquals text.toList = some (before, behind) := htext ▸ cutAtEquals_append h
  by_cases hname : isName (Text.trim before) = true
  · refine iff_of_true ?_ hname
    simp only [TakesName, readBinding, hcut, hname, if_true]
    cases Decimal.parse? (Text.trim behind) with
    | some value => exact Or.inl ⟨value, rfl⟩
    | none => exact Or.inr ⟨_, rfl⟩
  · refine iff_of_false ?_ hname
    simp [TakesName, readBinding, hcut, hname]

/-- The test of the command line says what a name in a line is. -/
theorem isName_iff {cs : List Char} :
    isName cs = true ↔
      Token.isIdentifier (String.ofList cs) = true ∧ String.ofList cs ≠ keyword := by
  have hkeyword : String.ofList cs ≠ keyword ↔ cs ≠ keyword.toList := by
    rw [Ne, ← String.toList_inj, String.toList_ofList]
  rw [hkeyword, Token.isIdentifier, String.toList_ofList]
  cases cs with
  | nil => simp [isName]
  | cons c r => simp [isName]

/-- A name that is read off a binding is one that a line can hold. -/
theorem isIdentifier_of_readBinding {arg : String} {b : String × Int}
    (h : readBinding arg = .ok b) : Token.isIdentifier b.1 = true ∧ b.1 ≠ keyword := by
  unfold readBinding at h
  split at h
  · cases h
  · simp only at h
    split at h
    · rename_i hname
      split at h
      · cases h
        exact isName_iff.1 hname
      · cases h
    · cases h

end CommandLine

/-! ### A name by itself -/

/-- **A scanner cuts a text into one name exactly if a line can hold a name with this text.** -/
theorem Scanner.readAll_eq_name_iff {s : Scanner}
    (hv : ∀ x ∈ s.lexicon.symbols, isLexable x = true) {name : String} :
    ((TokenStream.readAll (s.reset name)).error? = none ∧
        (TokenStream.readAll (s.reset name)).tokens = [⟨.name, name⟩, .bare .stop]) ↔
      Token.isIdentifier name = true ∧ name ≠ keyword := by
  constructor
  · rintro ⟨herror, htokens⟩
    obtain ⟨ts, last, m, hm, hts, hlast⟩ := exists_delivery (s := s.reset name) hv rfl
    have hstops : ∀ t ∈ ts, t.kind ≠ .stop := fun t ht => (hts t ht).kind_ne_stop
    rcases hlast with ⟨rfl, -⟩ | ⟨e, rfl, -⟩
    · rw [readAll_of_delivers_stop hstops rfl hm] at htokens
      have hmem : (⟨.name, name⟩ : Token) ∈ ts := by
        obtain rfl : ts = [⟨.name, name⟩] := List.append_cancel_right htokens
        exact List.mem_singleton_self _
      exact hts _ hmem
    · rw [readAll_of_delivers_error hstops hm] at herror
      cases herror
  · intro hname
    have hwf : ∀ t ∈ [Token.mk .name name], t.WellFormed (s.reset name).lexicon :=
      List.forall_mem_singleton.2 hname
    have hwriting : Writing 0 [⟨.name, name⟩] (s.reset name).rest := by
      simpa [Token.lexeme, reset] using Writing.cons 0 (.nil 0) (t := ⟨.name, name⟩) (by simp)
    obtain ⟨m, hm⟩ := delivers_of_writing (s := s.reset name) hv rfl hwriting hwf
    have hstops : ∀ t ∈ [Token.mk .name name], t.kind ≠ .stop :=
      fun t ht => (hwf t ht).kind_ne_stop
    rw [readAll_of_delivers_stop hstops rfl hm]
    exact ⟨rfl, rfl⟩

namespace Table

variable {table : Table}

/-- A name by itself is read as a variable. -/
theorem reading_name (hs : table.Sound) (ho : table.grammar.Orderly) {name : String}
    (hname : Token.isIdentifier name = true ∧ name ≠ keyword) :
    (table.reading name).answer = .ok (some (.var name)) := by
  have hwrites : table.Writes [⟨.name, name⟩] name := by
    refine ⟨List.forall_mem_singleton.2 hname, 0, ?_⟩
    simpa [Token.lexeme] using Writing.cons 0 (.nil 0) (t := ⟨.name, name⟩) (by simp)
  have hchain : table.grammar.IsChain [⟨.name, name⟩] (.bare .stop) (.var name) :=
    (Grammar.Cuts.name (t := ⟨.name, name⟩) rfl).isChain
  exact (reading_eq_ok_iff hs ho).2 ⟨_, hwrites, .expression hchain⟩

/-- The tokens that a text is cut into are ones that a line can hold, the end apart. -/
theorem wellFormed_of_mem_tokens (ht : table.Sound) {text : String} {t : Token}
    (h : t ∈ table.tokens text) (hstop : t.kind ≠ .stop) : t.WellFormed table.lexicon := by
  obtain ⟨ts, last, m, hd, -, hts, hlast⟩ := exists_delivery ht text
  have hstops : ∀ t ∈ ts, t.kind ≠ .stop := fun t ht => (hts t ht).kind_ne_stop
  rcases hlast with ⟨rfl, -⟩ | ⟨e, rfl, -⟩
  · rw [tokens, readAll_of_delivers_stop hstops rfl hd] at h
    rcases List.mem_append.1 h with hmem | hend
    · exact hts t hmem
    · rw [List.mem_singleton.1 hend] at hstop
      exact absurd rfl hstop
  · rw [tokens, readAll_of_delivers_error hstops hd] at h
    exact hts t h

end Table

/-! ### Names that are bound -/

/-- Every name that is bound is one that a line can hold. -/
def Environment.Readable (env : Environment) : Prop :=
  ∀ x v, env.lookup x = some v → Token.isIdentifier x = true ∧ x ≠ keyword

namespace Environment.Readable

theorem set {env : Environment} (h : env.Readable) {name : String}
    (hname : Token.isIdentifier name = true ∧ name ≠ keyword) (value : Int) :
    (env.set name value).Readable := by
  intro x v hx
  rw [lookup_set] at hx
  split at hx
  · rename_i heq
    exact heq ▸ hname
  · exact h x v hx

/-- Bindings of such names make such an environment. -/
theorem ofList {bindings : List (String × Int)}
    (h : ∀ b ∈ bindings, Token.isIdentifier b.1 = true ∧ b.1 ≠ keyword) :
    (Environment.ofList bindings).Readable := by
  have hfold : ∀ env : Environment, env.Readable →
      (bindings.foldl (fun env b => env.set b.1 b.2) env).Readable := by
    induction bindings with
    | nil => exact fun env henv => henv
    | cons b rest ih =>
        obtain ⟨hb, hrest⟩ := List.forall_mem_cons.1 h
        exact fun env henv => ih hrest _ (henv.set hb b.2)
  refine hfold .empty ?_
  intro x v hx
  cases hx

end Environment.Readable

namespace Session

variable {s : Session} {table : Table}

/-- A line that defines a name has it as a token. -/
theorem Uses.isIdentifier_of_declares (hs : s.Uses table) (ht : table.Sound) {text x : String}
    (h : s.Declares text x) : Token.isIdentifier x = true ∧ x ≠ keyword := by
  obtain ⟨⟨value, hread⟩, -⟩ := h
  have htoken : ⟨.name, x⟩ ∈ table.tokens text :=
    Table.mem_tokens_of_mem_nodes ht (hs.read_eq_ok_iff.1 hread) (by simp [Tree.nodes])
  exact Table.wellFormed_of_mem_tokens ht htoken (by simp)

/-- **A line leaves every bound name readable.** -/
theorem Uses.readable_run (hs : s.Uses table) (ht : table.Sound) (henv : s.env.Readable)
    (text : String) : (s.run text).session.env.Readable := by
  have hbind : (s.run text).session.env = s.env.bind (s.entry (.run text)).binding? :=
    s.env_serve (.run text)
  rw [hbind]
  cases hfound : (s.entry (.run text)).binding? with
  | none => exact henv
  | some b => exact henv.set (hs.isIdentifier_of_declares ht (declares_iff.2 ⟨b.2, hfound⟩)) b.2

/-- So do lines, one after the other. -/
theorem Uses.readable_after (hs : s.Uses table) (ht : table.Sound) (henv : s.env.Readable)
    (lines : List String) : (s.after lines).env.Readable := by
  induction lines generalizing s with
  | nil => exact henv
  | cons text rest ih => exact ih (hs.run ht text) (hs.readable_run ht henv text)

/-- **Every bound variable can be read by its name.**  The command line and the scanner agree on
names: a binding passes with the text in front of its first equals sign, without the blanks around
it, exactly if a scanner cuts this text into one name and the end.  So in a session that begins with
bindings from the command line, whatever lines it has run, the name of each variable is a line that
has the variable's value. -/
theorem bound_variables_are_read {d : Draft} {table : Table} (hb : d.build = .ok table) :
    (∀ (text name : String) (before behind : List Char),
      text.toList = before ++ '=' :: behind → '=' ∉ before →
        name = String.ofList (Text.trim before) → ∀ s : Scanner, s.lexicon = table.lexicon →
          (CommandLine.TakesName text name ↔
            (TokenStream.readAll (s.reset name)).error? = none ∧
              (TokenStream.readAll (s.reset name)).tokens = [⟨.name, name⟩, .bare .stop])) ∧
    ∀ bindings : List (String × Int),
      (∀ b ∈ bindings, ∃ arg, CommandLine.readBinding arg = .ok b) →
        ∀ (lines : List String) (x : String) (v : Int),
          ((new table (.ofList bindings)).after lines).env.lookup x = some v →
            (((new table (.ofList bindings)).after lines).run x).answer = .ok (some v) := by
  have ht : table.Sound := Draft.sound_of_build hb
  constructor
  · rintro text name before behind htext hno rfl s hlexicon
    have hv : ∀ x ∈ s.lexicon.symbols, isLexable x = true := hlexicon ▸ ht.lexable
    rw [CommandLine.takesName_iff htext hno, CommandLine.isName_iff,
      Scanner.readAll_eq_name_iff hv]
  · intro bindings hbindings lines x v hx
    have hs : (new table (.ofList bindings)).Uses table := uses_new table _
    have hnames : (Environment.ofList bindings).Readable := by
      refine .ofList fun b hmem => ?_
      obtain ⟨arg, harg⟩ := hbindings b hmem
      exact CommandLine.isIdentifier_of_readBinding harg
    have hname := hs.readable_after ht hnames lines x v hx
    have hread := Table.reading_name ht (Draft.orderly_of_build hb) hname
    refine ((hs.after ht lines).run_eq_value hread (by simp [Tree.IsExpression]) ?_).1
    rw [Tree.evaluate, Environment.value, hx]

/-- Bindings of the command line, two of them of one name. -/
def rebound : List (String × Int) :=
  [("letter", 2), ("x1", -3), ("letter", 4)]

/-- Two definitions, with a line between them that breaks off. -/
def redefinitions : List String :=
  ["let y = letter ** 2", "let x1 = (", "let x1 = y"]

theorem bound_variables_are_read_rebound :
    (Draft.standard.build = .ok .standard ∧
      (∀ b ∈ rebound, ∃ arg, CommandLine.readBinding arg = .ok b) ∧
      ((new .standard (.ofList rebound)).after redefinitions).env.lookup "x1" = some 16) ∧
      ¬ CommandLine.TakesName " let =1" "let" ∧
      (((new .standard (.ofList rebound)).after redefinitions).run "x1").answer
        = .ok (some 16) := by
  have hb : Draft.standard.build = .ok .standard := Draft.build_standard
  have hbindings : ∀ b ∈ rebound, ∃ arg, CommandLine.readBinding arg = .ok b := by
    simp only [rebound, List.forall_mem_cons]
    exact ⟨⟨"letter=2", rfl⟩, ⟨" x1 = -3", rfl⟩, ⟨"letter =+4", rfl⟩, by simp⟩
  have hbound : ((new .standard (.ofList rebound)).after redefinitions).env.lookup "x1"
      = some 16 := by
    decide +kernel
  obtain ⟨hagree, hread⟩ := bound_variables_are_read hb
  have hkeyword : ¬ CommandLine.TakesName " let =1" "let" := by
    have hcut : " let =1".toList = " let ".toList ++ '=' :: "1".toList := by decide
    rw [hagree " let =1" "let" " let ".toList "1".toList hcut (by decide) (by decide)
      (.new Table.standard.lexicon) rfl]
    decide +kernel
  exact ⟨⟨hb, hbindings, hbound⟩, hkeyword, hread rebound hbindings redefinitions "x1" 16 hbound⟩

end Session

end Calculator
