/-
Every tree can be written, and is read back.

A tree is written with brackets around every operand.  Then no level, no grouping and
no priority has a say in how it is read, whatever the table: each chain has one
operator at most, and each operand ends at its own bracket.  All that is asked of the
tree is that the table has a place for its operations and that its leaves are what a
line can hold.

The text is compared with the tokens it is meant to be.  It is a writing of them
whatever the tree (`writing_tokens`), so the scanner finds them, and by induction on
the tree their chain has the tree again (`isChain_tokens`).
-/
import Calculator.Proofs.Session.Reading

namespace Calculator

namespace Grammar

/-! ### Writing trees -/

/-- The text of a tree, every operand of an operation in brackets. -/
def write (g : Grammar) : Tree → String
  | .number digits => digits
  | .var name => name
  | .unary op operand => (g.unarySymbol op).getD "" ++ "(" ++ g.write operand ++ ")"
  | .binary op left right =>
    "(" ++ g.write left ++ ")" ++ (g.binarySymbol op).getD "" ++ "(" ++ g.write right ++ ")"
  | .define name value => "let " ++ name ++ " =" ++ g.write value

/-- The tokens of that text. -/
def tokens (g : Grammar) : Tree → List Token
  | .number digits => [⟨.number, digits⟩]
  | .var name => [⟨.name, name⟩]
  | .unary op operand =>
    ⟨.symbol, (g.unarySymbol op).getD ""⟩ :: Token.bracketed (g.tokens operand)
  | .binary op left right =>
    Token.bracketed (g.tokens left) ++
      ⟨.symbol, (g.binarySymbol op).getD ""⟩ :: Token.bracketed (g.tokens right)
  | .define name value =>
    ⟨.keyword, keyword⟩ :: ⟨.name, name⟩ :: .bare .equals :: g.tokens value

/-- The expression has a text: its numbers are digits, its variables are names, and each of its
operations stands somewhere. -/
def CanWrite (g : Grammar) : Tree → Prop
  | .number digits => Decimal.isNumeral digits = true
  | .var name => Token.isIdentifier name = true ∧ name ≠ keyword
  | .unary op operand => (∃ priority, g.unaryPriority op = some priority) ∧ g.CanWrite operand
  | .binary op left right => g.Places op ∧ g.CanWrite left ∧ g.CanWrite right
  | .define _ _ => False

/-- The tree of a line has a text: it is an expression that has one, or it defines a name by one. -/
def CanWriteLine (g : Grammar) : Tree → Prop
  | .define name value => (Token.isIdentifier name = true ∧ name ≠ keyword) ∧ g.CanWrite value
  | tree => g.CanWrite tree

/-! ### The text and its tokens -/

/-- A symbol is written directly in front of a bracket. -/
theorem writing_applied (symbol : String) {ts : List Token} {cs : List Char} (h : Writing 0 ts cs) :
    Writing 0 (⟨.symbol, symbol⟩ :: Token.bracketed ts)
      (symbol.toList ++ '(' :: (cs ++ [')'])) := by
  have hbracketed : Writing 0 (Token.bracketed ts ++ []) ('(' :: (cs ++ [')'])) :=
    h.bracketed 0 (.nil 0)
  have hwhole := Writing.cons_before_mark 0 (t := ⟨.symbol, symbol⟩)
    Token.isMark_of_mem_head?_bracketed hbracketed
  simpa [Token.lexeme] using hwhole

/-- **The text of a tree is a writing of its tokens**, whatever the tree. -/
theorem writing_tokens (g : Grammar) (tree : Tree) :
    Writing 0 (g.tokens tree) (g.write tree).toList := by
  have hleaf : ∀ t : Token, Writing 0 [t] t.lexeme := by
    intro t
    simpa using Writing.cons 0 (.nil 0) (t := t) (by simp)
  induction tree with
  | number digits => exact hleaf ⟨.number, digits⟩
  | var name => exact hleaf ⟨.name, name⟩
  | unary op operand ih =>
      simpa [write, tokens] using writing_applied ((g.unarySymbol op).getD "") ih
  | binary op left right ihleft ihright =>
      have hright := writing_applied ((g.binarySymbol op).getD "") ihright
      simpa [write, tokens] using ihleft.bracketed 0 hright
  | define name value ih =>
      simpa [write, tokens] using ih.definition name

/-- The tokens of a tree that has a text are ones that a line can hold. -/
theorem wellFormed_tokens {table : Table} (hs : table.Sound) (ho : table.grammar.Orderly)
    {tree : Tree} (h : table.grammar.CanWrite tree) :
    ∀ t ∈ table.grammar.tokens tree, t.WellFormed table.lexicon := by
  induction tree with
  | number digits => exact List.forall_mem_singleton.2 h
  | var name => exact List.forall_mem_singleton.2 h
  | unary op operand ih =>
      obtain ⟨⟨priority, hpriority⟩, hoperand⟩ := h
      obtain ⟨s, hsymbol⟩ := ho.unary_written hpriority
      have hmem : s ∈ table.lexicon.unary := (hs.mem_unary s).2 ⟨op, priority, hpriority, hsymbol⟩
      refine List.forall_mem_cons.2 ⟨?_, Token.wellFormed_bracketed (ih hoperand)⟩
      simp [Token.WellFormed, hsymbol, Lexicon.isSymbol_iff, Lexicon.symbols, hmem]
  | binary op left right ihleft ihright =>
      obtain ⟨hplaces, hleft, hright⟩ := h
      obtain ⟨s, hsymbol⟩ := ho.binary_written hplaces
      have hmem : s ∈ table.lexicon.binary := (hs.mem_binary s).2 ⟨op, hplaces, hsymbol⟩
      refine List.forall_mem_append.2 ⟨Token.wellFormed_bracketed (ihleft hleft),
        List.forall_mem_cons.2 ⟨?_, Token.wellFormed_bracketed (ihright hright)⟩⟩
      simp [Token.WellFormed, hsymbol, Lexicon.isSymbol_iff, Lexicon.symbols, hmem]
  | define name value => exact absurd h id

/-- **The tokens of an expression are a chain that has its tree again.** -/
theorem isChain_tokens {g : Grammar} (ho : g.Orderly) {tree : Tree} (h : g.CanWrite tree)
    {stop : Token} (hstop : stop.kind = .stop) : g.IsChain (g.tokens tree) stop tree := by
  induction tree with
  | number digits =>
      exact Cuts.isChain (Cuts.number (t := ⟨.number, digits⟩) rfl)
  | var name =>
      exact Cuts.isChain (Cuts.name (t := ⟨.name, name⟩) rfl)
  | unary op operand ih =>
      obtain ⟨⟨priority, hpriority⟩, hoperand⟩ := h
      obtain ⟨s, hsymbol⟩ := ho.unary_written hpriority
      have hsign : g.IsSignOf op priority ⟨.symbol, (g.unarySymbol op).getD ""⟩ :=
        ⟨rfl, by simp [hsymbol], hpriority⟩
      have hend : g.EndsAt (priority + 1) [stop] := endsAt_cons (by simp [hstop]) _
      have hbracket := (ih hoperand).bracketed [stop]
      exact Cuts.isChain (.sign hsign hbracket (.noLink [stop]) (by simp) hend (.one operand))
  | binary op left right ihleft ihright =>
      obtain ⟨⟨level, l, hlevel, hhas⟩, hleft, hright⟩ := h
      obtain ⟨s, hsymbol⟩ := ho.binary_written ⟨level, l, hlevel, hhas⟩
      have hoperator : g.IsOperatorOf level op ⟨.symbol, (g.binarySymbol op).getD ""⟩ :=
        ⟨rfl, by simp [hsymbol], l, hlevel, hhas⟩
      have hlinks := Cuts.link hoperator ((ihright hright).bracketed [stop]) (.noLink [stop])
      refine ⟨left, [⟨op, level, right⟩], _, ?_, hlinks, .single g left ⟨op, level, right⟩⟩
      simpa [tokens] using (ihleft hleft).bracketed _
  | define name value => exact absurd h id

/-- The tokens of a line are its chain. -/
theorem isChainLine_tokens {g : Grammar} (ho : g.Orderly) {tree : Tree} (h : g.CanWriteLine tree)
    {stop : Token} (hstop : stop.kind = .stop) : g.IsChainLine (g.tokens tree) stop tree := by
  cases tree with
  | define name value =>
      exact IsChainLine.definition (x := ⟨.name, name⟩) rfl rfl rfl (isChain_tokens ho h.2 hstop)
  | number | var | unary | binary => exact .expression (isChain_tokens ho h hstop)

end Grammar

namespace Table

/-- The text of a line is a writing of its tokens. -/
theorem writes_tokens {table : Table} (hs : table.Sound) (ho : table.grammar.Orderly) {tree : Tree}
    (h : table.grammar.CanWriteLine tree) :
    table.Writes (table.grammar.tokens tree) (table.grammar.write tree) := by
  have hexpression : ∀ {tree : Tree}, table.grammar.CanWrite tree →
      table.Writes (table.grammar.tokens tree) (table.grammar.write tree) := fun htree =>
    ⟨Grammar.wellFormed_tokens hs ho htree, 0, table.grammar.writing_tokens _⟩
  cases tree with
  | define name value => exact (hexpression h.2).definition h.1
  | number | var | unary | binary => exact hexpression h

/-- **Every tree can be written and is read back.**  The text of a tree whose leaves a line can hold
and whose operations the table has a place for is read to exactly this tree. -/
theorem reading_write {d : Draft} {table : Table} (hb : d.build = .ok table) {tree : Tree}
    (h : table.grammar.CanWriteLine tree) :
    (table.reading (table.grammar.write tree)).answer = .ok (some tree) := by
  have hs : table.Sound := Draft.sound_of_build hb
  have ho : table.grammar.Orderly := Draft.orderly_of_build hb
  exact (reading_eq_ok_iff hs ho).2
    ⟨_, writes_tokens hs ho h, Grammar.isChainLine_tokens ho h rfl⟩

/-- A table with one symbol, not an ASCII one, for a difference and a sign.  Differences group from
the right, and the priority of the sign lies beyond the levels. -/
def arrowDraft : Draft :=
  Draft.empty.registerAll
    [.group [.pos], .group [], .group [], .group [.neg],
     .level [.sub] .right, .level [.pow, .mul] .left,
     .unarySymbol .neg "→", .unarySymbol .pos "→→",
     .binarySymbol .sub "→", .binarySymbol .pow "→×", .binarySymbol .mul "×"]

/-- A definition in which both meanings of the symbol occur. -/
def arrowTree : Tree :=
  .define "y1" (.binary .sub (.unary .neg (.number "007"))
    (.binary .pow (.unary .pos (.unary .neg (.var "letter"))) (.var "y1")))

theorem reading_arrowTree :
    (arrowDraft.build = .ok arrowDraft.table ∧ arrowDraft.table.grammar.CanWriteLine arrowTree) ∧
      arrowDraft.table.grammar.write arrowTree
        = "let y1 =(→(007))→((→→(→(letter)))→×(y1))" ∧
      (arrowDraft.table.reading (arrowDraft.table.grammar.write arrowTree)).answer
        = .ok (some arrowTree) := by
  have hb : arrowDraft.build = .ok arrowDraft.table :=
    Draft.build_eq_ok_iff.2 ⟨by decide +kernel, rfl⟩
  have hsub : arrowDraft.table.grammar.Places .sub := Draft.placed_binary_iff.1 (by decide)
  have hpow : arrowDraft.table.grammar.Places .pow := Draft.placed_binary_iff.1 (by decide)
  have hdigits : Decimal.isNumeral "007" = true := by decide
  have hneg : ∃ priority, arrowDraft.table.grammar.unaryPriority .neg = some priority :=
    ⟨3, by decide⟩
  have hpos : ∃ priority, arrowDraft.table.grammar.unaryPriority .pos = some priority :=
    ⟨0, by decide⟩
  have h : arrowDraft.table.grammar.CanWriteLine arrowTree :=
    ⟨by decide, hsub, ⟨hneg, hdigits⟩, hpow, ⟨hpos, hneg, by decide, by decide⟩, by decide,
      by decide⟩
  exact ⟨⟨hb, h⟩, by decide +kernel, reading_write hb h⟩

end Table

end Calculator
