/-
A line in brackets stands for its tree.

A line that is read to an expression may be put in brackets and into another line, in the
place of a name, however deep the name stands there and whatever operators wait
around it.  What the other line is read to changes in these places and nowhere else
(`reading_nested`).  The other line may be a definition too; the name that it declares
is no operand, so it stays.

For expressions this is `reading_replaceName`.  A definition opens with two tokens that
are kept as they are written, and behind them stands an expression again, so all that is
left to do is to cut these two off the text (`cut?`).
-/
import Calculator.Proofs.Session.Substitution

namespace Calculator

/-! ### Cutting tokens off a text -/

namespace Lexicon

/-- The first token of some characters, the characters up to its end, and those behind it. -/
def cut? (v : Lexicon) (cs : List Char) : Option (Token × List Char × List Char) :=
  match scan v (skipSpaces cs) with
  | .error _ => none
  | .ok (t, after) => some (t, cs.takeWhile (fun c => decide (c = ' ')) ++ t.lexeme, after)

/-- The characters with others in the place of every token that is the name, but for the one that a
definition declares. -/
def replaceOperandsIn (v : Lexicon) (name : String) (new cs : List Char) : List Char :=
  match v.cut? cs with
  | none => cs
  | some (first, opening, after) =>
    if first.kind = .keyword then
      match v.cut? after with
      | none => cs
      | some (_, declared, behind) => opening ++ (declared ++ v.replaceIn name new behind)
    else v.replaceIn name new cs

/-- The text with another in the place of every token that is the name, but for the one that a
definition declares. -/
def replaceOperands (v : Lexicon) (name new text : String) : String :=
  String.ofList (v.replaceOperandsIn name new.toList text.toList)

end Lexicon

section Lexable

variable {v : Lexicon} (hv : ∀ s ∈ v.symbols, isLexable s = true) {gap : Nat} {ts : List Token}
  {t : Token} {cs : List Char}

include hv

/-- **The first token of a writing is cut off it**, and a writing of the others is left. -/
theorem Writing.exists_cut?_eq (h : Writing gap (t :: ts) cs)
    (hts : ∀ u ∈ t :: ts, u.WellFormed v) :
    ∃ after rest, v.cut? cs = some (t, List.replicate gap ' ' ++ t.lexeme, rest) ∧
      Writing after ts rest ∧ ∀ u ∈ ts.head?, t.RunsInto u → 0 < after := by
  obtain ⟨ht, hts⟩ := List.forall_mem_cons.1 hts
  cases h with
  | @cons _ after _ _ rest h hgap =>
      have hskip : skipSpaces (t.lexeme ++ rest) = t.lexeme ++ rest :=
        skipSpaces_lexeme_append hv ht rest
      have hscan : scan v (t.lexeme ++ rest) = .ok (t, rest) :=
        Token.scan_complete hv ht ((endsBefore_iff hv hts h).2 hgap)
      refine ⟨after, rest, ?_, h, hgap⟩
      rw [List.append_assoc, Lexicon.cut?, skipSpaces_replicate_append, hskip, hscan,
        Lexicon.takeWhile_spaces gap hskip]

/-- In a line that opens with no keyword every name is replaced. -/
theorem Writing.replaceOperandsIn_of_kind_ne (h : Writing gap (t :: ts) cs)
    (hts : ∀ u ∈ t :: ts, u.WellFormed v) (ht : t.kind ≠ .keyword) (name : String)
    (new : List Char) : v.replaceOperandsIn name new cs = v.replaceIn name new cs := by
  obtain ⟨_, _, hcut, -⟩ := h.exists_cut?_eq hv hts
  rw [Lexicon.replaceOperandsIn, hcut]
  exact if_neg ht

/-- **Behind a keyword and a name the names are replaced**, and these two stay. -/
theorem Writing.replaceOperandsIn_definition {name : String} {new : List Token} {inner : Nat}
    {ds : List Char} {k x : Token} (hnew : Writing inner new ds)
    (h : Writing gap (k :: x :: ts) cs) (hts : ∀ u ∈ k :: x :: ts, u.WellFormed v)
    (hk : k.kind = .keyword) :
    Writing gap (k :: x :: replaceTokens name new ts)
      (v.replaceOperandsIn name ('(' :: (ds ++ [')'])) cs) := by
  obtain ⟨after, rest, hcut, hrest, hgap⟩ := h.exists_cut?_eq hv hts
  obtain ⟨-, hts⟩ := List.forall_mem_cons.1 hts
  obtain ⟨after', behind, hcut', hbehind, hgap'⟩ := hrest.exists_cut?_eq hv hts
  obtain ⟨-, hts⟩ := List.forall_mem_cons.1 hts
  have hreplaced : Writing after' (replaceTokens name new ts)
      (v.replaceIn name ('(' :: (ds ++ [')'])) behind) := hnew.replaceIn hv hbehind hts
  rw [Lexicon.replaceOperandsIn, hcut]
  simp only [if_pos hk, hcut']
  refine .cons gap (.cons after hreplaced ?_) (by simpa using hgap)
  intro u hu hruns
  rcases mem_head?_replaceTokens hu with hu | hmark
  · exact hgap' u hu hruns
  · exact absurd hruns (hmark.not_runsInto_self x)

end Lexable

/-- The text in so many brackets. -/
def inBrackets : Nat → String → String
  | 0, text => text
  | n + 1, text => "(" ++ inBrackets n text ++ ")"

namespace Table

variable {table : Table} {text first second : String} {value tree : Tree} {us ts : List Token}
  {name : String}

/-! ### Brackets around a line -/

/-- A text in brackets is written with its tokens in brackets. -/
theorem Writes.bracketed (h : table.Writes ts text) :
    table.Writes (Token.bracketed ts) ("(" ++ text ++ ")") := by
  obtain ⟨gap, hwriting⟩ := h.writing
  refine ⟨Token.wellFormed_bracketed h.wellFormed, 0, ?_⟩
  simpa using hwriting.bracketed 0 (.nil 0)

/-- **Brackets around an expression leave its tree.** -/
theorem reading_inBrackets (hs : table.Sound) (ho : table.grammar.Orderly)
    (h : (table.reading text).answer = .ok (some tree)) (htree : tree.IsExpression) (n : Nat) :
    (table.reading (inBrackets n text)).answer = .ok (some tree) := by
  induction n with
  | zero => exact h
  | succ n ih =>
      obtain ⟨ts, hwrites, hchain⟩ := exists_isChain_of_reading hs ho ih htree
      exact (reading_eq_ok_iff hs ho).2
        ⟨_, hwrites.bracketed, .expression (hchain.bracketed _).isChain⟩

/-! ### Brackets in the place of a name -/

/-- An expression in which a name gives way to a text in brackets is a writing, of the tokens in
which the name gives way. -/
theorem Writes.replaceOperands (hs : table.Sound) {stop : Token} (hstop : stop.kind = .stop)
    (hfirst : table.Writes us first) (hsecond : table.Writes ts second)
    (hchain : table.grammar.IsChain ts stop tree) :
    table.Writes (replaceTokens name us ts)
      (table.lexicon.replaceOperands name ("(" ++ first ++ ")") second) := by
  obtain ⟨gap, hwriting⟩ := hsecond.writing
  obtain ⟨t, ts, rfl, hkind⟩ := hchain.exists_eq_cons hstop
  have hsame : table.lexicon.replaceOperands name ("(" ++ first ++ ")") second
      = table.lexicon.replaceName name ("(" ++ first ++ ")") second :=
    congrArg String.ofList
      (hwriting.replaceOperandsIn_of_kind_ne hs.lexable hsecond.wellFormed hkind name _)
  rw [hsame]
  exact hfirst.replaceName hs hsecond

/-- In a definition only the value changes. -/
theorem Writes.replaceOperands_definition (hs : table.Sound) {k x e : Token}
    (hk : k.kind = .keyword) (he : e.kind = .equals) (hfirst : table.Writes us first)
    (hsecond : table.Writes (k :: x :: e :: ts) second) :
    table.Writes (k :: x :: e :: replaceTokens name us ts)
      (table.lexicon.replaceOperands name ("(" ++ first ++ ")") second) := by
  obtain ⟨inner, hinner⟩ := hfirst.writing
  obtain ⟨gap, hwriting⟩ := hsecond.writing
  have hreplaced : Writing gap (k :: x :: replaceTokens name us (e :: ts))
      (table.lexicon.replaceOperandsIn name ('(' :: (first.toList ++ [')'])) second.toList) :=
    hinner.replaceOperandsIn_definition hs.lexable hwriting hsecond.wellFormed hk
  have hequals : replaceTokens name us (e :: ts) = e :: replaceTokens name us ts := by
    rw [replaceTokens_cons, Token.replace_of_kind_ne (by simp [he])]
    rfl
  rw [hequals] at hreplaced
  refine ⟨?_, gap, by simpa [Lexicon.replaceOperands] using hreplaced⟩
  have hkeep := hsecond.wellFormed
  simp only [List.forall_mem_cons] at hkeep ⊢
  obtain ⟨hk', hx', he', hts⟩ := hkeep
  exact ⟨hk', hx', he', wellFormed_replaceTokens hfirst.wellFormed hts⟩

/-- **Reading is compositional in bracketed operands.**  If one line is read to an expression, then
any other is read, with the first line in brackets in the place of every name but a declared one, to
its tree with the expression in the place of the variable.  Brackets alone change no tree. -/
theorem reading_nested {d : Draft} {table : Table} (hb : d.build = .ok table)
    {first second : String} {value tree : Tree}
    (hfirst : (table.reading first).answer = .ok (some value)) (hvalue : value.IsExpression)
    (hsecond : (table.reading second).answer = .ok (some tree)) (name : String) :
    (table.reading (table.lexicon.replaceOperands name ("(" ++ first ++ ")") second)).answer
        = .ok (some (tree.replaceVar name value)) ∧
      ∀ n, (table.reading (inBrackets n first)).answer = .ok (some value) := by
  have hs : table.Sound := Draft.sound_of_build hb
  have ho : table.grammar.Orderly := Draft.orderly_of_build hb
  refine ⟨?_, reading_inBrackets hs ho hfirst hvalue⟩
  obtain ⟨us, hwrites, hchain⟩ := exists_isChain_of_reading hs ho hfirst hvalue
  obtain ⟨ts, hwrites', hline⟩ := (reading_eq_ok_iff hs ho).1 hsecond
  refine (reading_eq_ok_iff hs ho).2 ?_
  cases hline with
  | expression hchain' =>
      exact ⟨_, hwrites.replaceOperands hs rfl hwrites' hchain',
        .expression (hchain.replace rfl hchain')⟩
  | definition hk hx he hchain' =>
      exact ⟨_, hwrites.replaceOperands_definition hs hk he hwrites',
        .definition hk hx he (hchain.replace rfl hchain')⟩

theorem reading_nestedDefinition :
    (standard.reading "1 - -y").answer
        = .ok (some (.binary .sub (.number "1") (.unary .neg (.var "y")))) ∧
      (standard.reading "let x = 2 ** x * xy").answer = .ok (some (.define "x"
        (.binary .mul (.binary .pow (.number "2") (.var "x")) (.var "xy")))) ∧
      (standard.reading "let x = 2 ** (1 - -y) * xy").answer = .ok (some (.define "x"
        (.binary .mul (.binary .pow (.number "2")
          (.binary .sub (.number "1") (.unary .neg (.var "y")))) (.var "xy")))) ∧
      (standard.reading "((1 - -y))").answer
        = .ok (some (.binary .sub (.number "1") (.unary .neg (.var "y")))) := by
  have hfirst : (standard.reading "1 - -y").answer
      = .ok (some (.binary .sub (.number "1") (.unary .neg (.var "y")))) :=
    eq_ok_of_toOption (by decide +kernel)
  have hsecond : (standard.reading "let x = 2 ** x * xy").answer = .ok (some (.define "x"
      (.binary .mul (.binary .pow (.number "2") (.var "x")) (.var "xy")))) :=
    eq_ok_of_toOption (by decide +kernel)
  have hreplaced : standard.lexicon.replaceOperands "x" ("(" ++ "1 - -y" ++ ")")
      "let x = 2 ** x * xy" = "let x = 2 ** (1 - -y) * xy" := by decide +kernel
  have hbrackets : inBrackets 2 "1 - -y" = "((1 - -y))" := by decide
  obtain ⟨hnested, hn⟩ :=
    reading_nested Draft.build_standard hfirst (by simp [Tree.IsExpression]) hsecond "x"
  rw [hreplaced] at hnested
  exact ⟨hfirst, hsecond, hnested, hbrackets ▸ hn 2⟩

end Table

end Calculator
