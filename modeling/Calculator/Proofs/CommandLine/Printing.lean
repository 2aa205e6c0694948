/-
A printed tree is the only one that is printed so.

The printed form is a flat text.  Operations with one operand and with two share their
names, and a variable may have such a name too, so nothing but the brackets and the
spaces tells where a part ends.  They do tell, as long as a number is digits and a name
is a letter with letters and digits behind it: of two texts that begin with printed
trees and go on with no letter and no digit, the trees are the same and so is what
stands behind them (`Tree.IsLegible.isDecoded`).  That is the form in which the
induction goes through, from the children of a node to the node.

All trees that are shown and recorded have such numbers and names, because they have
them from the tokens of a line.  So neither the trees on the screen nor those in the log
are ever mixed up.
-/
import Calculator.CommandLine.Run
import Calculator.Proofs.CommandLine.Variables
import Calculator.Proofs.Session.Records

namespace Calculator

/-! ### Words -/

/-- The text goes on with no letter and no digit. -/
def Delimited (cs : List Char) : Prop :=
  ∀ c ∈ cs.head?, c.isAlphanum = false

private theorem delimited_cons {c : Char} (h : c.isAlphanum = false) (cs : List Char) :
    Delimited (c :: cs) := by
  intro d hd
  cases hd
  exact h

/-- A word in front of a delimiter is told from every other. -/
theorem eq_of_word_append {word word' rest rest' : List Char}
    (hword : ∀ c ∈ word, c.isAlphanum = true) (hword' : ∀ c ∈ word', c.isAlphanum = true)
    (hrest : Delimited rest) (hrest' : Delimited rest') (h : word ++ rest = word' ++ rest') :
    word = word' ∧ rest = rest' := by
  obtain ⟨hrun, hafter⟩ := span_eq_iff.2 ⟨rfl, hword, hrest⟩
  obtain ⟨hrun', hafter'⟩ := span_eq_iff.2 ⟨h, hword', hrest'⟩
  exact ⟨hrun.symm.trans hrun', hafter.symm.trans hafter'⟩

namespace Tree

/-! ### Legible trees -/

/-- The numbers of the tree are digits, and its variables and the names it defines are spelled like
names; they may be spelled like an operation or like the keyword too. -/
def isLegible : Tree → Bool
  | number digits => Decimal.isNumeral digits
  | var name => Token.isIdentifier name
  | unary _ operand => operand.isLegible
  | binary _ left right => left.isLegible && right.isLegible
  | define name value => Token.isIdentifier name && value.isLegible

/-- What holds of a tree as soon as it holds of its children holds of every tree. -/
@[elab_as_elim]
private theorem induction_on_children {P : Tree → Prop} (t : Tree)
    (h : ∀ t, (∀ c ∈ t.children, P c) → P t) : P t := by
  have hvar : ∀ name, P (var name) := fun name => h _ (by simp [children])
  induction t with
  | number digits => exact h _ (by simp [children])
  | var name => exact hvar name
  | unary op operand ih => exact h _ (by simpa [children] using ih)
  | binary op left right ihleft ihright => exact h _ (by simp [children, ihleft, ihright])
  | define name value ih => exact h _ (by simp [children, hvar, ih])

private theorem isLegible_of_mem_children {t c : Tree} (h : t.isLegible = true)
    (hc : c ∈ t.children) :
    c.isLegible = true := by
  cases t with
  | number | var => cases hc
  | unary op operand =>
      obtain rfl : c = operand := by simpa [children] using hc
      exact h
  | binary op left right =>
      obtain ⟨hleft, hright⟩ := Bool.and_eq_true_iff.1 h
      obtain rfl | rfl : c = left ∨ c = right := by simpa [children] using hc
      · exact hleft
      · exact hright
  | define name value =>
      obtain ⟨hname, hvalue⟩ := Bool.and_eq_true_iff.1 h
      obtain rfl | rfl : c = var name ∨ c = value := by simpa [children] using hc
      · exact hname
      · exact hvalue

/-! ### The parts of a printed form -/

/-- The word behind the bracket that a printed form opens with, if it opens with one. -/
def heading? : Tree → Option String
  | number _ | var _ => none
  | unary op _ => some op.name
  | binary op _ _ => some op.name
  | define _ _ => some "LET"

/-- The printed forms of some trees, each behind a space. -/
def spaced (cs : List Tree) : List Char :=
  cs.flatMap fun c => ' ' :: c.render.toList

/-- A leaf is printed as its text. -/
theorem render_of_heading?_eq_none {t : Tree} (h : t.heading? = none) : t.render = t.text := by
  cases t with
  | number | var => rfl
  | unary | binary | define => cases h

/-- Any other node is printed as a bracket around its heading and its children. -/
theorem toList_render {t : Tree} {word : String} (h : t.heading? = some word) :
    t.render.toList = '(' :: (word.toList ++ (spaced t.children ++ [')'])) := by
  cases t with
  | number | var => cases h
  | unary | binary | define =>
      cases h
      simp [render, spaced, children]

/-- The heading of a node and its children say which node it is: an operation has as many children
as operands, and none is called as a definition is. -/
theorem eq_of_heading {t t' : Tree} (h : t.heading? = t'.heading?) (hnode : t.heading? ≠ none)
    (hchildren : t.children = t'.children) : t = t' := by
  have hunary : ∀ {op op' : UnaryOp}, op.name = op'.name → op = op' := by
    intro op op' hname
    cases op <;> cases op' <;> first | rfl | exact absurd hname (by decide)
  have hbinary : ∀ {op op' : BinaryOp}, op.name = op'.name → op = op' := by
    intro op op' hname
    cases op <;> cases op' <;> first | rfl | exact absurd hname (by decide)
  have hlet : ∀ op : BinaryOp, op.name ≠ "LET" := by
    intro op
    cases op <;> decide
  cases t with
  | number | var => exact absurd rfl hnode
  | unary op operand =>
      cases t' with
      | unary op' operand' =>
          simp only [heading?, Option.some.injEq] at h
          simp only [children, List.cons.injEq, and_true] at hchildren
          rw [hunary h, hchildren]
      | number | var => cases h
      | binary | define => simp [children] at hchildren
  | binary op left right =>
      cases t' with
      | binary op' left' right' =>
          simp only [heading?, Option.some.injEq] at h
          simp only [children, List.cons.injEq, and_true] at hchildren
          rw [hbinary h, hchildren.1, hchildren.2]
      | number | var => cases h
      | unary => simp [children] at hchildren
      | define => exact absurd (Option.some.inj h) (hlet op)
  | define name value =>
      cases t' with
      | define name' value' =>
          simp only [children, List.cons.injEq, var.injEq, and_true] at hchildren
          rw [hchildren.1, hchildren.2]
      | number | var => cases h
      | unary => simp [children] at hchildren
      | binary op => exact absurd (Option.some.inj h).symm (hlet op)

/-- A heading is a word. -/
theorem isAlphanum_of_mem_heading {t : Tree} {word : String} (h : t.heading? = some word) :
    ∀ c ∈ word.toList, c.isAlphanum = true := by
  have hall : word.toList.all Char.isAlphanum = true := by
    cases t with
    | number | var => cases h
    | unary op | binary op =>
        cases h
        cases op <;> decide
    | define =>
        cases h
        decide
  exact List.all_eq_true.1 hall

/-! ### Leaves -/

/-- The text of a legible leaf is a word, and not empty. -/
private theorem exists_text_eq_cons {t : Tree} (ht : t.isLegible = true) (h : t.heading? = none) :
    ∃ c r, t.text.toList = c :: r ∧ c.isAlphanum = true ∧ ∀ d ∈ r, d.isAlphanum = true := by
  cases t with
  | number digits =>
      simp only [isLegible, Decimal.isNumeral, Bool.and_eq_true, List.all_eq_true] at ht
      cases hdigits : digits.toList with
      | nil => simp [hdigits] at ht
      | cons c r =>
          rw [hdigits] at ht
          have hdigit : ∀ d ∈ c :: r, d.isAlphanum = true := fun d hd => by
            simp [Char.isAlphanum, ht.2 d hd]
          exact ⟨c, r, hdigits, List.forall_mem_cons.1 hdigit⟩
  | var name =>
      simp only [isLegible, Token.isIdentifier] at ht
      cases hname : name.toList with
      | nil => simp [hname] at ht
      | cons c r =>
          simp only [hname, Bool.and_eq_true, List.all_eq_true] at ht
          exact ⟨c, r, hname, by simp [Char.isAlphanum, ht.1], ht.2⟩
  | unary | binary | define => cases h

/-- Legible leaves are told apart by their texts, because no name begins with a digit. -/
theorem eq_of_text {t t' : Tree} (ht : t.isLegible = true) (ht' : t'.isLegible = true)
    (h : t.heading? = none) (h' : t'.heading? = none) (htext : t.text = t'.text) : t = t' := by
  have hdisjoint : ∀ text, Decimal.isNumeral text = true → ¬ Token.isIdentifier text = true := by
    intro text hnumeral hname
    cases hchars : text.toList with
    | nil => simp [Decimal.isNumeral, hchars] at hnumeral
    | cons c r =>
        simp only [Decimal.isNumeral, Token.isIdentifier, hchars, List.all_cons,
          Bool.and_eq_true] at hnumeral hname
        exact not_isDigit_of_isAlpha hname.1 hnumeral.2.1
  cases t with
  | number digits =>
      cases t' with
      | number => exact congrArg number htext
      | var name =>
          obtain rfl : digits = name := htext
          exact absurd ht' (hdisjoint digits ht)
      | unary | binary | define => cases h'
  | var name =>
      cases t' with
      | var => exact congrArg var htext
      | number digits =>
          obtain rfl : name = digits := htext
          exact absurd ht (hdisjoint name ht')
      | unary | binary | define => cases h'
  | unary | binary | define => cases h

/-! ### One form, one tree -/

/-- A legible tree whose printed form stands where that of this tree stands, both in front of a
delimiter, is this tree. -/
def IsDecoded (t : Tree) : Prop :=
  ∀ (t' : Tree) (rest rest' : List Char), t'.isLegible = true → Delimited rest →
    Delimited rest' → t.render.toList ++ rest = t'.render.toList ++ rest' → t = t' ∧ rest = rest'

/-- Behind a heading or a child comes a space or the closing bracket. -/
private theorem delimited_spaced (cs : List Tree) (rest : List Char) :
    Delimited (spaced cs ++ ')' :: rest) := by
  cases cs with
  | nil => exact delimited_cons (by decide) rest
  | cons c cs => exact delimited_cons (by decide) _

/-- So the printed children of a node are told apart one after the other. -/
theorem eq_of_spaced {cs cs' : List Tree} (hcs : ∀ c ∈ cs, c.IsDecoded)
    (hcs' : ∀ c ∈ cs', c.isLegible = true) {rest rest' : List Char}
    (h : spaced cs ++ ')' :: rest = spaced cs' ++ ')' :: rest') : cs = cs' ∧ rest = rest' := by
  have hcons : ∀ (c : Tree) (cs : List Tree) (rest : List Char),
      spaced (c :: cs) ++ ')' :: rest
        = ' ' :: (c.render.toList ++ (spaced cs ++ ')' :: rest)) := by
    simp [spaced]
  induction cs generalizing cs' with
  | nil =>
      cases cs' with
      | nil => exact ⟨rfl, (List.cons.inj h).2⟩
      | cons c' cs' =>
          rw [hcons] at h
          exact absurd (List.cons.inj h).1 (by decide)
  | cons c cs ih =>
      cases cs' with
      | nil =>
          rw [hcons] at h
          exact absurd (List.cons.inj h).1 (by decide)
      | cons c' cs' =>
          obtain ⟨hfirst, hothers⟩ := List.forall_mem_cons.1 hcs
          obtain ⟨hfirst', hothers'⟩ := List.forall_mem_cons.1 hcs'
          rw [hcons, hcons] at h
          obtain ⟨hsame, hbehind⟩ := hfirst c' _ _ hfirst' (delimited_spaced cs rest)
            (delimited_spaced cs' rest') (List.cons.inj h).2
          obtain ⟨hcs, hrest⟩ := ih hothers hothers' hbehind
          exact ⟨by rw [hsame, hcs], hrest⟩

/-- A leaf is told from every tree. -/
private theorem isDecoded_of_leaf {t : Tree} (ht : t.isLegible = true) (h : t.heading? = none) :
    t.IsDecoded := by
  intro t' rest rest' ht' hrest hrest' heq
  obtain ⟨c, r, htext, hword⟩ := exists_text_eq_cons ht h
  rw [render_of_heading?_eq_none h] at heq
  cases h' : t'.heading? with
  | some word =>
      rw [toList_render h', htext] at heq
      obtain rfl : c = '(' := (List.cons.inj heq).1
      exact absurd hword.1 (by decide)
  | none =>
      obtain ⟨c', r', htext', hword'⟩ := exists_text_eq_cons ht' h'
      rw [render_of_heading?_eq_none h', htext, htext'] at heq
      obtain ⟨hsame, rfl⟩ := eq_of_word_append (List.forall_mem_cons.2 hword)
        (List.forall_mem_cons.2 hword') hrest hrest' heq
      rw [← htext, ← htext', String.toList_inj] at hsame
      exact ⟨eq_of_text ht ht' h h' hsame, rfl⟩

/-- A node is told from every tree if its children are. -/
private theorem isDecoded_of_children {t : Tree} {word : String} (h : t.heading? = some word)
    (hchildren : ∀ c ∈ t.children, c.IsDecoded) : t.IsDecoded := by
  intro t' rest rest' ht' hrest hrest' heq
  rw [toList_render h] at heq
  cases h' : t'.heading? with
  | none =>
      obtain ⟨c', r', htext', hword'⟩ := exists_text_eq_cons ht' h'
      rw [render_of_heading?_eq_none h', htext'] at heq
      obtain rfl : '(' = c' := (List.cons.inj heq).1
      exact absurd hword'.1 (by decide)
  | some word' =>
      rw [toList_render h'] at heq
      simp only [List.cons_append, List.append_assoc, List.nil_append, List.cons.injEq,
        true_and] at heq
      obtain ⟨hword, hbehind⟩ := eq_of_word_append (isAlphanum_of_mem_heading h)
        (isAlphanum_of_mem_heading h') (delimited_spaced _ rest) (delimited_spaced _ rest') heq
      obtain ⟨hsame, rfl⟩ :=
        eq_of_spaced hchildren (fun c => isLegible_of_mem_children ht') hbehind
      rw [String.toList_inj] at hword
      have hheading : t.heading? = t'.heading? := by rw [h, h', hword]
      exact ⟨eq_of_heading hheading (by simp [h]) hsame, rfl⟩

/-- **Every legible tree is told from every other**, and its printed form ends where it does. -/
theorem isDecoded {t : Tree} (ht : t.isLegible = true) : t.IsDecoded := by
  induction t using induction_on_children with
  | h t ih =>
      cases h : t.heading? with
      | none => exact isDecoded_of_leaf ht h
      | some word =>
          exact isDecoded_of_children h fun c hc => ih c hc (isLegible_of_mem_children ht hc)

private theorem eq_of_render {t t' : Tree} (ht : t.isLegible = true) (ht' : t'.isLegible = true)
    (h : t.render = t'.render) : t = t' := by
  have hend : Delimited [] := by simp [Delimited]
  exact (isDecoded ht t' [] [] ht' hend hend (by rw [h])).1

/-! ### Trees of lines -/

theorem Evaluable.isLegible {t : Tree} (h : t.Evaluable)
    (hnames : ∀ x, var x ∈ t.nodes → Token.isIdentifier x = true) : t.isLegible = true := by
  induction t with
  | number digits => exact h
  | var name => exact hnames name (by simp [nodes])
  | unary op operand ih => exact ih h fun x hx => hnames x (by simp [nodes, hx])
  | binary op left right ihleft ihright =>
      exact Bool.and_eq_true_iff.2 ⟨ihleft h.1 fun x hx => hnames x (by simp [nodes, hx]),
        ihright h.2 fun x hx => hnames x (by simp [nodes, hx])⟩
  | define name value => exact absurd h id

/-- A tree that a line can stand for is legible if its names are spelled like names. -/
theorem Executable.isLegible {t : Tree} (h : t.Executable)
    (hnames : ∀ x, var x ∈ t.nodes → Token.isIdentifier x = true) : t.isLegible = true := by
  cases t with
  | define name value =>
      have hvalue : value.Evaluable := h
      exact Bool.and_eq_true_iff.2 ⟨hnames name (by simp [nodes]),
        hvalue.isLegible fun x hx => hnames x (by simp [nodes, hx])⟩
  | number | var | unary | binary => exact Evaluable.isLegible h hnames

end Tree

/-! ### What is shown and recorded -/

/-- The tree that is shown is known from what is written for it. -/
theorem CommandLine.eq_of_showTree {t t' : Tree} (ht : t.isLegible = true)
    (ht' : t'.isLegible = true) (h : showTree t = showTree t') : t = t' := by
  have hline : t.render ++ "\n" = t'.render ++ "\n" := congrArg Output.stderr h
  have hchars : t.render.toList ++ ['\n'] = t'.render.toList ++ ['\n'] := by
    simpa using congrArg String.toList hline
  have hnewline : Delimited ['\n'] := delimited_cons (by decide) []
  exact (Tree.isDecoded ht t' _ _ ht' hnewline hnewline hchars).1

namespace Event

/-- A record of a tree says first whether it was read or evaluated, and ends the tree with a
delimiter. -/
theorem toList_record {e : Event} {t : Tree} (h : e.tree? = some t) :
    ∃ rest, Delimited rest ∧
      (e.record.toList = "DEBUG parsed ".toList ++ (t.render.toList ++ rest) ∨
        e.record.toList = "DEBUG evaluated ".toList ++ (t.render.toList ++ rest)) := by
  cases e with
  | parsed tree =>
      cases h
      exact ⟨[], by simp [Delimited], Or.inl (by simp [record, severity, message, Severity.name])⟩
  | evaluated tree value =>
      cases h
      refine ⟨' ' :: ("to ".toList ++ (Decimal.render value).toList), delimited_cons (by decide) _,
        Or.inr ?_⟩
      simp [record, severity, message, Severity.name]
  | unusedSymbol | matched | bound => cases h

/-- The tree of an event is known from its record. -/
theorem eq_of_record {e e' : Event} {t t' : Tree} (ht : t.isLegible = true)
    (ht' : t'.isLegible = true) (he : e.tree? = some t) (he' : e'.tree? = some t')
    (h : e.record = e'.record) : t = t' := by
  obtain ⟨rest, hrest, hrecord⟩ := toList_record he
  obtain ⟨rest', hrest', hrecord'⟩ := toList_record he'
  rw [h] at hrecord
  rcases hrecord with hrecord | hrecord <;> rcases hrecord' with hrecord' | hrecord' <;>
    rw [hrecord] at hrecord'
  · exact (Tree.isDecoded ht t' _ _ ht' hrest hrest' (List.append_cancel_left hrecord')).1
  · simp at hrecord'
  · simp at hrecord'
  · exact (Tree.isDecoded ht t' _ _ ht' hrest hrest' (List.append_cancel_left hrecord')).1

end Event

/-! ### The trees of a session -/

namespace Session

variable {s : Session} {table : Table} {text : String} {t : Tree}

/-- A line is read to a legible tree. -/
theorem Uses.isLegible_of_read (hs : s.Uses table) (ht : table.Sound)
    (h : (s.read text).answer = .ok (some t)) : t.isLegible = true := by
  have hreading : (table.reading text).answer = .ok (some t) := hs.read_eq_ok_iff.1 h
  refine (Table.executable_of_reading ht hreading).isLegible fun x hx => ?_
  have hname : Token.WellFormed table.lexicon ⟨.name, x⟩ :=
    Table.wellFormed_of_mem_tokens ht (Table.mem_tokens_of_mem_nodes ht hreading hx) (by simp)
  exact hname.1

/-- **Trees that are printed alike are the same tree**, if their numbers are digits and their names
are spelled like names.  All trees that lines are read to are such, with whatever tables.  So two
trees that are shown alike are the same tree, and so are two trees that the records of two lines
have, if the records are alike. -/
theorem printed_alike_is_same {d d' : Draft} {table table' : Table} (hb : d.build = .ok table)
    (hb' : d'.build = .ok table') {s s' : Session} (hs : s.Uses table) (hs' : s'.Uses table') :
    (∀ t t' : Tree, t.isLegible = true → t'.isLegible = true → t.render = t'.render → t = t') ∧
      ∀ text text' : String,
        (∀ t t', (s.read text).answer = .ok (some t) → (s'.read text').answer = .ok (some t') →
          CommandLine.showTree t = CommandLine.showTree t' → t = t') ∧
        ∀ e ∈ (s.run text).events, ∀ e' ∈ (s'.run text').events, ∀ t t', e.tree? = some t →
          e'.tree? = some t' → e.record = e'.record → t = t' := by
  have ht : table.Sound := Draft.sound_of_build hb
  have ht' : table'.Sound := Draft.sound_of_build hb'
  refine ⟨fun t t' hlegible hlegible' => Tree.eq_of_render hlegible hlegible', ?_⟩
  intro text text'
  constructor
  · intro t t' hread hread'
    exact CommandLine.eq_of_showTree (hs.isLegible_of_read ht hread)
      (hs'.isLegible_of_read ht' hread')
  · intro e he e' he' t t' htree htree'
    exact Event.eq_of_record (hs.isLegible_of_read ht (read_of_mem_events he htree))
      (hs'.isLegible_of_read ht' (read_of_mem_events he' htree')) htree htree'

/-- A sign in front of a difference, and a difference that begins with a sign.  The variable is
called as both operations are. -/
def negatedDifference : Tree :=
  .unary .neg (.binary .sub (.var "MINUS") (.number "7"))

def differenceOfNegated : Tree :=
  .binary .sub (.unary .neg (.var "MINUS")) (.number "7")

theorem printed_alike_is_same_minus :
    (Draft.standard.build = .ok .standard ∧ standard.Uses .standard) ∧
      (standard.read "-(MINUS - 7)").answer = .ok (some negatedDifference) ∧
      (standard.read "-MINUS - 7").answer = .ok (some differenceOfNegated) ∧
      CommandLine.showTree negatedDifference ≠ CommandLine.showTree differenceOfNegated ∧
      negatedDifference.render ≠ differenceOfNegated.render := by
  have hb : Draft.standard.build = .ok .standard := Draft.build_standard
  have hs : standard.Uses .standard := uses_new .standard .empty
  have hread : (standard.read "-(MINUS - 7)").answer = .ok (some negatedDifference) :=
    eq_ok_of_toOption (by decide +kernel)
  have hread' : (standard.read "-MINUS - 7").answer = .ok (some differenceOfNegated) :=
    eq_ok_of_toOption (by decide +kernel)
  have hne : negatedDifference ≠ differenceOfNegated := by decide
  obtain ⟨hrender, hlines⟩ := printed_alike_is_same hb hb hs hs
  refine ⟨⟨hb, hs⟩, hread, hread', ?_, ?_⟩
  · intro hshown
    exact hne ((hlines _ _).1 _ _ hread hread' hshown)
  · intro hrendered
    exact hne (hrender _ _ (by decide) (by decide) hrendered)

end Session

end Calculator
