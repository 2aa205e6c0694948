/-
A line depends on the names that stand in it.

Take two sessions with the same table in which every name that a line mentions means
the same, a value or nothing.  The line has the same answer in both, a failure as well
as a value, and it binds the same name to the same value if it binds one.  All other
names keep what they meant, in each session for itself.

Two facts are behind this.  A tree has its value from its variables and nothing else of
the environment (`evaluate_congr`), and every variable of a tree that was read stands
as a name among the tokens (`Derives.mentions`), however many levels, brackets and signs
lie between the two.
-/
import Calculator.Proofs.Session.Failures
import Calculator.Proofs.Session.History
import Calculator.Proofs.Session.Reading

namespace Calculator

/-! ### The variables of a tree -/

namespace Tree

variable {env env' : Environment} {tree : Tree}

/-- **The value of a tree depends on its variables.** -/
theorem evaluate_congr (h : ∀ x, var x ∈ tree.nodes → env.lookup x = env'.lookup x) :
    tree.evaluate env = tree.evaluate env' := by
  induction tree with
  | number digits => rfl
  | var x =>
      have hx : env.lookup x = env'.lookup x := h x (by simp [nodes])
      rw [evaluate, evaluate, Environment.value, Environment.value, hx]
  | unary op operand ih =>
      rw [evaluate, evaluate, ih fun x hx => h x (by simp [nodes, hx])]
  | binary op left right ihleft ihright =>
      rw [evaluate, evaluate, ihleft fun x hx => h x (by simp [nodes, hx]),
        ihright fun x hx => h x (by simp [nodes, hx])]
  | define name value => rfl

/-- So does the value that a definition binds. -/
theorem binding?_congr (h : ∀ x, var x ∈ tree.nodes → env.lookup x = env'.lookup x) :
    tree.binding? env = tree.binding? env' := by
  cases tree with
  | define name value =>
      have hvalue : value.evaluate env = value.evaluate env' :=
        evaluate_congr fun x hx => h x (by simp [nodes, hx])
      rw [binding?, binding?, hvalue]
  | number | var | unary | binary => rfl

/-- So does the answer of a line. -/
theorem answer_execute_congr (h : ∀ x, var x ∈ tree.nodes → env.lookup x = env'.lookup x) :
    (env.execute tree).answer = (env'.execute tree).answer := by
  cases tree with
  | define name value =>
      have hvalue : value.evaluate env = value.evaluate env' :=
        evaluate_congr fun x hx => h x (by simp [nodes, hx])
      rw [Environment.execute, Environment.execute, hvalue]
      cases value.evaluate env' <;> rfl
  | number | var | unary | binary =>
      simp only [Environment.execute, evaluate_congr h]
      split <;> rfl

end Tree

/-! ### The names among the tokens -/

namespace Grammar

variable {g : Grammar}

/-- The variables of a tree that stands for some tokens stand among them as names; those of a chain
may also stand in what it begins with. -/
def Mentions : Part → List Token → Tree → Prop
  | .chain _ left, ts, tree =>
    ∀ x, .var x ∈ tree.nodes → ⟨.name, x⟩ ∈ ts ∨ .var x ∈ left.nodes
  | .expression _, ts, tree | .operand, ts, tree => ∀ x, .var x ∈ tree.nodes → ⟨.name, x⟩ ∈ ts

/-- **Every variable of a derived tree is a name among the tokens.** -/
theorem Derives.mentions {part : Part} {ts : List Token} {tree : Tree}
    (h : g.Derives part ts tree) : Mentions part ts tree := by
  induction h with
  | operand _ _ ih => exact ih
  | left _ _ _ ih ih' =>
      intro x hx
      rcases ih' x hx with hrest | hfirst
      · exact List.mem_append_right _ hrest
      · exact List.mem_append_left _ (ih x hfirst)
  | chainEnd => exact fun x hx => Or.inr hx
  | chainLink _ _ _ ih ih' =>
      intro x hx
      rcases ih' x hx with hrest | hnode
      · exact Or.inl (by simp [hrest])
      · rcases List.mem_append.1 (List.mem_of_ne_of_mem (by simp) hnode) with hleft | hright
        · exact Or.inr hleft
        · exact Or.inl (by simp [ih x hright])
  | rightOne _ _ ih => exact ih
  | right _ _ _ _ ih ih' =>
      intro x hx
      rcases List.mem_append.1 (List.mem_of_ne_of_mem (by simp) hx) with hleft | hright
      · simp [ih x hleft]
      · simp [ih' x hright]
  | number =>
      intro x hx
      simp [Tree.nodes] at hx
  | @name t ht =>
      intro x hx
      obtain rfl : x = t.text := by simpa [Tree.nodes] using hx
      rw [← ht]
      exact List.mem_singleton_self t
  | bracket _ _ _ ih =>
      intro x hx
      simp [ih x hx]
  | sign _ _ ih =>
      intro x hx
      simp [ih x (List.mem_of_ne_of_mem (by simp) hx)]

/-- So is the name that a line defines. -/
theorem Sentence.mentions {ts : List Token} {tree : Tree} (h : g.Sentence ts tree) {x : String}
    (hx : .var x ∈ tree.nodes) : ⟨.name, x⟩ ∈ ts := by
  cases h with
  | expression h => exact h.mentions x hx
  | @definition k name e ts value _ hname _ h =>
      rcases List.mem_cons.1 (List.mem_of_ne_of_mem (by simp) hx) with htarget | hvalue
      · obtain rfl : x = name.text := by simpa using htarget
        simp [← hname]
      · simp [h.mentions x hvalue]

end Grammar

namespace Table

variable {table : Table} {text : String} {tree : Tree}

/-- The tokens that a text is cut into with a table, up to its end or to an error. -/
def tokens (table : Table) (text : String) : List Token :=
  (TokenStream.readAll ((Scanner.new table.lexicon).reset text)).tokens

/-- **The variables of what a text is read to are names among its tokens.** -/
theorem mem_tokens_of_mem_nodes (ht : table.Sound)
    (h : (table.reading text).answer = .ok (some tree)) {x : String}
    (hx : .var x ∈ tree.nodes) : ⟨.name, x⟩ ∈ table.tokens text := by
  obtain ⟨ts, last, m, hd, hc, hts, hlast⟩ := exists_delivery ht text
  have hkinds : ∀ t ∈ ts, t.kind ≠ .stop := fun t ht => (hts t ht).kind_ne_stop
  have hcut : ∀ t ∈ ts, t ∈ table.tokens text := by
    rcases hlast with ⟨rfl, -⟩ | ⟨e, rfl, -⟩
    · rw [tokens, readAll_of_delivers_stop hkinds rfl hd]
      exact fun t ht => List.mem_append_left _ ht
    · rw [tokens, readAll_of_delivers_error hkinds hd]
      exact fun t ht => ht
  obtain ⟨-, hanswer⟩ := answers_of_delivers hd hc
  rw [h] at hanswer
  obtain ⟨-, rest, hread, -⟩ := hanswer
  obtain ⟨us, stop, hitems, -, hus, hsentence⟩ := hread.sentence
  have hname : ⟨.name, x⟩ ∈ us := hsentence.mentions hx
  have hmem : .ok ⟨.name, x⟩ ∈ ts.map Except.ok ++ [last] := by
    rw [hitems]
    exact List.mem_append_left _ (List.mem_map_of_mem hname)
  exact hcut _ (mem_of_mem_items (hlast.imp_left And.left) hmem (hus _ hname))

end Table

namespace Session

variable {s s' : Session} {table : Table} {text : String}

/-- The line defines the name, and it succeeds. -/
def Declares (s : Session) (text x : String) : Prop :=
  (∃ value, (s.read text).answer = .ok (some (.define x value))) ∧ (s.run text).answer = .ok none

/-- A line that succeeds in defining a name is one that binds it. -/
theorem declares_iff {x : String} :
    s.Declares text x ↔ ∃ v, (s.entry (.run text)).binding? = some (x, v) := by
  have hbinding : (s.entry (.run text)).binding?
      = (s.evaluated? (.run text)).bind (Tree.binding? s.env) := rfl
  rw [hbinding, evaluated?, Declares]
  rcases s.run_eq text with ⟨f, hread, -, -⟩ | ⟨tree?, hread, hanswer, -⟩
  · simp [hread]
  · rw [hread, hanswer]
    cases tree? with
    | none => simp
    | some tree =>
        have hexecute : ((s.read text).session.execute? (some tree)).answer
            = (s.env.execute tree).answer.mapError .ofValue := rfl
        rw [hexecute, mapError_eq_ok_iff]
        cases tree with
        | define name value =>
            cases hvalue : value.evaluate s.env <;>
              simp [Environment.execute, Tree.binding?, hvalue]
        | number | var | unary | binary => simp [Tree.binding?]

section Agreement

variable (hs : s.Uses table) (hs' : s'.Uses table) (ht : table.Sound)
  (hagree : ∀ x, ⟨.name, x⟩ ∈ table.tokens text → s.env.lookup x = s'.env.lookup x)

include hs hs' ht hagree

/-- **What a line binds depends on the names in it.** -/
theorem binding?_run_congr :
    (s.entry (.run text)).binding? = (s'.entry (.run text)).binding? := by
  show (s.evaluated? (.run text)).bind _ = (s'.evaluated? (.run text)).bind _
  rw [evaluated?, evaluated?, hs.read_eq, hs'.read_eq]
  cases hreading : (table.reading text).answer with
  | error e => rfl
  | ok tree? =>
      cases tree? with
      | none => rfl
      | some tree =>
          exact Tree.binding?_congr fun x hx =>
            hagree x (Table.mem_tokens_of_mem_nodes ht hreading hx)

/-- **So does its answer.** -/
theorem answer_run_congr : (s.run text).answer = (s'.run text).answer := by
  cases hreading : (table.reading text).answer with
  | error e =>
      simp only [Session.run, hs.read_eq, hs'.read_eq, hreading]
      rfl
  | ok tree? =>
      cases tree? with
      | none =>
          simp only [Session.run, hs.read_eq, hs'.read_eq, hreading]
          rfl
      | some tree =>
          have hanswer : (s.env.execute tree).answer = (s'.env.execute tree).answer :=
            Tree.answer_execute_congr fun x hx =>
              hagree x (Table.mem_tokens_of_mem_nodes ht hreading hx)
          rw [(hs.run_eq_execute hreading).1, (hs'.run_eq_execute hreading).1]
          exact congrArg (Except.mapError Failure.ofValue) hanswer

end Agreement

/-- **A line depends on the names in it alone.**  In two sessions with one table in which every name
among the tokens of a line means the same, the line has the same answer; if it succeeds in defining
a name, then it does in both and gives the name the same value; and any other name means in each
session what it meant before. -/
theorem run_depends_on_names {d : Draft} {table : Table} (hb : d.build = .ok table)
    {s s' : Session} (hs : s.Uses table) (hs' : s'.Uses table) {text : String}
    (hagree : ∀ x, ⟨.name, x⟩ ∈ table.tokens text → s.env.lookup x = s'.env.lookup x) :
    (s.run text).answer = (s'.run text).answer ∧
      (∀ x, s.Declares text x ↔ s'.Declares text x) ∧
      (∀ x, s.Declares text x → ∃ v, (s.run text).session.env.lookup x = some v ∧
        (s'.run text).session.env.lookup x = some v) ∧
      ∀ x, ¬ s.Declares text x → (s.run text).session.env.lookup x = s.env.lookup x ∧
        (s'.run text).session.env.lookup x = s'.env.lookup x := by
  have ht : table.Sound := Draft.sound_of_build hb
  have hbinding := binding?_run_congr hs hs' ht hagree
  have henv : (s.run text).session.env = s.env.bind (s.entry (.run text)).binding? :=
    s.env_serve (.run text)
  have henv' : (s'.run text).session.env = s'.env.bind (s'.entry (.run text)).binding? :=
    s'.env_serve (.run text)
  rw [← hbinding] at henv'
  refine ⟨answer_run_congr hs hs' ht hagree, ?_, ?_, ?_⟩
  · intro x
    rw [declares_iff, declares_iff, hbinding]
  · intro x hx
    obtain ⟨v, hv⟩ := declares_iff.1 hx
    rw [henv, henv', hv]
    exact ⟨v, by simp [Environment.bind], by simp [Environment.bind]⟩
  · intro x hx
    rw [declares_iff] at hx
    rw [henv, henv']
    cases hfound : (s.entry (.run text)).binding? with
    | none => exact ⟨rfl, rfl⟩
    | some b =>
        have hne : b.1 ≠ x := by
          rintro rfl
          exact hx ⟨b.2, hfound⟩
        simp [Environment.bind, hne]

/-- Two sessions in which `x` means the same and `y` nothing, and only one of which knows `z`. -/
def withZ : Session :=
  new .standard ((Environment.empty.set "x" 5).set "z" 1)

def withoutZ : Session :=
  new .standard (Environment.empty.set "x" 5)

theorem run_withZ :
    (withZ.Uses .standard ∧ withoutZ.Uses .standard ∧
      ∀ x, ⟨.name, x⟩ ∈ Table.standard.tokens "let y = x * 2" →
        withZ.env.lookup x = withoutZ.env.lookup x) ∧
      (withZ.run "let y = x * 2").answer = (withoutZ.run "let y = x * 2").answer ∧
      (∃ v, (withZ.run "let y = x * 2").session.env.lookup "y" = some v ∧
        (withoutZ.run "let y = x * 2").session.env.lookup "y" = some v) ∧
      (withZ.run "let y = x * 2").session.env.lookup "z" = some 1 ∧
      (withoutZ.run "let y = x * 2").session.env.lookup "z" = none := by
  have hs : withZ.Uses .standard := uses_new .standard _
  have hs' : withoutZ.Uses .standard := uses_new .standard _
  have htokens : Table.standard.tokens "let y = x * 2" =
      [⟨.keyword, "let"⟩, ⟨.name, "y"⟩, .bare .equals, ⟨.name, "x"⟩, ⟨.symbol, "*"⟩,
        ⟨.number, "2"⟩, .bare .stop] := by
    decide +kernel
  have hagree : ∀ x, ⟨.name, x⟩ ∈ Table.standard.tokens "let y = x * 2" →
      withZ.env.lookup x = withoutZ.env.lookup x := by
    intro x hx
    obtain rfl | rfl : x = "y" ∨ x = "x" := by simpa [htokens, Token.bare] using hx
    · decide
    · decide
  have hread : (withZ.read "let y = x * 2").answer
      = .ok (some (.define "y" (.binary .mul (.var "x") (.number "2")))) :=
    eq_ok_of_toOption (by decide +kernel)
  have hrun : (withZ.run "let y = x * 2").answer = .ok none :=
    eq_ok_of_toOption (by decide +kernel)
  have hz : ¬ withZ.Declares "let y = x * 2" "z" := by
    rintro ⟨⟨value, hvalue⟩, -⟩
    simp [hread] at hvalue
  obtain ⟨hanswer, -, hdefined, hother⟩ := run_depends_on_names Draft.build_standard hs hs' hagree
  obtain ⟨hkept, hkept'⟩ := hother "z" hz
  exact ⟨⟨hs, hs', hagree⟩, hanswer, hdefined "y" ⟨⟨_, hread⟩, hrun⟩, hkept.trans (by decide),
    hkept'.trans (by decide)⟩

end Session

end Calculator
