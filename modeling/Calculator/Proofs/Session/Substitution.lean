/-
A variable means its definition.

After a name has been defined by a line, a second line has the same answer as it has
without the definition when the first line, in brackets, stands in it in the place of
the name.  Nothing is assumed of the first line but that it has a value; it may use
the name itself, for what it then means is the name's old value on both sides.

On the one side a text is changed, on the other the environment, and they are brought
together in the middle, at the tree.  The changed text is read to the tree in which
the variable has given way to the tree of the first line (`reading_replaceName`), and
that tree has the value, or the error, that the old one has after the definition
(`evaluate_replaceVar`).
-/
import Calculator.Proofs.Parser.Replacement
import Calculator.Proofs.Session.Reading

namespace Calculator

/-! ### The tree and the environment -/

/-- **Replacing a variable is binding it**, if what replaces it has a value. -/
theorem Tree.evaluate_replaceVar {env : Environment} {name : String} {value : Tree} {v : Int}
    (h : value.evaluate env = .ok v) (tree : Tree) :
    (tree.replaceVar name value).evaluate env = tree.evaluate (env.set name v) := by
  induction tree with
  | number digits => rfl
  | var x =>
      by_cases hx : name = x
      · simp [replaceVar, evaluate, Environment.value, ← hx, h]
      · simp [replaceVar, evaluate, Environment.value, hx, Ne.symm hx]
  | unary op operand ih => rw [replaceVar, evaluate, evaluate, ih]
  | binary op left right ihleft ihright => rw [replaceVar, evaluate, evaluate, ihleft, ihright]
  | define x tree => rfl

/-- The tree is an expression: it defines no name. -/
def Tree.IsExpression (tree : Tree) : Prop :=
  ∀ name value, tree ≠ .define name value

theorem Tree.IsExpression.replaceVar {tree value : Tree} (h : tree.IsExpression)
    (hvalue : value.IsExpression) (name : String) :
    (tree.replaceVar name value).IsExpression := by
  cases tree with
  | var x =>
      by_cases hx : x = name
      · simpa [Tree.replaceVar, hx] using hvalue
      · simp [Tree.replaceVar, hx, IsExpression]
  | define x value => exact absurd rfl (h x value)
  | number | unary | binary => simp [Tree.replaceVar, IsExpression]

/-- The line of such a tree has the value of the tree. -/
theorem Environment.answer_execute {tree : Tree} (h : tree.IsExpression) (env : Environment) :
    (env.execute tree).answer = (tree.evaluate env).map some := by
  unfold execute
  split
  · exact absurd rfl (h _ _)
  · split
    · rename_i hvalue
      rw [hvalue]
      rfl
    · rename_i herror
      rw [herror]
      rfl

/-- A line has a value exactly if its tree defines no name and has this value. -/
theorem Environment.answer_execute_eq_some_iff {env : Environment} {tree : Tree} {v : Int} :
    (env.execute tree).answer = .ok (some v) ↔ tree.IsExpression ∧ tree.evaluate env = .ok v := by
  have hvalue : tree.IsExpression → ((env.execute tree).answer = .ok (some v) ↔
      tree.evaluate env = .ok v) := by
    intro htree
    rw [answer_execute htree]
    cases tree.evaluate env <;> simp [Except.map]
  constructor
  · intro h
    have htree : tree.IsExpression := by
      intro name value hdefine
      rw [hdefine, execute] at h
      split at h <;> cases h
    exact ⟨htree, (hvalue htree).1 h⟩
  · intro h
    exact (hvalue h.1).2 h.2

/-! ### The text and the tree -/

namespace Table

variable {table : Table} {name : String}

/-- A text that is read to no definition is a writing of a chain. -/
theorem exists_isChain_of_reading (hs : table.Sound) (ho : table.grammar.Orderly) {text : String}
    {tree : Tree} (h : (table.reading text).answer = .ok (some tree)) (htree : tree.IsExpression) :
    ∃ ts, table.Writes ts text ∧ table.grammar.IsChain ts (.bare .stop) tree := by
  obtain ⟨ts, hwrites, hline⟩ := (reading_eq_ok_iff hs ho).1 h
  cases hline with
  | expression hchain => exact ⟨ts, hwrites, hchain⟩
  | definition => exact absurd rfl (htree _ _)

/-- **The definition of a name by a text** is read to the definition of it by the tree. -/
theorem reading_definition (hs : table.Sound) (ho : table.grammar.Orderly)
    (hname : Token.isIdentifier name = true ∧ name ≠ keyword) {text : String} {tree : Tree}
    (h : (table.reading text).answer = .ok (some tree)) (htree : tree.IsExpression) :
    (table.reading ("let " ++ name ++ " = " ++ text)).answer = .ok (some (.define name tree)) := by
  obtain ⟨ts, hwrites, hchain⟩ := exists_isChain_of_reading hs ho h htree
  have htext : "let " ++ name ++ " = " ++ text = "let " ++ name ++ " =" ++ (" " ++ text) := by
    have hequals : " = " = " =" ++ " " := rfl
    rw [hequals]
    simp only [String.append_assoc]
  rw [htext]
  exact (reading_eq_ok_iff hs ho).2 ⟨_, hwrites.space.definition hname,
    .definition (x := ⟨.name, name⟩) rfl rfl rfl hchain⟩

/-- **A text in which a name gives way to another text in brackets is a writing**, of the tokens in
which the name gives way to those of the other text. -/
theorem Writes.replaceName (hs : table.Sound) {us ts : List Token} {first second : String}
    (hfirst : table.Writes us first) (hsecond : table.Writes ts second) :
    table.Writes (replaceTokens name us ts)
      (table.lexicon.replaceName name ("(" ++ first ++ ")") second) := by
  obtain ⟨inner, hinner⟩ := hfirst.writing
  obtain ⟨gap, hwriting⟩ := hsecond.writing
  refine ⟨wellFormed_replaceTokens hfirst.wellFormed hsecond.wellFormed, gap, ?_⟩
  simpa [Lexicon.replaceName] using hinner.replaceIn hs.lexable hwriting hsecond.wellFormed

/-- **A name in a text may give way to a text in brackets**, and the variable then gives way to its
tree. -/
theorem reading_replaceName (hs : table.Sound) (ho : table.grammar.Orderly)
    {first second : String} {value tree : Tree}
    (hfirst : (table.reading first).answer = .ok (some value)) (hvalue : value.IsExpression)
    (hsecond : (table.reading second).answer = .ok (some tree)) (htree : tree.IsExpression) :
    (table.reading (table.lexicon.replaceName name ("(" ++ first ++ ")") second)).answer
      = .ok (some (tree.replaceVar name value)) := by
  obtain ⟨us, hwrites, hchain⟩ := exists_isChain_of_reading hs ho hfirst hvalue
  obtain ⟨ts, hwrites', hchain'⟩ := exists_isChain_of_reading hs ho hsecond htree
  exact (reading_eq_ok_iff hs ho).2
    ⟨_, hwrites.replaceName hs hwrites', .expression (hchain.replace rfl hchain')⟩

end Table

/-! ### Two lines and one -/

namespace Session

variable {s : Session} {table : Table}

/-- A line that has a value is read to a tree that has it. -/
theorem Uses.exists_value_of_run (hs : s.Uses table) {text : String} {v : Int}
    (h : (s.run text).answer = .ok (some v)) :
    ∃ value, (table.reading text).answer = .ok (some value) ∧ value.IsExpression ∧
      value.evaluate s.env = .ok v := by
  cases hread : (s.read text).answer with
  | error f => simp [Session.run, hread] at h
  | ok tree? =>
      cases tree? with
      | none => simp [Session.run, hread, Session.execute?] at h
      | some value =>
          have hreading : (table.reading text).answer = .ok (some value) :=
            hs.read_eq_ok_iff.1 hread
          have hok : (s.env.execute value).answer = .ok (some v) := by
            rw [(hs.run_eq_execute hreading).1] at h
            exact mapError_eq_ok_iff.1 h
          exact ⟨value, hreading, Environment.answer_execute_eq_some_iff.1 hok⟩

/-- A line that is read to no definition has the answer of its tree. -/
theorem Uses.answer_run (hs : s.Uses table) {text : String} {tree : Tree}
    (h : (table.reading text).answer = .ok (some tree)) (htree : tree.IsExpression) :
    (s.run text).answer = ((tree.evaluate s.env).map some).mapError .ofValue := by
  rw [(hs.run_eq_execute h).1, ← Environment.answer_execute htree]
  rfl

/-- **A variable means its definition.**  If a line has a value, then a second one has the same
answer after a name has been defined by the first line as it has before that, with the first line in
brackets in the place of the name. -/
theorem run_replaceName {d : Draft} {table : Table} (hb : d.build = .ok table) {s : Session}
    (hs : s.Uses table) {name : String} (hname : Token.isIdentifier name = true ∧ name ≠ keyword)
    {first second : String} {v : Int} {tree : Tree} (hfirst : (s.run first).answer = .ok (some v))
    (hsecond : (s.read second).answer = .ok (some tree)) (htree : tree.IsExpression) :
    (s.run ("let " ++ name ++ " = " ++ first)).answer = .ok none ∧
      ((s.run ("let " ++ name ++ " = " ++ first)).session.run second).answer
        = (s.run (table.lexicon.replaceName name ("(" ++ first ++ ")") second)).answer := by
  have ht : table.Sound := Draft.sound_of_build hb
  have ho : table.grammar.Orderly := Draft.orderly_of_build hb
  obtain ⟨value, hread, hvalue, hv⟩ := hs.exists_value_of_run hfirst
  have hread' : (table.reading second).answer = .ok (some tree) := hs.read_eq_ok_iff.1 hsecond
  obtain ⟨hanswer, henv⟩ := hs.run_eq_execute (Table.reading_definition ht ho hname hread hvalue)
  have hexecute : s.env.execute (.define name value)
      = ⟨.ok none, s.env.set name v, [.bound name v]⟩ := by
    simp [Environment.execute, hv]
  refine ⟨?_, ?_⟩
  · rw [hanswer, execute, hexecute]
    rfl
  · have hreplaced :
        (table.reading (table.lexicon.replaceName name ("(" ++ first ++ ")") second)).answer
          = .ok (some (tree.replaceVar name value)) :=
      Table.reading_replaceName ht ho hread hvalue hread' htree
    rw [hs.answer_run hreplaced (htree.replaceVar hvalue name), Tree.evaluate_replaceVar hv,
      (hs.run ht _).answer_run hread' htree, henv, execute, hexecute]

/-- A session in which two variables are bound, and the name of one begins the name of the other. -/
def twoBound : Session :=
  new .standard ((Environment.empty.set "x" 3).set "xx" 7)

theorem run_twoBound :
    (twoBound.Uses .standard ∧ (twoBound.run "2 * x - 1").answer = .ok (some 5)) ∧
      ((twoBound.run "let x = 2 * x - 1").session.run "xx - x ** 2").answer
        = (twoBound.run "xx - (2 * x - 1) ** 2").answer := by
  have hs : twoBound.Uses .standard := uses_new .standard _
  have hname : Token.isIdentifier "x" = true ∧ "x" ≠ keyword := by decide
  have hfirst : (twoBound.run "2 * x - 1").answer = .ok (some 5) :=
    eq_ok_of_toOption (by decide +kernel)
  have hsecond : (twoBound.read "xx - x ** 2").answer = .ok (some
      (.binary .sub (.var "xx") (.binary .pow (.var "x") (.number "2")))) :=
    eq_ok_of_toOption (by decide +kernel)
  have hdefinition : "let " ++ "x" ++ " = " ++ "2 * x - 1" = "let x = 2 * x - 1" := by decide
  have hreplaced : Table.standard.lexicon.replaceName "x" ("(" ++ "2 * x - 1" ++ ")") "xx - x ** 2"
      = "xx - (2 * x - 1) ** 2" := by decide +kernel
  obtain ⟨-, hanswer⟩ := run_replaceName Draft.build_standard hs hname hfirst hsecond
    (by simp [Tree.IsExpression])
  rw [hdefinition, hreplaced] at hanswer
  exact ⟨⟨hs, hfirst⟩, hanswer⟩

end Session

end Calculator
