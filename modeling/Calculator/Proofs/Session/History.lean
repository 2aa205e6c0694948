/-
What a session keeps of its history.

A session serves three kinds of request: a line to run, a line to read, and a tree to
evaluate.  A `History` lists what they were, which tree was evaluated if it came to
that, in which bindings, and the reply.  Of all this only one thing lasts: a tree
that defines a name and has a value binds the name to it (`Entry.binding?`).
Everything else, failures of every kind included, could as well not have happened.

The reader's part of this is `Uses.read_eq`: behind a reset there is nothing left of
the line before, however it ended.  The evaluator's part is that it binds a name when
the value is known and not before (`env_execute`).  Together they say that two sessions
with the same table and the same bindings serve a request alike (`Uses.entry_eq`), and
a request that binds nothing leaves such a pair as it was.
-/
import Calculator.Proofs.Session.Line

namespace Calculator

/-! ### What a tree binds -/

/-- The name that the tree of a line binds, with its value, if it is a definition that succeeds. -/
def Tree.binding? (env : Environment) : Tree → Option (String × Int)
  | .define name value =>
    match value.evaluate env with
    | .ok v => some (name, v)
    | .error _ => none
  | _ => none

/-- The environment with a binding, if there is one. -/
def Environment.bind (env : Environment) (binding? : Option (String × Int)) : Environment :=
  binding?.elim env fun b => env.set b.1 b.2

/-- **Evaluating a tree changes the environment by its binding alone.** -/
theorem Environment.env_execute (env : Environment) (tree : Tree) :
    (env.execute tree).env = env.bind (tree.binding? env) := by
  cases tree with
  | define name value =>
      cases hvalue : value.evaluate env with
      | ok v => simp [execute, Tree.binding?, hvalue, bind]
      | error e => simp [execute, Tree.binding?, hvalue, bind]
  | number | var | unary | binary =>
      simp only [execute, Tree.binding?, bind, Option.elim_none]
      split <;> rfl

/-- What a tree binds is the name that it defines, to the value behind it. -/
theorem Tree.binding?_eq_some_iff {env : Environment} {tree : Tree} {name : String} {v : Int} :
    tree.binding? env = some (name, v) ↔
      ∃ value, tree = .define name value ∧ value.evaluate env = .ok v := by
  cases tree with
  | define x value =>
      constructor
      · intro h
        rw [binding?] at h
        split at h
        · rename_i w hvalue
          cases h
          exact ⟨value, rfl, hvalue⟩
        · cases h
      · rintro ⟨_, htree, hvalue⟩
        cases htree
        rw [binding?, hvalue]
  | number | var | unary | binary => simp [binding?]

/-- A tree binds a name exactly if it is a definition and its evaluation succeeds. -/
theorem Tree.isSome_binding?_iff {env : Environment} {tree : Tree} :
    (tree.binding? env).isSome = true ↔
      (∃ name value, tree = .define name value) ∧ ∃ x, (env.execute tree).answer = .ok x := by
  cases tree with
  | define name value =>
      cases hvalue : value.evaluate env with
      | ok v => simp [Environment.execute, binding?, hvalue]
      | error e => simp [Environment.execute, binding?, hvalue]
  | number | var | unary | binary => simp [binding?]

/-! ### Requests -/

/-- What a session can be asked. -/
inductive Request where
  /-- To read a line and evaluate it. -/
  | run (text : String)
  /-- To read a line. -/
  | read (text : String)
  /-- To evaluate a tree. -/
  | execute (tree : Tree)

/-- What a session replies. -/
inductive Reply where
  | value (answer : Except Failure (Option Int))
  | tree (answer : Except Failure (Option Tree))

/-- What happened at a request. -/
structure Entry where
  request : Request
  /-- The tree that was evaluated, if it came to that. -/
  tree? : Option Tree
  /-- The bindings in which it was evaluated. -/
  env : Environment
  reply : Reply

namespace Entry

/-- A definition was evaluated, with success. -/
def Declares (e : Entry) : Prop :=
  (∃ name value, e.tree? = some (.define name value)) ∧ ∃ x, e.reply = .value (.ok x)

/-- The name that was bound and its value. -/
def binding? (e : Entry) : Option (String × Int) :=
  e.tree?.bind (Tree.binding? e.env)

private theorem binding?_eq_some_iff {e : Entry} {name : String} {v : Int} :
    e.binding? = some (name, v) ↔
      ∃ value, e.tree? = some (.define name value) ∧ value.evaluate e.env = .ok v := by
  simp only [binding?, Option.bind_eq_some_iff, Tree.binding?_eq_some_iff]
  constructor
  · rintro ⟨tree, htree, value, rfl, hvalue⟩
    exact ⟨value, htree, hvalue⟩
  · rintro ⟨value, htree, hvalue⟩
    exact ⟨_, htree, value, rfl, hvalue⟩

end Entry

/-- Some entries are left out, none of which is a definition that succeeded. -/
inductive Pruned : List Entry → List Entry → Prop
  | nil : Pruned [] []
  | keep (e : Entry) {es kept : List Entry} (h : Pruned es kept) : Pruned (e :: es) (e :: kept)
  | drop {e : Entry} {es kept : List Entry} (he : ¬ e.Declares) (h : Pruned es kept) :
      Pruned (e :: es) kept

namespace Session

/-- The tree that a request evaluates, if it comes to that. -/
def evaluated? (s : Session) : Request → Option Tree
  | .run text =>
    match (s.read text).answer with
    | .ok tree? => tree?
    | .error _ => none
  | .read _ => none
  | .execute tree => some tree

/-- The reply to a request, and the session behind it. -/
def serve (s : Session) : Request → Reply × Session
  | .run text => (.value (s.run text).answer, (s.run text).session)
  | .read text => (.tree (s.read text).answer, (s.read text).session)
  | .execute tree => (.value (s.execute tree).answer, (s.execute tree).session)

/-- The entry of a request. -/
def entry (s : Session) (request : Request) : Entry where
  request := request
  tree? := s.evaluated? request
  env := s.env
  reply := (s.serve request).1

/-- What happens at some requests, one after the other. -/
def history (s : Session) : List Request → List Entry
  | [] => []
  | request :: rest => s.entry request :: (s.serve request).2.history rest

/-- The session behind some requests. -/
def final (s : Session) : List Request → Session
  | [] => s
  | request :: rest => (s.serve request).2.final rest

variable {s s' : Session} {table : Table}

/-! ### One request -/

theorem Uses.serve (hs : s.Uses table) (ht : table.Sound) (request : Request) :
    (s.serve request).2.Uses table := by
  cases request with
  | run text => exact hs.run ht text
  | read text => exact hs.read ht text
  | execute tree => exact hs.execute tree

/-- A line is read, and what it was read to is evaluated. -/
theorem run_eq (s : Session) (text : String) :
    (∃ f, (s.read text).answer = .error f ∧ (s.run text).answer = .error f ∧
      (s.run text).session = (s.read text).session) ∨
    ∃ tree?, (s.read text).answer = .ok tree? ∧
      (s.run text).answer = ((s.read text).session.execute? tree?).answer ∧
      (s.run text).session = ((s.read text).session.execute? tree?).session := by
  rw [run]
  split
  · rename_i f hread
    exact Or.inl ⟨f, hread, rfl, rfl⟩
  · rename_i tree? hread
    exact Or.inr ⟨tree?, hread, rfl, rfl⟩

/-- **A request changes the environment by its binding alone.** -/
theorem env_serve (s : Session) (request : Request) :
    (s.serve request).2.env = s.env.bind (s.entry request).binding? := by
  cases request with
  | run text =>
      show (s.run text).session.env = s.env.bind ((s.evaluated? (.run text)).bind _)
      rcases s.run_eq text with ⟨f, hread, -, hsession⟩ | ⟨tree?, hread, -, hsession⟩
      · rw [hsession, evaluated?, hread]
        rfl
      · rw [hsession, evaluated?, hread]
        cases tree? with
        | none => rfl
        | some tree => exact s.env.env_execute tree
  | read text => rfl
  | execute tree => exact s.env.env_execute tree

private theorem answer_execute_eq_ok_iff {tree : Tree} {x : Option Int} :
    (s.execute tree).answer = .ok x ↔ (s.env.execute tree).answer = .ok x :=
  mapError_eq_ok_iff

private theorem isSome_binding?_iff_of_none {e : Entry} (htree : e.tree? = none) :
    e.binding?.isSome = true ↔ e.Declares := by
  simp [Entry.binding?, Entry.Declares, htree]

private theorem isSome_binding?_iff_of_some {e : Entry} {tree : Tree} (htree : e.tree? = some tree)
    (henv : e.env = s.env) (hreply : e.reply = .value (s.execute tree).answer) :
    e.binding?.isSome = true ↔ e.Declares := by
  have hbinding : e.binding? = tree.binding? s.env := by
    rw [Entry.binding?, htree, henv]
    rfl
  have hsuccess : (∃ x, e.reply = .value (.ok x)) ↔
      ∃ x, (s.env.execute tree).answer = .ok x := by
    simp only [hreply, Reply.value.injEq, answer_execute_eq_ok_iff]
  rw [hbinding, Tree.isSome_binding?_iff, Entry.Declares, hsuccess, htree]
  simp only [Option.some.injEq]

/-- A request binds a name exactly if it evaluates a definition with success. -/
theorem isSome_binding?_entry_iff (s : Session) (request : Request) :
    (s.entry request).binding?.isSome = true ↔ (s.entry request).Declares := by
  cases request with
  | run text =>
      rcases s.run_eq text with ⟨f, hread, -, -⟩ | ⟨tree?, hread, hanswer, -⟩
      · have htree : s.evaluated? (.run text) = none := by rw [evaluated?, hread]
        exact isSome_binding?_iff_of_none htree
      · have htree : s.evaluated? (.run text) = tree? := by rw [evaluated?, hread]
        cases tree? with
        | none => exact isSome_binding?_iff_of_none htree
        | some tree =>
            have hreply : (s.entry (.run text)).reply
                = .value ((s.read text).session.execute tree).answer :=
              congrArg Reply.value hanswer
            exact isSome_binding?_iff_of_some htree rfl hreply
  | read text => exact isSome_binding?_iff_of_none rfl
  | execute tree => exact isSome_binding?_iff_of_some rfl rfl rfl

private theorem binding?_entry_eq_none_iff (s : Session) (request : Request) :
    (s.entry request).binding? = none ↔ ¬ (s.entry request).Declares := by
  rw [← Option.not_isSome_iff_eq_none, isSome_binding?_entry_iff]

/-- Behind the reset of a line two such sessions are one. -/
theorem Uses.read_congr (hs : s.Uses table) (hs' : s'.Uses table) (henv : s.env = s'.env)
    (text : String) : s.read text = s'.read text := by
  rw [hs.read_eq, hs'.read_eq, henv]

/-- **Nothing but the table and the bindings enters a reply.** -/
theorem Uses.entry_eq (hs : s.Uses table) (hs' : s'.Uses table) (henv : s.env = s'.env)
    (request : Request) : s.entry request = s'.entry request := by
  have hread : ∀ text, s.read text = s'.read text := hs.read_congr hs' henv
  have htree : s.evaluated? request = s'.evaluated? request := by
    cases request with
    | run text => rw [evaluated?, evaluated?, hread]
    | read text => rfl
    | execute tree => rfl
  have hreply : (s.serve request).1 = (s'.serve request).1 := by
    cases request with
    | run text => rw [Session.serve, Session.serve, Session.run, Session.run, hread]
    | read text => rw [Session.serve, Session.serve, hread]
    | execute tree => rw [Session.serve, Session.serve, Session.execute, Session.execute, henv]
  rw [entry, entry, htree, hreply, henv]

/-! ### All requests -/

/-- The bindings of a history, in order. -/
def bindings (es : List Entry) : List (String × Int) :=
  es.filterMap Entry.binding?

/-- **Some requests overwrite the environment with their bindings**, in order. -/
theorem env_final (s : Session) (requests : List Request) :
    (s.final requests).env
      = (bindings (s.history requests)).foldl (fun env b => env.set b.1 b.2) s.env := by
  induction requests generalizing s with
  | nil => rfl
  | cons request rest ih =>
      rw [final, ih, env_serve, history]
      show _ = ((s.entry request :: _).filterMap Entry.binding?).foldl _ _
      rw [List.filterMap_cons]
      cases (s.entry request).binding? <;> rfl

private theorem declares_iff_of_mem_history {e : Entry} {requests : List Request}
    (h : e ∈ s.history requests) : e.binding?.isSome = true ↔ e.Declares := by
  induction requests generalizing s with
  | nil => cases h
  | cons request rest ih =>
      rcases List.mem_cons.1 h with rfl | h
      · exact s.isSome_binding?_entry_iff request
      · exact ih h

/-- **What binds nothing can be left out.**  The two sessions serve the same requests but for those
that are left out; they have the same table and bindings before, and so they have after. -/
theorem Uses.history_of_pruned (ht : table.Sound) {requests : List Request} {kept : List Entry}
    (hs : s.Uses table) (hs' : s'.Uses table) (henv : s.env = s'.env)
    (h : Pruned (s.history requests) kept) :
    s'.history (kept.map Entry.request) = kept ∧
      (s'.final (kept.map Entry.request)).env = (s.final requests).env := by
  induction requests generalizing s s' kept with
  | nil =>
      cases h
      exact ⟨rfl, henv.symm⟩
  | cons request rest ih =>
      have hentry : s.entry request = s'.entry request := hs.entry_eq hs' henv request
      rw [history] at h
      cases h with
      | keep _ h =>
          -- Both sessions serve the request, and alike.
          have henv' : (s.serve request).2.env = (s'.serve request).2.env := by
            rw [env_serve, env_serve, hentry, henv]
          obtain ⟨hhistory, hfinal⟩ := ih (hs.serve ht request) (hs'.serve ht request) henv' h
          refine ⟨?_, hfinal⟩
          show s'.entry request :: (s'.serve request).2.history _ = _
          rw [hhistory, hentry]
      | drop he h =>
          -- Only the first session serves it, and keeps its bindings.
          have hnone : (s.entry request).binding? = none :=
            (s.binding?_entry_eq_none_iff request).2 he
          have henv' : (s.serve request).2.env = s'.env := by
            rw [env_serve, hnone, ← henv]
            rfl
          exact ih (hs.serve ht request) hs' henv' h

/-- **Only definitions that succeed leave a trace.**  Whatever else is left out of a history, the
requests that remain are served as before and lead to the same bindings.  There is one binding for
each definition that succeeded, of its name to its value, and behind all requests a name has the
value of the last one, or the value that it had in the beginning. -/
theorem only_definitions_last {d : Draft} {table : Table} (hb : d.build = .ok table)
    (env : Environment) (requests : List Request) :
    (∀ kept, Pruned ((new table env).history requests) kept →
      (new table env).history (kept.map Entry.request) = kept ∧
        ((new table env).final (kept.map Entry.request)).env
          = ((new table env).final requests).env) ∧
    (∀ x, ((new table env).final requests).env.lookup x
      = (((bindings ((new table env).history requests)).filter
          fun b => decide (b.1 = x)).getLast?.map Prod.snd).or (env.lookup x)) ∧
    ∀ e ∈ (new table env).history requests, (e.binding?.isSome = true ↔ e.Declares) ∧
      ∀ name v, e.binding? = some (name, v) ↔
        ∃ value, e.tree? = some (.define name value) ∧ value.evaluate e.env = .ok v := by
  have ht : table.Sound := Draft.sound_of_build hb
  refine ⟨?_, ?_, ?_⟩
  · intro kept h
    exact (uses_new table env).history_of_pruned ht (uses_new table env) rfl h
  · intro x
    rw [env_final]
    exact env.lookup_foldl_set _ x
  · intro e he
    exact ⟨declares_iff_of_mem_history he, fun name v => Entry.binding?_eq_some_iff⟩

/-- Two definitions of a name, and between them a line that breaks off, a definition that is only
read and one whose value is not known. -/
def mixed : List Request :=
  [.run "let x = 1", .run "(x +", .read "let x = 3", .execute (.define "x" (.var "y")),
    .run "let x = x + 1", .run "x * x"]

theorem mixed_keeps_definition :
    Draft.standard.build = .ok .standard ∧
      ∃ kept, Pruned (standard.history mixed) kept ∧
        standard.history [.run "let x = 1", .run "let x = x + 1", .run "x * x"] = kept ∧
        (standard.final [.run "let x = 1", .run "let x = x + 1", .run "x * x"]).env
          = (standard.final mixed).env ∧
        (standard.final mixed).env.lookup "x" = some 2 ∧
        ∀ y, y ≠ "x" → (standard.final mixed).env.lookup y = none := by
  have hdrop : ∀ (s : Session) (request : Request), (s.entry request).binding? = none →
      ¬ (s.entry request).Declares :=
    fun s request => (s.binding?_entry_eq_none_iff request).1
  have hpruned : ∃ kept, Pruned (standard.history mixed) kept ∧
      kept.map Entry.request = [.run "let x = 1", .run "let x = x + 1", .run "x * x"] := by
    refine ⟨_, .keep _ (.drop (hdrop _ _ ?_) (.drop (hdrop _ _ ?_) (.drop (hdrop _ _ ?_)
      (.keep _ (.keep _ .nil))))), rfl⟩
    all_goals decide +kernel
  obtain ⟨kept, hkept, hrequests⟩ := hpruned
  obtain ⟨hlast, hlookup, -⟩ := only_definitions_last Draft.build_standard .empty mixed
  obtain ⟨hhistory, hfinal⟩ := hlast kept hkept
  rw [hrequests] at hhistory hfinal
  have hx : bindings ((new Table.standard .empty).history mixed) = [("x", 1), ("x", 2)] := by
    decide +kernel
  rw [hx] at hlookup
  refine ⟨Draft.build_standard, kept, hkept, hhistory, hfinal, hlookup "x", ?_⟩
  intro y hy
  refine (hlookup y).trans ?_
  rw [List.filter_eq_nil_iff.2 (by simpa using hy.symm)]
  exact Environment.lookup_empty y

end Session

end Calculator
