/-
All ways of running lines run the same program.

A file is run to its end and what is written adds up, a dialogue puts a prompt before
each line and ends at a farewell, and a text that is run for its value stops at the
first failure.  What a line does is the same in all three, because a line depends on
nothing but its text and the session that it finds, and no matter how it ends it leaves
the same session to the next.  So everything is said here in terms of the visits of a
session: the lines in their order, each with the session that it finds.

A line that is handled is read and then evaluated, with its tree shown in between.
`respond_eq` is that this is running the line, and the rest follows the three loops.
-/
import Calculator.Proofs.CommandLine.Input
import Calculator.Proofs.Session.Failures

namespace Calculator

open CommandLine

/-! ### Visits -/

/-- A line and the session that it finds. -/
structure Visit where
  line : String
  session : Session

namespace Visit

/-- What running the line gives. -/
def answer (v : Visit) : Except Failure (Option Int) :=
  (v.session.run v.line).answer

/-- The value that an answer gives, if it gives one. -/
def valueOf : Except Failure (Option Int) → Option Int
  | .ok value? => value?
  | .error _ => none

/-- The failure that an answer gives, if it gives one. -/
def failureOf : Except Failure (Option Int) → Option Failure
  | .ok _ => none
  | .error e => some e

/-- The value of the line, if it has one. -/
def value? (v : Visit) : Option Int :=
  valueOf v.answer

/-- What is wrong with the line, if anything is. -/
def failure? (v : Visit) : Option Failure :=
  failureOf v.answer

/-- If the line fails, the line is at fault and not the program. -/
def AtFault (v : Visit) : Prop :=
  ∀ e, v.answer = .error e → e.isInternal = false

/-- The tree of the line on a line of its own, if it has one and trees are to be shown. -/
def shown (verbose : Bool) (v : Visit) : String :=
  match (v.session.read v.line).answer with
  | .ok (some tree) => if verbose then tree.render ++ "\n" else ""
  | .ok none | .error _ => ""

/-- What is written for the line. -/
def output (verbose : Bool) (v : Visit) : Output :=
  (respond verbose v.line v.session).1

end Visit

namespace Session

/-- The visits of a session that runs lines one after the other. -/
def visits (s : Session) : List String → List Visit
  | [] => []
  | line :: rest => ⟨line, s⟩ :: (s.run line).session.visits rest

/-- Every line is visited. -/
private theorem map_line_visits (s : Session) (lines : List String) :
    (s.visits lines).map Visit.line = lines := by
  induction lines generalizing s with
  | nil => rfl
  | cons line rest ih => rw [visits, List.map_cons, ih]

/-- Every visit finds the table that the session began with. -/
theorem Uses.of_mem_visits {table : Table} (ht : table.Sound) {lines : List String} {v : Visit}
    {s : Session} (hs : s.Uses table) (h : v ∈ s.visits lines) : v.session.Uses table := by
  induction lines generalizing s with
  | nil => cases h
  | cons line rest ih =>
      rcases List.mem_cons.1 h with rfl | h
      · exact hs
      · exact ih (hs.run ht line) h

/-! ### A text that is run for its value -/

/-- Running lines up to the first failure gives this failure, or else the last value. -/
private theorem runLines_eq (last? : Option Int) (lines : List String) (s : Session) :
    s.runLines last? lines = match (s.visits lines).findSome? Visit.failure? with
      | some e => .error e
      | none => .ok (((s.visits lines).filterMap Visit.value?).getLast?.or last?) := by
  induction lines generalizing last? s with
  | nil => rfl
  | cons line rest ih =>
      have hfailure : Visit.failure? ⟨line, s⟩ = Visit.failureOf (s.run line).answer := rfl
      have hvalue : Visit.value? ⟨line, s⟩ = Visit.valueOf (s.run line).answer := rfl
      -- The value of a line takes the place of an earlier one only if there is one.
      unfold runLines
      rw [visits, List.findSome?_cons, List.filterMap_cons, hfailure, hvalue]
      cases (s.run line).answer with
      | error e => rfl
      | ok value? =>
          simp only [ih, Visit.failureOf, Visit.valueOf]
          cases value? with
          | none => rfl
          | some value =>
              simp only [Option.some_or, List.getLast?_cons]
              cases ((s.run line).session.visits rest).filterMap Visit.value? |>.getLast? <;> rfl

end Session

namespace CommandLine

/-! ### What is written -/

namespace Output

private theorem out_append (text : String) (o : Output) :
    .out text ++ o = ⟨text ++ o.stdout, o.stderr⟩ := by
  show Output.mk (text ++ o.stdout) ("" ++ o.stderr) = _
  rw [String.empty_append]

private theorem err_append (text : String) (o : Output) :
    .err text ++ o = ⟨o.stdout, text ++ o.stderr⟩ := by
  show Output.mk ("" ++ o.stdout) (text ++ o.stderr) = _
  rw [String.empty_append]

/-- No text is nothing. -/
private theorem err_empty_append (o : Output) : .err "" ++ o = o := by
  rw [err_append, String.empty_append]

end Output

/-! ### One line -/

/-- **Handling a line is running it**, with its tree before its answer if that is shown. -/
theorem respond_eq (verbose : Bool) (line : String) (s : Session) :
    respond verbose line s
      = (.err (Visit.shown verbose ⟨line, s⟩) ++ showAnswer (s.run line).answer,
          (s.run line).session) := by
  unfold respond Session.run Visit.shown
  -- Both ask what the line was read to, and only a tree is evaluated.
  cases hread : (s.read line).answer with
  | error e => simp only [hread, Output.err_empty_append]
  | ok tree? =>
      cases tree? with
      | none => simp only [hread, Session.execute?, Output.err_empty_append]
      | some tree =>
          simp only [hread, Session.execute?]
          cases verbose <;> rfl

/-- A line that is handled leaves the session that running it leaves. -/
theorem snd_respond (verbose : Bool) (line : String) (s : Session) :
    (respond verbose line s).2 = (s.run line).session := by
  rw [respond_eq]

/-- What is written for a line is what its answer says, behind its tree if that is shown. -/
theorem output_eq (verbose : Bool) (v : Visit) :
    v.output verbose = .err (v.shown verbose) ++ showAnswer v.answer := by
  rw [Visit.output, respond_eq]
  rfl

/-- A value is written on standard output. -/
theorem output_of_value {v : Visit} {value : Int} (verbose : Bool)
    (h : v.answer = .ok (some value)) :
    v.output verbose = ⟨Decimal.render value ++ "\n", v.shown verbose⟩ := by
  rw [output_eq, h, Output.err_append]
  show Output.mk (_ ++ "\n") (_ ++ "") = _
  rw [String.append_empty]

/-- For no value nothing is written. -/
theorem output_of_none {v : Visit} (verbose : Bool) (h : v.answer = .ok none) :
    v.output verbose = ⟨"", v.shown verbose⟩ := by
  rw [output_eq, h, Output.err_append]
  show Output.mk "" (_ ++ "") = _
  rw [String.append_empty]

/-- A failure of the line is reported on standard error, by a heading and its wording. -/
theorem output_of_error {v : Visit} {e : Failure} (verbose : Bool) (h : v.answer = .error e)
    (he : e.isInternal = false) :
    v.output verbose
      = ⟨"", v.shown verbose ++ ("something went wrong...\n" ++ e.message ++ "\n")⟩ := by
  rw [output_eq, h, showAnswer, showFailure_eq he, Output.err_append]
  rfl

/-- On standard output a line writes its value and nothing else. -/
private theorem stdout_output (verbose : Bool) {v : Visit} (hv : v.AtFault) :
    (v.output verbose).stdout
      = (v.value?.map fun value => Decimal.render value ++ "\n").getD "" := by
  cases hanswer : v.answer with
  | error e =>
      rw [output_of_error verbose hanswer (hv e hanswer), Visit.value?, hanswer]
      rfl
  | ok value? =>
      cases value? with
      | none =>
          rw [output_of_none verbose hanswer, Visit.value?, hanswer]
          rfl
      | some value =>
          rw [output_of_value verbose hanswer, Visit.value?, hanswer]
          rfl

/-- Where no tree is shown, a line writes on standard error exactly if it fails. -/
private theorem stderr_output_eq_empty_iff {v : Visit} (hv : v.AtFault) :
    (v.output false).stderr = "" ↔ v.failure? = none := by
  have hshown : v.shown false = "" := by
    unfold Visit.shown
    split <;> rfl
  cases hanswer : v.answer with
  | error e =>
      rw [output_of_error false hanswer (hv e hanswer), hshown, Visit.failure?, hanswer]
      simp [Visit.failureOf]
  | ok value? =>
      cases value? with
      | none => simp [output_of_none false hanswer, hshown, Visit.failure?, hanswer, Visit.failureOf]
      | some value =>
          simp [output_of_value false hanswer, hshown, Visit.failure?, hanswer, Visit.failureOf]

/-! ### The loops -/

/-- What is written for some visits, one after the other. -/
theorem respondAll_eq (verbose : Bool) (lines : List String) (s : Session) :
    respondAll verbose lines s
      = ⟨String.join ((s.visits lines).map fun v => (v.output verbose).stdout),
          String.join ((s.visits lines).map fun v => (v.output verbose).stderr)⟩ := by
  induction lines generalizing s with
  | nil => rfl
  | cons line rest ih =>
      rw [respondAll, Session.visits, List.map_cons, List.map_cons, String.join_cons,
        String.join_cons, snd_respond, ih]
      rfl

/-- A dialogue puts a prompt before each line, and one behind the last that is no farewell. -/
theorem dialogue_eq (verbose : Bool) (lines : List String) (s : Session) :
    dialogue verbose false lines s
      = ⟨0, ⟨String.join (((s.visits lines).takeWhile fun v => !isFarewell v.line).map fun v =>
              prompt ++ (v.output verbose).stdout) ++ prompt,
            String.join (((s.visits lines).takeWhile fun v => !isFarewell v.line).map fun v =>
              (v.output verbose).stderr)⟩⟩ := by
  induction lines generalizing s with
  | nil => rfl
  | cons line rest ih =>
      -- A farewell is not handled, and ends the dialogue behind its prompt.
      by_cases hfarewell : isFarewell line = true
      · simp only [dialogue, turn, if_pos hfarewell, Session.visits]
        rw [List.takeWhile_cons_of_neg (by simpa using hfarewell)]
        rfl
      · have hturn : turn verbose (some line) s
            = ((respond verbose line s).1, some (s.run line).session) := by
          simp only [turn, if_neg hfarewell, snd_respond]
        rw [dialogue, hturn]
        simp only [ih, Session.visits]
        rw [List.takeWhile_cons_of_pos (by simpa using hfarewell), List.map_cons, List.map_cons,
          String.join_cons, String.join_cons, String.append_assoc, Output.out_append]
        rfl

/-- What is written for some visits on standard output is their values. -/
private theorem join_stdout_output (verbose : Bool) {visits : List Visit}
    (h : ∀ v ∈ visits, v.AtFault) :
    String.join (visits.map fun v => (v.output verbose).stdout)
      = String.join ((visits.filterMap Visit.value?).map fun value =>
          Decimal.render value ++ "\n") := by
  induction visits with
  | nil => rfl
  | cons v rest ih =>
      obtain ⟨hv, hrest⟩ := List.forall_mem_cons.1 h
      rw [List.map_cons, String.join_cons, stdout_output verbose hv, ih hrest]
      cases hvalue : v.value? with
      | none =>
          rw [List.filterMap_cons_none hvalue]
          exact String.empty_append
      | some value =>
          rw [List.filterMap_cons_some hvalue, List.map_cons, String.join_cons]
          rfl

/-- Where no trees are shown, standard error is empty exactly if no line fails. -/
private theorem join_stderr_output_eq_empty_iff {visits : List Visit}
    (h : ∀ v ∈ visits, v.AtFault) :
    String.join (visits.map fun v => (v.output false).stderr) = "" ↔
      visits.findSome? Visit.failure? = none := by
  induction visits with
  | nil => simp
  | cons v rest ih =>
      obtain ⟨hv, hrest⟩ := List.forall_mem_cons.1 h
      rw [List.map_cons, String.join_cons, String.append_eq_empty_iff, ih hrest,
        stderr_output_eq_empty_iff hv, List.findSome?_cons]
      cases v.failure? <;> simp

end CommandLine

/-- Running a text for its value is visiting its lines in a session of their own. -/
theorem runText_eq (text : String) :
    runText text = match (Session.standard.visits (Text.lines text)).findSome? Visit.failure? with
      | some e => .error e
      | none =>
        .ok ((Session.standard.visits (Text.lines text)).filterMap Visit.value?).getLast? := by
  rw [runText, Session.runLines_eq]
  split <;> simp

/-! ### The front ends -/

namespace CommandLine

/-- What a run of a file and a dialogue leave that visit the same lines. -/
structure Alike (verbose : Bool) (visits : List Visit) (ofFile ofTalk : Exit) : Prop where
  /-- For a file the output of every line is written, whether the line fails or not. -/
  file : ofFile = ⟨0, ⟨String.join (visits.map fun v => (v.output verbose).stdout),
    String.join (visits.map fun v => (v.output verbose).stderr)⟩⟩
  /-- In a dialogue the same is written for every line before the first farewell, with a prompt
  before each of them and one more at the end. -/
  talk : ofTalk =
    let said := visits.takeWhile fun v => !decide (Text.trim v.line.toList = ":exit".toList)
    ⟨0, ⟨String.join (said.map fun v => ">>> " ++ (v.output verbose).stdout) ++ ">>> ",
      String.join (said.map fun v => (v.output verbose).stderr)⟩⟩
  /-- For a line with a value, this is printed. -/
  value : ∀ v ∈ visits, ∀ value, v.answer = .ok (some value) →
    v.output verbose = ⟨Decimal.render value ++ "\n", v.shown verbose⟩
  /-- For any other line that succeeds, nothing is. -/
  nothing : ∀ v ∈ visits, v.answer = .ok none → v.output verbose = ⟨"", v.shown verbose⟩
  /-- For a line that fails, a heading and the wording of its failure are reported. -/
  report : ∀ v ∈ visits, ∀ e, v.answer = .error e → v.output verbose
    = ⟨"", v.shown verbose ++ ("something went wrong...\n" ++ e.message ++ "\n")⟩
  /-- A failure is one of the line, never of the program. -/
  failure : ∀ v ∈ visits, ∀ e, v.answer = .error e → e.isInternal = false
  /-- What is printed for a file are the values of its lines. -/
  printed : ofFile.output.stdout
    = String.join ((visits.filterMap Visit.value?).map fun value => Decimal.render value ++ "\n")
  /-- Where no trees are shown, something is reported for a file exactly if a line fails. -/
  reported : verbose = false →
    (ofFile.output.stderr = "" ↔ visits.findSome? Visit.failure? = none)

/-- **All front ends run the same program.**  Whatever bindings a request has and whether or not it
shows trees, with a file and without one it visits the same lines in the same sessions, if the text
is the same, and writes the same for them; in the first session each name has the last value that
the request gives it.  Without bindings, running the text for its value gives the first failure
among these lines, or the last value if there is none. -/
theorem front_ends_alike {r : Request} (hr : r.expr? = none) {files : String → Option ByteArray}
    {path text : String} (htext : files path = some text.toUTF8)
    (files' : String → Option ByteArray) (stdin : ByteArray) :
    let visits := (Session.new .standard (.ofList r.bindings)).visits (Text.lines text)
    visits.map Visit.line = Text.lines text ∧
    (∀ x, (Environment.ofList r.bindings).lookup x
      = (r.bindings.filter fun b => decide (b.1 = x)).getLast?.map Prod.snd) ∧
    Alike r.verbose visits ({ r with file? := some path }.run files stdin)
      ({ r with file? := none }.run files' text.toUTF8) ∧
    (r.bindings = [] →
      (∀ value?, runText text = .ok value? ↔ visits.findSome? Visit.failure? = none ∧
        value? = (visits.filterMap Visit.value?).getLast?) ∧
      ∀ e, runText text = .error e ↔ visits.findSome? Visit.failure? = some e) := by
  intro visits
  have hfile : { r with file? := some path }.run files stdin
      = ⟨0, respondAll r.verbose (Text.lines text) (.new .standard (.ofList r.bindings))⟩ := by
    simp only [Request.run, hr, Request.runFile, htext, Option.bind_some, fromUTF8?_toUTF8,
      Request.session]
  have htalk : { r with file? := none }.run files' text.toUTF8
      = dialogue r.verbose false (Text.lines text) (.new .standard (.ofList r.bindings)) := by
    simp only [Request.run, hr, Input.ofBytes_toUTF8, Request.session]
  have hfault : ∀ v ∈ visits, v.AtFault := by
    intro v hv e he
    have hs : Table.standard.Sound := Draft.sound_of_build Draft.build_standard
    have huses : v.session.Uses .standard := (Session.uses_new _ _).of_mem_visits hs hv
    exact (huses.isOfLine_run hs Table.standard_not_orphan he).isInternal_eq_false
  rw [respondAll_eq] at hfile
  rw [dialogue_eq] at htalk
  refine ⟨Session.map_line_visits _ _, Environment.lookup_ofList r.bindings,
    ⟨hfile, htalk, ?_, ?_, ?_, hfault, ?_, ?_⟩, ?_⟩
  · intro v _ value hvalue
    exact output_of_value r.verbose hvalue
  · intro v _ hnone
    exact output_of_none r.verbose hnone
  · intro v hv e he
    exact output_of_error r.verbose he (hfault v hv e he)
  · rw [hfile]
    exact join_stdout_output r.verbose hfault
  · intro hverbose
    rw [hfile, hverbose]
    exact join_stderr_output_eq_empty_iff hfault
  · intro hbindings
    have hvisits : Session.standard.visits (Text.lines text) = visits := by
      show _ = (Session.new .standard (.ofList r.bindings)).visits _
      rw [hbindings]
      rfl
    rw [runText_eq, hvisits]
    cases visits.findSome? Visit.failure? with
    | none => simp [eq_comm]
    | some e => simp

/-- A text with lines of all sorts: values, a definition, an empty line, failures of each stage, and
a farewell with blanks around it.  The lines end in different ways, the last one not at all. -/
def sums : String :=
  "x / 4\r\nlet y = x\n\ny ** -1\n2\r* y\r\n)\ny + x\n\t:exit \nlet x = 0\r\ny / x\n9\r"

/-- The files of a machine that has one. -/
def oneFile (name text path : String) : Option ByteArray :=
  if path = name then some text.toUTF8 else none

/-- What is reported of the lines of a dialogue, behind the trees that are shown. -/
def sumsReport : String :=
  "(DIV x 4)\n(LET y x)\n(POWER y (MINUS 1))\n"
    ++ "something went wrong...\nexecution problem: arithmetic exception happened\n"
    ++ "something went wrong...\nunexpected input: '\r* y'\n"
    ++ "something went wrong...\nunexpected token: ')'\n(PLUS y x)\n"

theorem front_ends_alike_sums :
    (∃ r : Request, (r.expr? = none ∧ oneFile "sums.txt" sums "sums.txt" = some sums.toUTF8) ∧
      r.verbose = true ∧ r.bindings = [("x", 10), ("x", 12)] ∧
      ({ r with file? := some "sums.txt" }.run (oneFile "sums.txt" sums) .empty).output.stdout
        = "3\n24\n" ∧
      ({ r with file? := none }.run (oneFile "" "") sums.toUTF8).output
        = ⟨">>> 3\n>>> >>> >>> >>> >>> >>> 24\n>>> ", sumsReport⟩) ∧
    runText sums = .error (.value (.unbound "x")) := by
  have htext : oneFile "sums.txt" sums "sums.txt" = some sums.toUTF8 := rfl
  obtain ⟨-, -, halike, -⟩ := front_ends_alike (r := ⟨none, none, true, [("x", 10), ("x", 12)]⟩) rfl
    htext (oneFile "" "") .empty
  obtain ⟨-, -, -, hvalue⟩ := front_ends_alike (r := ⟨none, none, false, []⟩) rfl
    htext (oneFile "" "") .empty
  refine ⟨⟨⟨none, none, true, [("x", 10), ("x", 12)]⟩, ⟨rfl, htext⟩, rfl, rfl, ?_, ?_⟩, ?_⟩
  · rw [halike.printed]
    decide +kernel
  · rw [halike.talk]
    decide +kernel
  · refine ((hvalue rfl).2 _).2 ?_
    decide +kernel

end CommandLine

end Calculator
