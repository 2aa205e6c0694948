/-
Lines that share their variables.

A session is a line reader and an environment.  Each line is read from its own
beginning and evaluated in the environment that the lines before it left, so all that
a line hands on are the names it defines.  A line that is empty has no value, and one
that cannot be read is not evaluated.
-/
import Calculator.Failure
import Calculator.LineReader
import Calculator.Table.Standard
import Calculator.Text.Lines

namespace Calculator

/-- A line reader and an environment at work together. -/
structure Session where
  reader : LineReader Scanner
  env : Environment

namespace Session

/-- What a request to a session gives. -/
structure Outcome (α : Type) where
  answer : Except Failure α
  /-- The session afterwards. -/
  session : Session
  /-- What happened, in order. -/
  events : List Event

/-- A session with an operator table and some bindings. -/
def new (table : Table) (env : Environment) : Session where
  reader := .ofTable table
  env := env

/-- The session with the standard table in which nothing is bound. -/
def standard : Session :=
  new .standard .empty

/-- Reads a line. -/
def read (text : String) (s : Session) : Outcome (Option Tree) :=
  let done := (s.reader.reset text).readLine
  { answer := done.answer.mapError .ofReading
    session := { s with reader := done.reader }
    events := done.events }

/-- Evaluates the tree of a line. -/
def execute (tree : Tree) (s : Session) : Outcome (Option Int) :=
  let done := s.env.execute tree
  { answer := done.answer.mapError .ofValue
    session := { s with env := done.env }
    events := done.events }

/-- Evaluates what a line was read to; an empty line has no value. -/
def execute? (tree? : Option Tree) (s : Session) : Outcome (Option Int) :=
  match tree? with
  | some tree => s.execute tree
  | none => ⟨.ok none, s, []⟩

/-- Reads a line and evaluates it. -/
def run (text : String) (s : Session) : Outcome (Option Int) :=
  let line := s.read text
  match line.answer with
  | .error e => ⟨.error e, line.session, line.events⟩
  | .ok tree? =>
    let done := line.session.execute? tree?
    { done with events := line.events ++ done.events }

/-- Runs lines up to the first failure; the answer is the value of the last line that had one, or
`last?` if there is none. -/
def runLines (last? : Option Int) : List String → Session → Except Failure (Option Int)
  | [], _ => .ok last?
  | text :: rest, s =>
    match (s.run text).answer with
    | .error e => .error e
    | .ok value? => runLines (value?.or last?) rest (s.run text).session

end Session

/-- Runs the lines of a text in a session of their own. -/
def runText (text : String) : Except Failure (Option Int) :=
  Session.standard.runLines none (Text.lines text)

end Calculator
