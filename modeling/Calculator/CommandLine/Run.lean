/-
A run of the program.

What a run writes depends on its arguments, on the bytes of its standard input and on
the files it can read; everything else is here.  A line is answered by its value, or
by a report of what is wrong with it, and the next line runs in any case.  Lines come
from the arguments, from a file, or from standard input with a prompt before each; the
three differ in where the lines come from and in the prompt, and in nothing else.
-/
import Calculator.CommandLine.Arguments
import Calculator.CommandLine.Inspection
import Calculator.Session

namespace Calculator.CommandLine

/-! ### What is written -/

/-- What has been written. -/
structure Output where
  stdout : String
  stderr : String
deriving DecidableEq

namespace Output

/-- Nothing. -/
def none : Output where
  stdout := ""
  stderr := ""

/-- Text on standard output. -/
def out (text : String) : Output :=
  { none with stdout := text }

/-- Text on standard error. -/
def err (text : String) : Output :=
  { none with stderr := text }

instance : Append Output where
  append a b := ⟨a.stdout ++ b.stdout, a.stderr ++ b.stderr⟩

end Output

/-- What a run leaves: its output and its exit code. -/
structure Exit where
  code : Nat
  output : Output
deriving DecidableEq

/-! ### One line -/

/-- The report of a failure: an internal one in full, for those who can mend it, and any other one
by its wording. -/
def showFailure (e : Failure) : Output :=
  match e.inspect? with
  | some text =>
    .err ("It looks like some internal problem appeared. Please let the developers know about it.\n"
      ++ text ++ "\n")
  | none => .err ("something went wrong...\n" ++ e.message ++ "\n")

/-- A failure that is no internal one is reported by its wording. -/
theorem showFailure_eq {e : Failure} (h : e.isInternal = false) :
    showFailure e = .err ("something went wrong...\n" ++ e.message ++ "\n") := by
  rw [← e.isSome_inspect?, Option.isSome_eq_false_iff, Option.isNone_iff_eq_none] at h
  rw [showFailure, h]

/-- What is written for the answer of a line. -/
def showAnswer : Except Failure (Option Int) → Output
  | .ok (some value) => .out (Decimal.render value ++ "\n")
  | .ok none => .none
  | .error e => showFailure e

/-- What is written for the tree of a line. -/
def showTree (tree : Tree) : Output :=
  .err (tree.render ++ "\n")

/-- Handles a line: what is written for it, and the session afterwards.  Its tree is shown before it
is evaluated. -/
def respond (verbose : Bool) (text : String) (s : Session) : Output × Session :=
  let line := s.read text
  match line.answer with
  | .error e => (showAnswer (.error e), line.session)
  | .ok none => (showAnswer (.ok none), line.session)
  | .ok (some tree) =>
    let done := line.session.execute tree
    ((if verbose then showTree tree else .none) ++ showAnswer done.answer, done.session)

/-- Runs lines one after the other. -/
def respondAll (verbose : Bool) : List String → Session → Output
  | [], _ => .none
  | text :: rest, s =>
    (respond verbose text s).1 ++ respondAll verbose rest (respond verbose text s).2

/-! ### A dialogue -/

/-- What is written before a line is read. -/
def prompt : String :=
  ">>> "

/-- A line that ends the dialogue. -/
def isFarewell (text : String) : Bool :=
  decide (Text.trim text.toList = ":exit".toList)

/-- One turn of the dialogue behind its prompt: what is written for the line, and the session if
the dialogue goes on.  Without a line it ends. -/
def turn (verbose : Bool) (text? : Option String) (s : Session) : Output × Option Session :=
  match text? with
  | none => (.none, none)
  | some text =>
    if isFarewell text then (.none, none)
    else ((respond verbose text s).1, some (respond verbose text s).2)

/-- The lines of standard input, up to the first that is not text. -/
structure Input where
  lines : List String
  /-- A line follows that is not text. -/
  broken : Bool
deriving DecidableEq

/-- The byte of a newline. -/
def newline : UInt8 :=
  10

/-- The byte of a return. -/
def ret : UInt8 :=
  13

namespace Input

/-- Lines that may not be text, up to the first that is not. -/
def ofLines : List (List UInt8) → Input
  | [] => ⟨[], false⟩
  | line :: rest =>
    match String.fromUTF8? ⟨line.toArray⟩ with
    | some text => { ofLines rest with lines := text :: (ofLines rest).lines }
    | none => ⟨[], true⟩

/-- The lines of any bytes, which are cut before it is known whether they are text. -/
def ofBytes (bytes : ByteArray) : Input :=
  ofLines (Text.cutLines newline ret bytes.toList)

end Input

/-- The report of a line that is not text. -/
def unreadableInput : String :=
  "Failed to read input: stream did not contain valid UTF-8\n"

/-- The whole dialogue. -/
def dialogue (verbose broken : Bool) : List String → Session → Exit
  | [], _ =>
    if broken then ⟨1, .out prompt ++ .err unreadableInput⟩ else ⟨0, .out prompt⟩
  | text :: rest, s =>
    match turn verbose (some text) s with
    | (output, none) => ⟨0, .out prompt ++ output⟩
    | (output, some s) =>
      let later := dialogue verbose broken rest s
      { later with output := .out prompt ++ output ++ later.output }

/-! ### The program -/

/-- What `--version` writes. -/
def versionText : String :=
  "intcalc 0.1.0\n"

/-- What `--help` writes. -/
def helpText : String :=
  "intcalc evaluates integer expressions with `let`-bound variables\n\n"
    ++ "Usage: intcalc [OPTIONS]\n\n"
    ++ "Options:\n"
    ++ "  -e, --expr <EXPR>       Evaluates a single line and exits\n"
    ++ "  -f, --file <FILE>       Evaluates every line of a file and exits\n"
    ++ "  -v, --verbose           Prints the tree of every line to stderr before evaluating it\n"
    ++ "      --let <NAME=VALUE>  Binds a variable before the first line, e.g. `--let x=42`\n"
    ++ "  -h, --help              Print help\n"
    ++ "  -V, --version           Print version\n"

/-- What a run without a session leaves. -/
def refuse : Refusal → Exit
  | .usage e => ⟨2, .err (Part.write e.report)⟩
  | .help => ⟨0, .out helpText⟩
  | .version => ⟨0, .out versionText⟩

/-- The report of a file that is not there or not text. -/
def unreadableFile (path : String) : String :=
  "Failed to read the input file '" ++ path ++ "'. Perhaps this file does not exist?\n"

/-- The session that a run begins with. -/
def Request.session (r : Request) : Session :=
  .new .standard (.ofList r.bindings)

/-- Runs the lines of a file, given by its bytes if it can be read. -/
def Request.runFile (r : Request) (path : String) (bytes? : Option ByteArray) : Exit :=
  match bytes?.bind String.fromUTF8? with
  | some text => ⟨0, respondAll r.verbose (Text.lines text) r.session⟩
  | none => ⟨1, .err (unreadableFile path)⟩

/-- Runs a request. -/
def Request.run (r : Request) (files : String → Option ByteArray) (stdin : ByteArray) : Exit :=
  match r.expr?, r.file? with
  | some text, _ => ⟨0, respondAll r.verbose [text] r.session⟩
  | none, some path => r.runFile path (files path)
  | none, none =>
    let input := Input.ofBytes stdin
    dialogue r.verbose input.broken input.lines r.session

/-- Runs the program. -/
def run (args : List String) (files : String → Option ByteArray) (stdin : ByteArray) : Exit :=
  match parseArguments args with
  | .ok request => request.run files stdin
  | .error refusal => refuse refusal

end Calculator.CommandLine
