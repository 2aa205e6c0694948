/-
The arguments of the program.

An argument that begins with two dashes names an option by its word, one that begins
with a single dash a cluster of options by their letters.  An option with a value
takes it from the same argument, behind an equals sign or, for a letter, directly
behind it; failing that, it waits for the next argument.  One dash alone can be such
a value, and so can anything that does not begin with one; two dashes alone end the
options.  Nothing else may stand on its own.

Arguments are taken from left to right and the first fault is reported.  An option
that waits for its value takes effect when the next known option is met, or at the
end, so an unknown argument directly behind its value is reported before a fault of
that value.  Only after all of them are two options compared that exclude each other.
-/
import Calculator.CommandLine.Binding
import Calculator.CommandLine.Report

namespace Calculator.CommandLine

/-- The options. -/
inductive Opt where
  /-- A line to run. -/
  | expr
  /-- A file of lines to run. -/
  | file
  /-- Trees are shown. -/
  | verbose
  /-- A binding to begin with. -/
  | binding
  | help
  | version
deriving DecidableEq

namespace Opt

/-- The option that a word names. -/
def ofWord? : String → Option Opt
  | "expr" => some expr
  | "file" => some file
  | "verbose" => some verbose
  | "let" => some binding
  | "help" => some help
  | "version" => some version
  | _ => none

/-- The option that a letter names. -/
def ofLetter? : Char → Option Opt
  | 'e' => some expr
  | 'f' => some file
  | 'v' => some verbose
  | 'h' => some help
  | 'V' => some version
  | _ => none

/-- The option has a value. -/
def takesValue : Opt → Bool
  | expr | file | binding => true
  | verbose | help | version => false

/-- The option as it is shown in messages. -/
def display : Opt → String
  | expr => "--expr <EXPR>"
  | file => "--file <FILE>"
  | verbose => "--verbose"
  | binding => "--let <NAME=VALUE>"
  | help => "--help"
  | version => "--version"

end Opt

/-- Why the arguments cannot be used. -/
inductive UsageError where
  | unexpectedArgument (arg : String)
  /-- An option without a value was given one. -/
  | unexpectedValue (opt : Opt) (value : String)
  /-- An option with a value was given none. -/
  | missingValue (opt : Opt)
  /-- An option that may stand once stands again. -/
  | repeated (opt : Opt)
  | badBinding (text : String) (e : BindingError)
  /-- Two options exclude each other. -/
  | conflict (first second : Opt)
deriving DecidableEq

/-- The wording of a usage error.  What the user wrote and the options are set off. -/
def UsageError.parts : UsageError → List Part
  | unexpectedArgument arg => [.plain "unexpected argument '", .marked arg, .plain "' found"]
  | unexpectedValue opt value =>
    [.plain "unexpected value '", .marked value, .plain "' for '", .marked opt.display,
     .plain "' found; no more were expected"]
  | missingValue opt =>
    [.plain "a value is required for '", .marked opt.display, .plain "' but none was supplied"]
  | repeated opt =>
    [.plain "the argument '", .marked opt.display, .plain "' cannot be used multiple times"]
  | badBinding text e =>
    [.plain "invalid value '", .marked text, .plain "' for '", .marked Opt.binding.display,
     .plain "': ", .plain e.message]
  | conflict first second =>
    [.plain "the argument '", .marked first.display, .plain "' cannot be used with '",
     .marked second.display, .plain "'"]

/-- The report of a usage error: its wording, and where to find more. -/
def UsageError.report (e : UsageError) : List Part :=
  [.marked "error:", .plain " "] ++ e.parts
    ++ [.plain "\n\nFor more information, try '", .marked "--help", .plain "'.\n"]

/-- What the arguments ask for. -/
structure Request where
  expr? : Option String
  file? : Option String
  verbose : Bool
  /-- The bindings to begin with, in the order given. -/
  bindings : List (String × Int)
deriving DecidableEq

/-- Why the arguments ask for no run. -/
inductive Refusal where
  | usage (e : UsageError)
  | help
  | version
deriving DecidableEq

/-- The arguments taken so far. -/
structure Scan where
  request : Request
  /-- The options that have taken effect, in order. -/
  seen : List Opt
  /-- An option that has not, with its value once that is known. -/
  waiting : Option (Opt × Option String)
  /-- The options have been ended. -/
  ended : Bool

namespace Scan

/-- No arguments yet. -/
def start : Scan where
  request := { expr? := none, file? := none, verbose := false, bindings := [] }
  seen := []
  waiting := none
  ended := false

/-- Notes that an option took effect, which most may do only once. -/
def note (opt : Opt) (s : Scan) : Except Refusal Scan :=
  if opt ∈ s.seen ∧ opt ≠ .binding then .error (.usage (.repeated opt))
  else .ok { s with seen := s.seen ++ [opt] }

/-- An option takes effect, with a value. -/
def assign (opt : Opt) (value : String) (s : Scan) : Except Refusal Scan := do
  let s ← s.note opt
  match opt with
  | .expr => return { s with request.expr? := some value }
  | .file =>
    if value.isEmpty then .error (.usage (.missingValue opt))
    else return { s with request.file? := some value }
  | .binding =>
    match readBinding value with
    | .ok b => return { s with request.bindings := s.request.bindings ++ [b] }
    | .error e => .error (.usage (.badBinding value e))
  | .verbose | .help | .version => return s

/-- An option takes effect, without a value. -/
def turnOn (opt : Opt) (s : Scan) : Except Refusal Scan :=
  match opt with
  | .help => .error .help
  | .version => .error .version
  | .verbose => do
    let s ← s.note opt
    return { s with request.verbose := true }
  | .expr | .file | .binding => .error (.usage (.missingValue opt))

/-- The option that waits takes effect. -/
def settle (s : Scan) : Except Refusal Scan :=
  match s.waiting with
  | none => .ok s
  | some (opt, some value) => { s with waiting := none }.assign opt value
  | some (opt, none) => { s with waiting := none }.turnOn opt

/-- An option is met, with the value that the same argument holds, if any. -/
def meet (opt : Opt) (attached? : Option String) (s : Scan) : Except Refusal Scan :=
  match opt.takesValue, attached? with
  | true, some value => do (← s.settle).assign opt value
  | true, none => do return { ← s.settle with waiting := some (opt, none) }
  | false, some value => .error (.usage (.unexpectedValue opt value))
  | false, none => do (← s.settle).turnOn opt

/-- A cluster of letters. -/
def cluster : List Char → Scan → Except Refusal Scan
  | [], s => .ok s
  | c :: rest, s =>
    match Opt.ofLetter? c with
    | none => .error (.usage (.unexpectedArgument (String.ofList ['-', c])))
    | some opt =>
      if opt.takesValue then
        match rest with
        | [] => s.meet opt none
        | '=' :: value => s.meet opt (some (String.ofList value))
        | value => s.meet opt (some (String.ofList value))
      else do cluster rest (← s.meet opt none)

/-- A word, with the value behind its equals sign. -/
def word (cs : List Char) (s : Scan) : Except Refusal Scan :=
  let (name, attached?) :=
    match cutAtEquals cs with
    | some (name, value) => (String.ofList name, some (String.ofList value))
    | none => (String.ofList cs, none)
  match Opt.ofWord? name with
  | some opt => s.meet opt attached?
  | none => .error (.usage (.unexpectedArgument ("--" ++ name)))

/-- An argument that is no option: the value that is waited for, or nothing known. -/
def value (arg : String) (s : Scan) : Except Refusal Scan :=
  match s.waiting with
  | some (opt, none) => .ok { s with waiting := some (opt, some arg) }
  | _ => .error (.usage (.unexpectedArgument arg))

/-- One more argument. -/
def take (s : Scan) (arg : String) : Except Refusal Scan :=
  if s.ended then .error (.usage (.unexpectedArgument arg))
  else
    match arg.toList with
    | ['-', '-'] => .ok { s with ended := true }
    | '-' :: '-' :: cs => s.word cs
    | '-' :: c :: cs => s.cluster (c :: cs)
    | _ => s.value arg

/-- The options that exclude each other, in the order in which they took effect. -/
def exclusive (s : Scan) : List Opt :=
  s.seen.filter fun opt => decide (opt = .expr ∨ opt = .file)

end Scan

/-- What the arguments ask for. -/
def parseArguments (args : List String) : Except Refusal Request := do
  let s ← args.foldlM Scan.take Scan.start
  let s ← s.settle
  match s.exclusive with
  | first :: second :: _ => .error (.usage (.conflict first second))
  | _ => return s.request

end Calculator.CommandLine
