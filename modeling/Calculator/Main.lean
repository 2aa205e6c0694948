/-
The program.

It reads its arguments, its file and its standard input, writes what a run writes, and
decides nothing itself.  Only the dialogue is taken a turn at a time, so that each line
is answered before the next is read.
-/
import Calculator.CommandLine.Run

namespace Calculator.CommandLine

/-- Writes what a run has written so far. -/
def write (output : Output) : IO Unit := do
  let stdout ← IO.getStdout
  stdout.putStr output.stdout
  stdout.flush
  (← IO.getStderr).putStr output.stderr

/-- Writes what a run leaves; the result is its exit code. -/
def leave (done : Exit) : IO UInt32 := do
  write done.output
  return done.code.toUInt32

/-- The bytes of a file that can be read. -/
def readFile? (path : String) : IO (Option ByteArray) :=
  try
    return some (← IO.FS.readBinFile path)
  catch _ =>
    return none

/-- The bytes of a stream up to its next newline, which is one of them, behind those read so far. -/
partial def readLine (stream : IO.FS.Stream) (sofar : ByteArray) : IO ByteArray := do
  let next ← stream.read 1
  if next.isEmpty then return sofar
  else if next.toList = [newline] then return sofar ++ next
  else readLine stream (sofar ++ next)

/-- The dialogue on standard input. -/
partial def talk (verbose : Bool) (s : Session) : IO UInt32 := do
  write (.out prompt)
  let input := Input.ofBytes (← readLine (← IO.getStdin) .empty)
  if input.broken then leave ⟨1, .err unreadableInput⟩
  else
    let (output, next?) := turn verbose input.lines.head? s
    write output
    match next? with
    | some s => talk verbose s
    | none => return 0

end Calculator.CommandLine

open Calculator.CommandLine in
/-- Runs the program. -/
def main (args : List String) : IO UInt32 := do
  match parseArguments args with
  | .error refusal => leave (refuse refusal)
  | .ok request =>
    match request.expr?, request.file? with
    | none, none => talk request.verbose request.session
    | none, some path => leave (request.runFile path (← readFile? path))
    | some _, _ => leave (request.run (fun _ => none) .empty)
