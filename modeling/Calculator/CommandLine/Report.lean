/-
Reports in parts.

A report quotes what a user wrote, and sets it off from its own words.  On a terminal
the marked parts would be coloured, by sequences before and behind each, and these
end any sequence that a quotation has left open.  Elsewhere the colours are left out, and
everything else that a terminal would obey with them.

So what is open at the end of a plain part goes on in the next one, and nothing
goes into a marked part or comes out of it.
-/
import Calculator.Text.Visible

namespace Calculator.CommandLine

/-- A part of a report. -/
inductive Part where
  | plain (text : String)
  /-- A part that is set off. -/
  | marked (text : String)
deriving DecidableEq

namespace Part

/-- What is shown of the parts of a report, the first of which begins at a place. -/
def visible (p : Text.Place) : List Part → List Char
  | [] => []
  | plain text :: rest => p.visible text.toList ++ visible (p.behind text.toList) rest
  | marked text :: rest => Text.Place.plain.visible text.toList ++ visible .plain rest

/-- The text of a report. -/
def write (parts : List Part) : String :=
  String.ofList (visible .plain parts)

end Part

end Calculator.CommandLine
