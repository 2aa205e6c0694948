/-
Cutting a text into lines.

A line ends at a newline, or at a return that a newline follows; neither belongs to
the line.  What stands after the last newline is a line too if it is not empty, and
a return at its end then stays, because nothing follows it.

Input may have to be cut before it is known to be text, so the cut is written once
for any alphabet with a newline and a return, and used for characters and for
bytes.
-/

namespace Calculator.Text

section Cutting

variable {α : Type} [DecidableEq α] (newline ret : α)

/-- A line that a newline ended, without a return at its end. -/
def dropReturn (line : List α) : List α :=
  if line.getLast? = some ret then line.dropLast else line

/-- The text up to the first newline, and what follows that newline if there is one. -/
def cutLine : List α → List α × Option (List α)
  | [] => ([], none)
  | c :: r =>
    if c = newline then ([], some r)
    else (c :: (cutLine r).1, (cutLine r).2)

/-- What follows the first newline is shorter. -/
theorem length_of_cutLine {newline : α} {cs rest : List α}
    (h : (cutLine newline cs).2 = some rest) : rest.length < cs.length := by
  induction cs with
  | nil => simp [cutLine] at h
  | cons c r ih =>
    by_cases hc : c = newline
    · simp [cutLine, hc] at h
      simp [h]
    · simp [cutLine, hc] at h
      have := ih h
      simp
      omega

/-- All lines of a text, in order. -/
def cutLines (cs : List α) : List (List α) :=
  match h : cutLine newline cs with
  | (line, none) => if line.isEmpty then [] else [line]
  | (line, some rest) =>
    have : rest.length < cs.length := length_of_cutLine (by rw [h])
    dropReturn ret line :: cutLines rest
termination_by cs.length

end Cutting

/-- The lines of a string. -/
def lines (s : String) : List String :=
  (cutLines '\n' '\r' s.toList).map String.ofList

end Calculator.Text
