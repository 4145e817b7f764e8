import DocMarkup.Text.Blank
import DocMarkup.Text.Search

/-!
The text of an included file that is shown in pieces.  Each operator looks for a line that contains
a pattern, from the place the last one stopped at, and moves that place forward.
-/

namespace DocMarkup

/-- The ways to move through an included text. -/
inductive IncludeOperator where
  /-- Shows the next line that is not blank, if it contains the pattern. -/
  | line
  /-- Shows the next line that contains the pattern. -/
  | skipLine
  /-- Moves to the next line that contains the pattern and shows nothing. -/
  | skip
  /-- Shows everything up to the next line that contains the pattern. -/
  | through
  deriving DecidableEq, Repr, Inhabited

structure IncludeBuffer where
  text : Text
  /-- Where the next operator starts. -/
  offset : Nat := 0
  deriving Inhabited

namespace IncludeBuffer

/-- From a position on, the start and the end of the next line that holds more than blanks, or the
end of the text.  `seen` tells whether such a line was met before; then the line at the position is
taken even if it is blank.  The last component tells whether one has been met by now. -/
def lineFrom (position start : Nat) (seen : Bool) : Text → Nat × Nat × Bool
  | [] => (start, position, seen)
  | u :: rest =>
    if u == CodeUnit.lineFeed then
      if seen then (start, position, seen)
      else lineFrom (position + 1) (position + 1) false rest
    else lineFrom (position + 1) start (seen || !CodeUnit.isBlank u) rest

theorem le_lineFrom (position start : Nat) (seen : Bool) (t : Text) :
    position ≤ (lineFrom position start seen t).2.1 := by
  fun_induction lineFrom position start seen t <;> simp_all <;> omega

/-- The units between two offsets. -/
def slice (t : Text) (start stop : Nat) : Text := (t.drop start).take (stop - start)

/-- Where a search for a line ended. -/
structure Search where
  /-- The line that contains the pattern. -/
  found : Option (Nat × Nat)
  /-- The end of that line, or past the end of the text. -/
  position : Nat
  /-- The start of the last line looked at. -/
  lineStart : Nat

/-- Looks for the next line that contains the pattern. -/
def search (t pattern : Text) (position lineStart : Nat) (seen : Bool) : Search :=
  if h : position < t.length then
    let line := lineFrom position position seen (t.drop position)
    if Text.occursIn pattern (slice t line.1 line.2.1) then
      { found := some (line.1, line.2.1), position := line.2.1, lineStart := line.1 }
    else
      have : t.length - (line.2.1 + 1) < t.length - position := by
        have := le_lineFrom position position seen (t.drop position)
        simp only [line]
        omega
      search t pattern (line.2.1 + 1) line.1 line.2.2
  else { found := none, position, lineStart }
termination_by t.length - position

/-- Applies an operator: the text it shows, and the buffer after it. -/
def apply (buffer : IncludeBuffer) (operator : IncludeOperator) (pattern : Text) :
    Text × IncludeBuffer :=
  let t := buffer.text
  let moveTo (position : Nat) : IncludeBuffer := { buffer with offset := min t.length position }
  let searched := search t pattern buffer.offset buffer.offset false
  match operator with
  | .line =>
    let (start, stop, _) := lineFrom buffer.offset buffer.offset false (t.drop buffer.offset)
    let line := slice t start stop
    (if Text.occursIn pattern line then line else [], moveTo (stop + 1))
  | .skipLine =>
    (match searched.found with
      | some (start, stop) => slice t start stop
      | none => [],
      moveTo (searched.position + 1))
  | .skip => ([], moveTo searched.lineStart)
  | .through =>
    (match searched.found with
      | some (_, stop) => slice t buffer.offset stop
      | none => [],
      moveTo (searched.position + 1))

end IncludeBuffer

end DocMarkup
