import DocMarkup.Entity.Basic

/-!
What the start of a line says: its indentation, a list marker, the end of a list.
-/

namespace DocMarkup.Line

/-- Columns between tab stops. -/
def tabStop : Nat := 4

/-- The column of the first unit that is neither a space nor a tab, counted from `column`, and the
number of units before it. -/
def indentation (column : Nat) : Text → Nat × Nat
  | [] => (column, 0)
  | u :: rest =>
    if CodeUnit.isHorizontalSpace u then
      let next := if u == CodeUnit.tab then (column / tabStop + 1) * tabStop else column + 1
      let (found, count) := indentation next rest
      (found, count + 1)
    else (column, 0)

/-- A list marker: `-`, `*` or `+` for bullets, `-#` or a number with a dot for numbered items. -/
structure ListMarker where
  indent : Nat
  /-- Units before the marker. -/
  blanks : Nat
  marker : Text
  isNumbered : Bool
  number : Option Whole

/-- The marker a line begins with; white space has to follow it. -/
def listMarker? (line : Text) : Option ListMarker :=
  let (indent, blanks) := indentation 0 line
  let body := line.drop blanks
  let digits := body.takeWhile CodeUnit.isDigit
  let found : Option (Nat × Bool × Option Whole) :=
    match body with
    | [] => none
    | u :: rest =>
      if u == unit '-' && rest.head? == some (unit '#') then some (2, true, none)
      else if u == unit '-' || u == unit '*' || u == unit '+' then some (1, false, none)
      else if CodeUnit.isDigit u && (body.drop digits.length).head? == some (unit '.') then
        some (digits.length + 1, true, some (Whole.ofDigits digits))
      else none
  match found with
  | none => none
  | some (length, isNumbered, number) =>
    match body.drop length with
    | [] => none
    | u :: _ =>
      if CodeUnit.isHorizontalSpace u then
        some { indent, blanks, marker := body.take length, isNumbered, number }
      else none

/-- The indentation of a line that holds only a dot: its column and the units before it. -/
def endOfList? (line : Text) : Option (Nat × Nat) :=
  let (indent, blanks) := indentation 0 line
  match line.drop blanks with
  | [] => none
  | u :: rest =>
    if u != unit '.' then none
    else
      match rest.dropWhile CodeUnit.isHorizontalSpace with
      | [] => some (indent, blanks)
      | v :: _ => if CodeUnit.isLineBreak v then some (indent, blanks) else none

/-- Whether a line begins with a list marker or ends a list. -/
def isListLine (line : Text) : Bool := (listMarker? line).isSome || (endOfList? line).isSome

end DocMarkup.Line
