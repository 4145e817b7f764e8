import DocMarkup.Text.Blank
import DocMarkup.Text.Search

/-!
Lines of a text: counting them, and cutting blocks of whole lines.
-/

namespace DocMarkup.Text

/-- The line, counted from one, of the place at an offset. -/
def lineOf (t : Text) (offset : Nat) : Nat := (t.take offset).count CodeUnit.lineFeed + 1

/-- The text behind its first line feed. -/
def afterLineFeed? (t : Text) : Option Text :=
  match t.dropWhile (· != CodeUnit.lineFeed) with
  | [] => none
  | _ :: rest => some rest

/-- The block that a marker encloses: from the line behind its first occurrence up to the line of
the next one, or to the end of the text. -/
def snippet? (marker t : Text) : Option Text :=
  match indexOf? marker t with
  | none => none
  | some first =>
    match afterLineFeed? (t.drop (first + marker.length)) with
    | none => some []
    | some block =>
      match indexOf? marker block with
      | none => some block
      | some second =>
        match lastIndexOf? CodeUnit.lineFeed (block.take (second + 1)) with
        | none => some []
        | some last => some (block.take (last + 1))

/-- A block without the rest of the line it was opened on, if that is blank, and without the
indentation before its end. -/
def trimBlock (t : Text) : Text :=
  let body := t.dropWhile CodeUnit.isHorizontalSpace
  let opened :=
    match body with
    | [] => t
    | u :: rest =>
      if u == CodeUnit.lineFeed then rest
      else if u == CodeUnit.carriageReturn && rest.head? == some CodeUnit.lineFeed then rest.drop 1
      else t
  match lastIndexOf? CodeUnit.lineFeed opened with
  | none => opened
  | some last =>
    if (opened.drop (last + 1)).all CodeUnit.isBlank then opened.take (last + 1) else opened

/-- The lines between line feeds, without an empty last one. -/
def lines (t : Text) : List Text :=
  let parts := splitAt CodeUnit.lineFeed t
  if parts.getLast? == some [] then parts.dropLast else parts

end DocMarkup.Text
