import DocMarkup.Text.Units

/-!
Finding one text inside another, and cutting at a unit.
-/

namespace DocMarkup.Text

/-- Offset of the first occurrence of `needle`. -/
def indexOf? (needle : Text) : Text → Option Nat
  | [] => if needle.isEmpty then some 0 else none
  | u :: rest =>
    if needle.isPrefixOf (u :: rest) then some 0 else (indexOf? needle rest).map (· + 1)

def occursIn (needle t : Text) : Bool := (indexOf? needle t).isSome

/-- Offset of the last occurrence of the unit `u`. -/
def lastIndexOf? (u : CodeUnit) : Text → Option Nat
  | [] => none
  | v :: rest =>
    match lastIndexOf? u rest with
    | some i => some (i + 1)
    | none => if v == u then some 0 else none

def endsWith (ending t : Text) : Bool := ending.isSuffixOf t

/-- The parts between occurrences of `separator`; there is one more part than separators. -/
def splitAt (separator : CodeUnit) : Text → List Text
  | [] => [[]]
  | u :: rest =>
    if u == separator then [] :: splitAt separator rest
    else
      match splitAt separator rest with
      | part :: parts => (u :: part) :: parts
      | [] => [[u]]

def repeated (n : Nat) (t : Text) : Text := (List.replicate n t).flatten

/-- The text with `fill` put before it until it has `width` units. -/
def padLeft (width : Nat) (fill : CodeUnit) (t : Text) : Text :=
  List.replicate (width - t.length) fill ++ t

/-- Texts joined with a separator between neighbours. -/
def join (separator : Text) (parts : List Text) : Text := (parts.intersperse separator).flatten

end DocMarkup.Text
