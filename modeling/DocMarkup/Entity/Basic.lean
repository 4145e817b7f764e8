import DocMarkup.Text.Search
import DocMarkup.Number.Whole
import DocMarkup.Entity.Table

/-!
Symbols: named characters, numbered characters and escapes.  A symbol is known by its name, and
has one form in markup and one in plain text.
-/

namespace DocMarkup

/-- How a symbol is written in markup and in plain text. -/
structure Symbol where
  markup : Text
  plain : Text

namespace Symbol

def table : List (Text × Symbol) :=
  (Entity.characters.map fun (name, point) =>
    (units name, { markup := units ("&" ++ name ++ ";"), plain := unitsOfCodePoint point })) ++
  Entity.signs.map fun (name, markup, plain) =>
    (units name, { markup := units markup, plain := units plain })

def find? (name : Text) : Option Symbol :=
  (table.find? (·.1 == name)).map (·.2)

def isKnown (name : Text) : Bool := (find? name).isSome

end Symbol

namespace Escape

/-- Signs that lose their meaning after a command character, with the names of their symbols. -/
def signs : List (Char × String) :=
  [('\\', "BSlash"), ('@', "At"), ('<', "Less"), ('>', "Greater"), ('&', "Amp"), ('$', "Dollar"),
   ('#', "Hash"), ('%', "Percent"), ('|', "Pipe"), ('"', "Quot"), ('.', "Dot"), ('=', "Equal")]

/-- Whether a command character escapes this unit. -/
def isSign (u : CodeUnit) : Bool := signs.any fun sign => unit sign.1 == u

/-- An escape at the start of the text behind a command character: the name of its symbol and its
length.  Two colons form an escape, one does not. -/
def match? : Text → Option (Text × Nat)
  | [] => none
  | u :: rest =>
    if u == unit ':' then
      if rest.head? == some (unit ':') then some (units "DoubleColon", 2) else none
    else (signs.find? fun sign => unit sign.1 == u).map fun sign => (units sign.2, 1)

/-- Whether a text is an escape and nothing else. -/
def isEscape (t : Text) : Bool := (match? t).any (·.2 == t.length)

end Escape

namespace Entity

/-- Code points that number a character: all but the surrogate halves and those past the last
plane. -/
def isScalar (point : Nat) : Bool := point ≤ 0x10FFFF && !(0xD800 ≤ point && point ≤ 0xDFFF)

/-- The number between a number sign and the end: decimal digits, or hexadecimal ones after an
`x` of either case. -/
def number? : Text → Option Nat
  | [] => none
  | u :: rest =>
    if u == unit 'x' || u == unit 'X' then
      if rest.isEmpty || !rest.all CodeUnit.isHexDigit then none
      else some (Whole.natOfHexDigits rest)
    else if (u :: rest).all CodeUnit.isDigit then some (Whole.natOfDigits (u :: rest))
    else none

/-- The character a numeric entity such as `&#65;` or `&#x41;` stands for. -/
def decode? (t : Text) : Option Text :=
  if (units "&#").isPrefixOf t && Text.endsWith (units ";") t then
    match number? ((t.drop 2).dropLast) with
    | some point => if isScalar point then some (unitsOfCodePoint point) else none
    | none => none
  else none

end Entity

end DocMarkup
