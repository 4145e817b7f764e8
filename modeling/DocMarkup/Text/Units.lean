/-!
Text as a sequence of UTF-16 code units.  Offsets, lengths and cuts all count units, so a cut may
fall between the two halves of a character outside the basic plane; `Text.codePoints` reads such a
lone half as a code point of its own.
-/

namespace DocMarkup

/-- One unit of UTF-16 text. -/
abbrev CodeUnit := UInt16

/-- Text, first unit first. -/
abbrev Text := List CodeUnit

/-- The code unit of a character of the basic plane. -/
def unit (c : Char) : CodeUnit := c.val.toUInt16

namespace CodeUnit

def lineFeed : CodeUnit := 0x0A
def carriageReturn : CodeUnit := 0x0D
def tab : CodeUnit := 0x09
def space : CodeUnit := 0x20

/-- A line feed or a carriage return. -/
def isLineBreak (u : CodeUnit) : Bool := u == lineFeed || u == carriageReturn

/-- A space or a tab: the white space that stays on its line. -/
def isHorizontalSpace (u : CodeUnit) : Bool := u == space || u == tab

/-- The white space that separates tokens. -/
def isSpace (u : CodeUnit) : Bool := isHorizontalSpace u || isLineBreak u

/-- An ASCII letter. -/
def isLetter (u : CodeUnit) : Bool := (0x41 ≤ u && u ≤ 0x5A) || (0x61 ≤ u && u ≤ 0x7A)

/-- An ASCII decimal digit. -/
def isDigit (u : CodeUnit) : Bool := 0x30 ≤ u && u ≤ 0x39

/-- An ASCII hexadecimal digit of either case. -/
def isHexDigit (u : CodeUnit) : Bool :=
  isDigit u || (0x41 ≤ u && u ≤ 0x46) || (0x61 ≤ u && u ≤ 0x66)

def isIdentifierStart (u : CodeUnit) : Bool := isLetter u || u == 0x5F

def isIdentifierChar (u : CodeUnit) : Bool := isIdentifierStart u || isDigit u

/-- The first half of a surrogate pair. -/
def isHighSurrogate (u : CodeUnit) : Bool := 0xD800 ≤ u && u ≤ 0xDBFF

/-- The second half of a surrogate pair. -/
def isLowSurrogate (u : CodeUnit) : Bool := 0xDC00 ≤ u && u ≤ 0xDFFF

/-- The value of a digit in base sixteen; zero for any other unit. -/
def digitValue (u : CodeUnit) : Nat :=
  if isDigit u then u.toNat - 0x30
  else if 0x41 ≤ u && u ≤ 0x46 then u.toNat - 0x41 + 10
  else if 0x61 ≤ u && u ≤ 0x66 then u.toNat - 0x61 + 10
  else 0

end CodeUnit

/-- The units that write one code point: one, or a surrogate pair from `0x10000` on. -/
def unitsOfCodePoint (n : Nat) : Text :=
  if n < 0x10000 then [n.toUInt16]
  else
    let offset := n - 0x10000
    [(0xD800 + offset / 0x400).toUInt16, (0xDC00 + offset % 0x400).toUInt16]

def units (s : String) : Text := s.toList.flatMap fun c => unitsOfCodePoint c.toNat

namespace Text

/-- The code points of a text; half a surrogate pair without its partner stands for itself. -/
def codePoints : Text → List Nat
  | [] => []
  | [u] => [u.toNat]
  | u :: v :: rest =>
    if CodeUnit.isHighSurrogate u && CodeUnit.isLowSurrogate v then
      (0x10000 + (u.toNat - 0xD800) * 0x400 + (v.toNat - 0xDC00)) :: codePoints rest
    else u.toNat :: codePoints (v :: rest)

/-- Text back from its code points. -/
def ofCodePoints (points : List Nat) : Text := points.flatMap unitsOfCodePoint

/-- The character of a code point; a lone surrogate reads as the replacement character. -/
def scalar (point : Nat) : Char :=
  if 0xD800 ≤ point && point ≤ 0xDFFF then Char.ofNat 0xFFFD else Char.ofNat point

/-- The string a text writes. -/
def toString (t : Text) : String := String.ofList ((codePoints t).map scalar)

end Text

def unitsOfNat (n : Nat) : Text := units (Nat.repr n)

end DocMarkup
