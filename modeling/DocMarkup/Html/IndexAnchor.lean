import DocMarkup.Text.Units

/-!
Anchors of index words.  A word is written byte by byte; bytes that could not stand in an anchor
become a colon and two hexadecimal digits.
-/

namespace DocMarkup.Html

/-- The bytes of a code point in UTF-8. -/
def utf8 (point : Nat) : List Nat :=
  if point < 0x80 then [point]
  else if point < 0x800 then [0xC0 + point / 0x40, 0x80 + point % 0x40]
  else if point < 0x10000 then
    [0xE0 + point / 0x1000, 0x80 + point / 0x40 % 0x40, 0x80 + point % 0x40]
  else
    [0xF0 + point / 0x40000, 0x80 + point / 0x1000 % 0x40, 0x80 + point / 0x40 % 0x40,
      0x80 + point % 0x40]

/-- The bytes of a text in UTF-8; half a surrogate pair is written as the replacement character. -/
def utf8Bytes (t : Text) : List Nat :=
  (Text.codePoints t).flatMap fun point => utf8 (Text.scalar point).toNat

/-- The small hexadecimal digit of a number below sixteen. -/
def hexDigit (n : Nat) : CodeUnit := (if n < 10 then 0x30 + n else 0x61 + (n - 10)).toUInt16

/-- Units that stand for themselves in an anchor. -/
def isAnchorUnit (u : CodeUnit) : Bool :=
  CodeUnit.isLetter u || CodeUnit.isDigit u || (units "._-").elem u

/-- A byte of an index word in its anchor. -/
def anchorByte (byte : Nat) : Text :=
  if isAnchorUnit byte.toUInt16 then [byte.toUInt16]
  else [unit ':', hexDigit (byte / 16), hexDigit (byte % 16)]

/-- The anchor of an index word. -/
def indexAnchor (word : Text) : Text := unit 'a' :: (utf8Bytes word).flatMap anchorByte

end DocMarkup.Html
