import DocMarkup.Scanner.Cursor
import DocMarkup.Scanner.Lexeme

/-!
The scanner of a comment: a cursor, the last token, and the two settings a parser changes between
tokens.  `Scanner.scan` reads the next token.  Arguments of commands are read in their own way,
from the place behind the last token.
-/

namespace DocMarkup

structure Scanner where
  cursor : Cursor := Cursor.ofText []
  /-- Inside preformatted text, where neither lists nor paragraphs are looked for. -/
  insidePre : Bool := false
  /-- How many automatic lists are open. -/
  listDepth : Nat := 0
  /-- The last token; its end is where the cursor stands. -/
  last : Token := {}

namespace Scanner

instance : Inhabited Scanner := ⟨{}⟩

/-- A scanner at the start of a text. -/
def ofText (t : Text) : Scanner := { cursor := Cursor.ofText t }

/-- The same scanner at the start of another text.  Attributes, indentation and number of the last
token stay until the next token. -/
def load (s : Scanner) (t : Text) : Scanner :=
  { cursor := Cursor.ofText t
    last := { attributes := s.last.attributes, indent := s.last.indent, number := s.last.number } }

/-- Where the next token or argument is read from. -/
def offset (s : Scanner) : Nat := s.cursor.offset

/-- The last token, reaching up to the cursor. -/
def token (s : Scanner) : Token := { s.last with stop := s.cursor.offset }

def text (s : Scanner) : Text := s.cursor.text

def setInsidePre (s : Scanner) (insidePre : Bool) : Scanner := { s with insidePre }

def startList (s : Scanner) : Scanner := { s with listDepth := s.listDepth + 1 }

def endList (s : Scanner) : Scanner := { s with listDepth := s.listDepth - 1 }

/-- The token of a lexeme at a place. -/
def tokenAt (c : Cursor) (lexeme : Lexeme) : Token where
  kind := lexeme.kind
  flags :=
    { afterLineBreak := c.previous?.any CodeUnit.isLineBreak
      atLineStart := c.atLineStart
      isEmail := lexeme.isEmail
      selfClosing := lexeme.selfClosing
      isNumbered := lexeme.isNumbered }
  start := c.offset
  stop := (c.advance lexeme.length).offset
  text := lexeme.payload.getD (c.ahead.take lexeme.length)
  value := lexeme.value
  attributes := lexeme.attributes
  indent := lexeme.indent
  number := lexeme.number

theorem length_pos_of_commentLength? {t : Text} {n : Nat}
    (h : Lexeme.commentLength? t = some n) : 0 < n ∧ t ≠ [] := by
  unfold Lexeme.commentLength? at h
  split at h
  · next hstart =>
    have hne : t ≠ [] := by
      rintro rfl
      exact absurd hstart (by decide)
    split at h
    · cases h
      exact ⟨Nat.succ_pos _, hne⟩
    · cases h
      exact ⟨List.length_pos_iff.2 hne, hne⟩
  · cases h

def skipComments (c : Cursor) : Cursor :=
  match h : Lexeme.commentLength? c.ahead with
  | none => c
  | some n =>
    have : (c.advance n).ahead.length < c.ahead.length := by
      obtain ⟨hn, hne⟩ := length_pos_of_commentLength? h
      have := List.length_pos_iff.2 hne
      rw [Cursor.ahead_advance, List.length_drop]
      omega
    skipComments (c.advance n)
termination_by c.ahead.length

/-- The lexeme at a place; at the end of the text it is empty. -/
def lexeme (s : Scanner) (c : Cursor) : Lexeme :=
  if c.atEnd then { kind := .endOfText, length := 0 }
  else Lexeme.next s.insidePre (0 < s.listDepth) c.atLineStart c.ahead

/-- Reads the next token, past the comments before it. -/
def scan (s : Scanner) : Scanner :=
  let start := skipComments s.cursor
  let lexeme := s.lexeme start
  { s with cursor := start.advance lexeme.length, last := tokenAt start lexeme }

/-- Tokens from here on, the end of the text included.  A token that is not the last takes at least
one unit, so the length of the text bounds their number. -/
def readTokens : Nat → Scanner → List Token × Scanner
  | 0, s => ([], s)
  | n + 1, s =>
    let s := s.scan
    if s.last.kind == .endOfText then ([s.token], s)
    else
      let (more, final) := readTokens n s
      (s.token :: more, final)

/-- All tokens up to the end of the text. -/
def readAll (s : Scanner) : List Token × Scanner := readTokens (s.cursor.ahead.length + 1) s

/-- Moves the scanner to an offset of its text, forgetting the kind of the last token. -/
def moveTo (s : Scanner) (offset : Nat) : Scanner :=
  { s with cursor := s.cursor.moveTo offset, last := { s.last with kind := .unknown } }

/-- As `moveTo`, for offsets inside the text only. -/
def moveTo? (s : Scanner) (offset : Int) : Option Scanner :=
  if offset < 0 || (s.text.length : Int) < offset then none else some (s.moveTo offset.toNat)

/-! ### Arguments -/

def skipHorizontalSpace (s : Scanner) : Scanner :=
  { s with cursor := s.cursor.advanceWhile CodeUnit.isHorizontalSpace }

/-- The next argument on the line, up to white space. -/
def readArgument (s : Scanner) : Option Text × Scanner :=
  let s := s.skipHorizontalSpace
  let argument := s.cursor.ahead.takeWhile fun u => !CodeUnit.isSpace u
  if argument.isEmpty then (none, s)
  else (some argument, { s with cursor := s.cursor.advance argument.length })

/-- An argument in double quotes on the line.  Without one the scanner stays where it is. -/
def readQuoted (s : Scanner) : Option Text × Scanner :=
  let c := s.cursor.advanceWhile CodeUnit.isHorizontalSpace
  match c.ahead with
  | [] => (none, s)
  | u :: rest =>
    let body := rest.takeWhile fun v => v != unit '"' && !CodeUnit.isLineBreak v
    if u == unit '"' && (rest.drop body.length).head? == some (unit '"') then
      (some body, { s with cursor := c.advance (body.length + 2) })
    else (none, s)

/-- The rest of the line without blanks around it; the line break is left. -/
def readLine (s : Scanner) : Text × Scanner :=
  let line := s.cursor.ahead.takeWhile fun u => !CodeUnit.isLineBreak u
  (Text.trim line, { s with cursor := s.cursor.advance line.length })

/-- An option between delimiters that follows at once and is closed on the same line.  Without one
the scanner stays where it is. -/
def readAttached (s : Scanner) (opening closing : Text) : Option Text × Scanner :=
  let ahead := s.cursor.ahead
  if ahead.take 1 != opening then (none, s)
  else
    match Text.indexOf? closing (ahead.drop 1) with
    | none => (none, s)
    | some length =>
      -- the closing unit was looked for in all of the text and may lie beyond the line
      let lineEnd := Text.indexOf? [CodeUnit.lineFeed] ahead
      if lineEnd.any (· < length + 1) then (none, s)
      else
        (some ((ahead.drop 1).take length), { s with cursor := s.cursor.advance (length + 2) })

/-! ### Raw blocks -/

/-- Text up to a marker that ends it. -/
structure RawBlock where
  text : Text
  terminated : Bool
  /-- The marker that ended the block, if one did. -/
  marker : Text
  deriving DecidableEq, Repr, Inhabited

/-- Whether a marker stands at the start of the text and no identifier goes on behind it. -/
def marksHere (marker t : Text) : Bool :=
  marker.isPrefixOf t &&
    !(marker.getLast?.any CodeUnit.isIdentifierChar &&
      (t.drop marker.length).head?.any CodeUnit.isIdentifierChar)

/-- The first place where one of the markers stands, and the first marker that does there. -/
def findMarker? (markers : List Text) : Text → Option (Nat × Text)
  | [] => (markers.find? (marksHere · [])).map ((0, ·))
  | u :: rest =>
    match markers.find? (marksHere · (u :: rest)) with
    | some marker => some (0, marker)
    | none => (findMarker? markers rest).map fun (i, marker) => (i + 1, marker)

/-- Text up to the first of the markers, and past it; all that is left when there is none. -/
def readRaw (s : Scanner) (markers : List Text) : RawBlock × Scanner :=
  let ahead := s.cursor.ahead
  match findMarker? markers ahead with
  | some (length, marker) =>
    ({ text := ahead.take length, terminated := true, marker },
      { s with cursor := s.cursor.advance (length + marker.length) })
  | none =>
    ({ text := ahead, terminated := false, marker := [] },
      { s with cursor := s.cursor.advanceToEnd })

end Scanner

end DocMarkup
