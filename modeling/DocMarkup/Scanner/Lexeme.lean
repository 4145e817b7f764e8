import DocMarkup.Token
import DocMarkup.Text.Blank
import DocMarkup.Scanner.Line
import DocMarkup.Scanner.Tag

/-!
The lexemes of a comment: what a text begins with, and how far it reaches.  Each function here
looks at the text ahead only; `Lexeme.next` puts them in order.
-/

namespace DocMarkup

/-- What the text ahead begins with. -/
structure Lexeme where
  kind : TokenKind
  length : Nat
  value : Text := []
  attributes : Attributes := []
  indent : Nat := 0
  number : Option Whole := none
  isEmail : Bool := false
  selfClosing : Bool := false
  isNumbered : Bool := false
  /-- The text of the token where it is not the text that was written. -/
  payload : Option Text := none

namespace Lexeme

/-! ### Lines and white space -/

/-- A list marker with the blanks around it. -/
def listItem? (line : Text) : Option Lexeme :=
  (Line.listMarker? line).map fun found =>
    let body := line.drop (found.blanks + found.marker.length)
    { kind := .listItem
      length := found.blanks + found.marker.length +
        (body.takeWhile CodeUnit.isHorizontalSpace).length
      value := found.marker
      indent := found.indent
      number := found.number
      isNumbered := found.isNumbered }

/-- A line that ends a list, with one unit of its line break. -/
def endList? (line : Text) : Option Lexeme :=
  (Line.endOfList? line).map fun (indent, blanks) =>
    let afterDot := line.drop (blanks + 1)
    let tail := (afterDot.takeWhile fun u => !CodeUnit.isLineBreak u).length
    let break_ := if (afterDot.drop tail).isEmpty then 0 else 1
    { kind := .endList, length := blanks + 1 + tail + break_, value := units ".", indent }

/-- A run of white space: its length, the line feeds in it, whether it was cut short before a line
that begins or ends a list, and the text from its last line feed on. -/
structure Gap where
  length : Nat
  lineFeeds : Nat
  beforeList : Bool
  lastLine : Text

/-- The white space ahead.  `lastLine` is the text behind the last line feed so far.  In
preformatted text lines are not looked at. -/
def gap (insidePre : Bool) (lastLine : Text) : Text → Gap
  | [] => { length := 0, lineFeeds := 0, beforeList := false, lastLine }
  | u :: rest =>
    if !CodeUnit.isSpace u then { length := 0, lineFeeds := 0, beforeList := false, lastLine }
    else if u == CodeUnit.lineFeed && !insidePre then
      -- the white space ends here, so that the list line is scanned as such
      if Line.isListLine rest then
        { length := 1, lineFeeds := 1, beforeList := true, lastLine := rest }
      else
        let more := gap insidePre rest rest
        { more with length := more.length + 1, lineFeeds := more.lineFeeds + 1 }
    else
      let more := gap insidePre lastLine rest
      { more with length := more.length + 1 }

/-- White space; a blank line makes it a paragraph break, but inside a list a blank line before
the next item does not. -/
def whiteSpace (insidePre insideList : Bool) (t : Text) : Lexeme :=
  let found := gap insidePre t t
  if 2 ≤ found.lineFeeds && !(found.beforeList && insideList) then
    { kind := .newParagraph
      length := found.length
      indent := (Line.indentation 0 found.lastLine).1 }
  else { kind := .whiteSpace, length := found.length, value := t.take found.length }

/-! ### Commands, entities and keywords -/

/-- The units that end a formula command. -/
def formulaBrackets : List CodeUnit := [unit '$', unit '[', unit ']', unit '\x7b', unit '\x7d']

/-- An identifier behind a command character. -/
def identifier? (rest : Text) : Option Lexeme :=
  match rest with
  | [] => none
  | u :: _ =>
    if CodeUnit.isIdentifierStart u then
      let name := rest.takeWhile CodeUnit.isIdentifierChar
      some { kind := .command, length := name.length + 1, value := name }
    else none

/-- An escape or a command, from its command character on. -/
def command? : Text → Option Lexeme
  | [] => none
  | _ :: rest =>
    match Escape.match? rest with
    | some (name, length) => some { kind := .symbol, length := length + 1, value := name }
    | none =>
      match rest with
      | u :: bracket :: _ =>
        -- the bracket belongs to the name of a formula command
        if u == unit 'f' && formulaBrackets.contains bracket then
          some { kind := .command, length := 3, value := [u, bracket] }
        else identifier? rest
      | _ => identifier? rest

/-- Whether a command starts at a unit inside a word.  An at-sign there only starts an escape. -/
def startsCommand (u : CodeUnit) (rest : Text) : Bool :=
  (u == unit '\\' || u == unit '@') &&
    ((Escape.match? rest).isSome ||
      (u == unit '\\' && rest.head?.any CodeUnit.isIdentifierStart))

/-- How far the end of an entity is looked for. -/
def entityWindow : Nat := 40

/-- The text between an ampersand and a semicolon. -/
def entityBody? (t : Text) : Option Text :=
  match t.take entityWindow with
  | [] => none
  | _ :: rest =>
    let body := rest.takeWhile (· != unit ';')
    if (rest.drop body.length).isEmpty then none else some body

/-- A letter followed by letters and digits. -/
def isEntityName : Text → Bool
  | [] => false
  | u :: rest => CodeUnit.isLetter u && rest.all fun v => CodeUnit.isLetter v || CodeUnit.isDigit v

/-- A number sign with decimal digits, or with an `x` and hexadecimal ones. -/
def isEntityNumber : Text → Bool
  | hash :: u :: rest =>
    hash == unit '#' &&
      (if u == unit 'x' then !rest.isEmpty && rest.all CodeUnit.isHexDigit
       else (u :: rest).all CodeUnit.isDigit)
  | _ => false

/-- What ends a word before an ampersand: as an entity, but the `x` of a hexadecimal number may be
left out. -/
def startsEntity (t : Text) : Bool :=
  match entityBody? t with
  | none => false
  | some body =>
    isEntityName body ||
      match body with
      | hash :: u :: rest =>
        hash == unit '#' &&
          (if u == unit 'x' then !rest.isEmpty && rest.all CodeUnit.isHexDigit
           else (u :: rest).all CodeUnit.isHexDigit)
      | _ => false

/-- An entity: a numbered character becomes a word, a known name a symbol. -/
def entity? (t : Text) : Option Lexeme :=
  match entityBody? t with
  | none => none
  | some body =>
    if isEntityNumber body then
      (Entity.decode? (t.take (body.length + 2))).map fun decoded =>
        { kind := .word, length := body.length + 2, value := decoded }
    else if isEntityName body && Symbol.isKnown body then
      some { kind := .symbol, length := body.length + 2, value := body }
    else none

/-- A keyword between dollar signs: `$Name: text $` on one line. -/
def keyword? : Text → Option Lexeme
  | [] => none
  | _ :: rest =>
    let name := rest.takeWhile CodeUnit.isLetter
    match rest.drop name.length with
    | [] => none
    | colon :: tail =>
      let body := tail.takeWhile fun u => u != CodeUnit.lineFeed && u != unit '$'
      if name.isEmpty || colon != unit ':' || body.isEmpty ||
          (tail.drop body.length).head? != some (unit '$') then none
      else
        some
          { kind := .keyword
            length := name.length + body.length + 3
            value := name
            payload := some (Text.trim body) }

/-! ### Addresses -/

/-- How much of the text an address may take. -/
def addressWindow : Nat := 2048

/-- What an absolute address begins with. -/
def schemes : List String := ["http://", "https://", "ftp://", "file://", "news://", "www."]

/-- Units that do not end an address. -/
def isAddressUnit (u : CodeUnit) : Bool :=
  !CodeUnit.isBlank u && u != unit '<' && u != unit '>' && u != unit '"'

/-- Punctuation that does not count to an address at its end. -/
def isTrailingPunctuation (u : CodeUnit) : Bool := (units ".,;:!?)]").elem u

/-- An absolute address without the punctuation behind it. -/
def address? (t : Text) : Option Lexeme :=
  let window := t.take addressWindow
  let found := schemes.find? fun scheme =>
    (units scheme).isPrefixOf window &&
      (window.drop (units scheme).length).head?.any isAddressUnit
  match found with
  | none => none
  | some _ =>
    let address := Text.dropWhileRight isTrailingPunctuation (window.takeWhile isAddressUnit)
    some { kind := .url, length := address.length, value := address }

/-- Units of the name in an e-mail address. -/
def isMailboxUnit (u : CodeUnit) : Bool :=
  CodeUnit.isLetter u || CodeUnit.isDigit u || (units "_.+-").elem u

/-- Units of a label in a domain name. -/
def isDomainUnit (u : CodeUnit) : Bool :=
  CodeUnit.isLetter u || CodeUnit.isDigit u || u == unit '-'

/-- Length of the labels ahead that each follow a dot. -/
def domainLength (t : Text) : Nat :=
  match t with
  | dot :: u :: rest =>
    if dot == unit '.' && isDomainUnit u then
      let label := rest.takeWhile isDomainUnit
      label.length + 2 + domainLength (rest.drop label.length)
    else 0
  | _ => 0
termination_by t.length
decreasing_by simp only [List.length_drop, List.length_cons]; omega

/-- An e-mail address: a mailbox, an at-sign and a domain of at least two labels. -/
def mail? (t : Text) : Option Lexeme :=
  let window := t.take addressWindow
  let mailbox := window.takeWhile isMailboxUnit
  match window.drop mailbox.length with
  | [] => none
  | at_ :: tail =>
    let label := tail.takeWhile isDomainUnit
    let more := domainLength (tail.drop label.length)
    if mailbox.isEmpty || at_ != unit '@' || label.isEmpty || more == 0 then none
    else
      let length := mailbox.length + 1 + label.length + more
      some { kind := .url, length, value := window.take length, isEmail := true }

/-! ### Words and comments -/

/-- Units of a word from its second unit on. -/
def wordTail : Text → Nat
  | [] => 0
  | u :: rest =>
    if CodeUnit.isSpace u || startsCommand u rest ||
        (u == unit '<' && Tag.endsWord (u :: rest)) ||
        (u == unit '&' && startsEntity (u :: rest)) then 0
    else wordTail rest + 1

/-- A word takes at least one unit, whatever it is. -/
def word (t : Text) : Lexeme :=
  let length := 1 + wordTail (t.drop 1)
  { kind := .word, length, value := t.take length }

/-- Length of the markup comment a text begins with; one that is not closed takes all. -/
def commentLength? (t : Text) : Option Nat :=
  if (units "<!--").isPrefixOf t then
    match Text.indexOf? (units "-->") (t.drop 4) with
    | some i => some (i + 7)
    | none => some t.length
  else none

def tag? (t : Text) : Option Lexeme :=
  (Tag.match? t).map fun found =>
    { kind := if found.isEnd then .endTag else .startTag
      length := found.length
      value := found.name
      attributes := found.attributes
      selfClosing := found.selfClosing }

/-- Whatever a first unit with a meaning of its own introduces. -/
def marked? : Text → Option Lexeme
  | [] => none
  | u :: rest =>
    if u == unit '\\' || u == unit '@' then command? (u :: rest)
    else if u == unit '<' then tag? (u :: rest)
    else if u == unit '&' then entity? (u :: rest)
    else if u == unit '$' then keyword? (u :: rest)
    else none

/-- The lexeme a text begins with that is not empty and does not begin with a comment. -/
def next (insidePre insideList atLineStart : Bool) (t : Text) : Lexeme :=
  let line := if !insidePre && atLineStart then (listItem? t).or (endList? t) else none
  match line with
  | some lexeme => lexeme
  | none =>
    if t.head?.any CodeUnit.isSpace then whiteSpace insidePre insideList t
    else ((marked? t).or ((address? t).or (mail? t))).getD (word t)

end Lexeme

end DocMarkup
