import DocMarkup.Html.Escape
import DocMarkup.Number.Basic
import DocMarkup.Text.Search

/-!
The page that is being written.  What is written is kept in pieces that tell tags from text, and
nothing is written while output is hidden.
-/

namespace DocMarkup.Html

/-- A piece of a page. -/
inductive Piece where
  /-- A start tag; `attributes` is written behind the name as it is. -/
  | opening (tag : String) (attributes : Text)
  | closing (tag : String)
  /-- A tag without content, with what is written between its name and its end. -/
  | single (tag : String) (attributes : Text)
  /-- Escaped text. -/
  | text (escaped : Text)
  /-- Text written as it is. -/
  | raw (written : Text)
  deriving DecidableEq, Repr, Inhabited

def Piece.write : Piece → Text
  | opening tag attributes => units ("<" ++ tag) ++ attributes ++ units ">"
  | closing tag => units ("</" ++ tag ++ ">")
  | single tag attributes => units ("<" ++ tag) ++ attributes ++ units "/>"
  | text escaped => escaped
  | raw written => written

/-- Settings of a page. -/
structure PageOptions where
  fileExtension : Text := units ".html"
  /-- The way from the page to the root of the output, for links in code. -/
  relPath : Text := []
  tabSize : Nat := 4
  externalInWindow : Bool := false
  tagFiles : List (Text × Text) := []
  deriving Inhabited

/-- An entry for the index: its scope, its anchor and the words. -/
structure IndexItem where
  scope : Text
  anchor : Text
  entry : Text
  deriving DecidableEq, Repr, Inhabited

structure Page where
  options : PageOptions := {}
  /-- The pieces written so far, the last first. -/
  pieces : List Piece := []
  hidden : Bool := false
  /-- Whether output was hidden before each change that has not been undone. -/
  hideStack : List Bool := []
  /-- The column of code in its line. -/
  column : Nat := 0
  /-- Index entries, the last first. -/
  index : List IndexItem := []
  deriving Inhabited

namespace Page

/-- All that was written. -/
def contents (p : Page) : Text := p.pieces.reverse.flatMap Piece.write

/-- Adds a piece unless output is hidden. -/
def put (p : Page) (piece : Piece) : Page :=
  if p.hidden then p else { p with pieces := piece :: p.pieces }

def putOpening (p : Page) (tag : String) (attributes : Text) : Page :=
  p.put (.opening tag attributes)

def putClosing (p : Page) (tag : String) : Page := p.put (.closing tag)

def putRaw (p : Page) (t : Text) : Page := p.put (.raw t)

/-- Layout between tags. -/
def putLayout (p : Page) (s : String) : Page := p.put (.text (units s))

/-- Text with its special characters escaped. -/
def putText (p : Page) (t : Text) : Page := p.put (.text (escapeText t))

/-! ### Hiding -/

def hide (p : Page) : Page := { p with hidden := true, hideStack := p.hidden :: p.hideStack }

/-- Undoes the last `hide`. -/
def unhide (p : Page) : Page :=
  match p.hideStack with
  | [] => { p with hidden := false }
  | before :: rest => { p with hidden := before, hideStack := rest }

/-! ### Links -/

/-- The target of a link. -/
structure LinkTarget where
  /-- The tag file of an external target. -/
  ref : Text := []
  file : Text := []
  relPath : Text := []
  anchor : Text := []
  tooltip : Text := []
  deriving DecidableEq, Repr, Inhabited

/-- Where links to a tag file lead: the base address of its documentation, or the way to the root
for local targets.  A tag file without a base leads nowhere. -/
def base (options : PageOptions) (relPath ref : Text) : Text :=
  if ref.isEmpty then relPath
  else
    let found := ((options.tagFiles.find? (·.1 == ref)).map (·.2)).getD []
    if found.isEmpty then []
    else
      let found :=
        if !relPath.isEmpty && found.head? == some (unit '.') then relPath ++ found else found
      if Text.endsWith (units "/") found then found else found ++ units "/"

/-- Attributes of a link to other documentation, up to its address. -/
def externalAttributes (options : PageOptions) (relPath ref : Text) : Text :=
  let window := if options.externalInWindow then units "target=\"_blank\" " else []
  let base := base options relPath ref
  if base.isEmpty then window
  else window ++ units "data-tagfile=\"" ++ ref ++ units ":" ++ base ++ units "\" "

/-- The attributes of a link: its class, its address and its tooltip.  `escape` is applied to the
tooltip. -/
def linkAttributes (options : PageOptions) (localClass externalClass : String)
    (escape : Text → Text) (target : LinkTarget) : Text :=
  (if target.ref.isEmpty then units (" class=\"" ++ localClass ++ "\" ")
    else units (" class=\"" ++ externalClass ++ "\" ") ++
      externalAttributes options target.relPath target.ref) ++
  units "href=\"" ++ base options target.relPath target.ref ++
  (if target.file.isEmpty then [] else target.file ++ options.fileExtension) ++
  (if target.anchor.isEmpty then [] else units "#" ++ target.anchor) ++ units "\"" ++
  (if target.tooltip.isEmpty then []
    else units " title=\"" ++ escape target.tooltip ++ units "\"")

/-- Double quotes alone escaped. -/
def escapeQuotes : Text → Text := escapeWith [quoteEntry]

def startLink (p : Page) (target : LinkTarget) : Page :=
  p.putOpening "a" (linkAttributes p.options "el" "elRef" escapeQuotes target)

def endLink (p : Page) : Page := p.putClosing "a"

/-! ### Blocks -/

/-- Begins a paragraph; `attributes` is written in its tag. -/
def startParagraph (p : Page) (attributes : Text) : Page := p.putOpening "p" attributes

def endParagraph (p : Page) : Page := (p.putClosing "p").putLayout "\n"

def headingTag (level : Number) : String := "h" ++ level.decimal

def writeAnchor (p : Page) (name : Text) : Page :=
  (p.putOpening "a" (units " class=\"anchor\" id=\"" ++ name ++ units "\"")).putClosing "a"

def startSection (p : Page) (anchor : Text) (level : Number) : Page :=
  ((p.putOpening (headingTag level) []).writeAnchor anchor).putLayout "\n"

def endSection (p : Page) (level : Number) : Page :=
  (p.putClosing (headingTag level)).putLayout "\n"

def startCodeFragment (p : Page) : Page := p.putOpening "div" (units " class=\"fragment\"")

def endCodeFragment (p : Page) : Page := (p.putClosing "div").putLayout "<!-- fragment -->"

def writeRuler (p : Page) : Page := (p.put (.single "hr" [])).putLayout "\n"

def lineBreak (p : Page) : Page := (p.put (.single "br" (units " "))).putLayout "\n"

/-- Notes an entry for the index, hidden or not. -/
def addIndexItem (p : Page) (item : IndexItem) : Page := { p with index := item :: p.index }

/-! ### Code -/

/-- Code points of code, written from a column on, and the column behind them.  A tab fills up to
the next tab stop, a carriage return is dropped, and a line feed begins a line. -/
def writeCode (tabSize : Nat) : Nat → List Nat → Text × Nat
  | column, [] => ([], column)
  | column, point :: rest =>
    if point == 0x09 then
      let spaces := tabSize - column % tabSize
      let (more, last) := writeCode tabSize (column + spaces) rest
      (List.replicate spaces CodeUnit.space ++ more, last)
    else if point == 0x0A then
      let (more, last) := writeCode tabSize 0 rest
      (CodeUnit.lineFeed :: more, last)
    else if point == 0x0D then writeCode tabSize column rest
    else
      let (more, last) := writeCode tabSize (column + 1) rest
      (escapePage (unitsOfCodePoint point) ++ more, last)

/-- Source text; the column moves on even while output is hidden. -/
def putCode (p : Page) (t : Text) : Page :=
  let (written, column) := writeCode p.options.tabSize p.column (Text.codePoints t)
  { p with column }.put (.text written)

def startCodeLine (p : Page) : Page :=
  { p with column := 0 }.putOpening "div" (units " class=\"line\"")

def endCodeLine (p : Page) : Page := (p.putClosing "div").putLayout "\n"

/-- A line number in front of a line of code. -/
def writeLineNumber (p : Page) (number : Number) : Page :=
  let text := Text.padLeft 5 CodeUnit.space (units number.decimal)
  ((p.putOpening "span" (units " class=\"lineno\"")).put (.text text)).putClosing "span"
    |>.putLayout "&#160;"

def startFontClass (p : Page) (name : Text) : Page :=
  p.putOpening "span" (units " class=\"" ++ name ++ units "\"")

def endFontClass (p : Page) : Page := p.putClosing "span"

def writeNamedAnchor (p : Page) (name : Text) : Page :=
  (p.putOpening "a" (units " name=\"" ++ name ++ units "\"")).putClosing "a"

def writeCodeLink (p : Page) (target : LinkTarget) (name : Text) : Page :=
  -- code is not told where it stands, so its links start from the page
  let target := { target with relPath := p.options.relPath }
  (((p.putOpening "a" (linkAttributes p.options "code" "codeRef" escapeQuoted target)).putText
    name).putClosing "a")

end Page

end DocMarkup.Html
