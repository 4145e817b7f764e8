import DocMarkup.Alias
import DocMarkup.Comment
import DocMarkup.Command
import DocMarkup.Diagnostic
import DocMarkup.Parser.Frame
import DocMarkup.Scanner.Basic

/-!
The state of a parse: where the scanner stands, which constructs are open, and what comes next.
Reading a comment is a sequence of small steps on this state.
-/

namespace DocMarkup.Parser

/-- The settings of a parser. -/
structure Options where
  surroundings : Surroundings := {}
  aliases : Option AliasTable := none
  /-- Whether words that look like names are linked. -/
  autolink : Bool := true
  /-- Titles of the lists that cross-reference commands collect, by key. -/
  listTitles : List (Text × Text) := []
  /-- The markers that begin a list of bullets. -/
  listMarkers : List Text := [units "-", units "*", units "+"]
  deriving Inhabited

/-- What stays the same throughout a comment. -/
structure Setting where
  options : Options := {}
  comment : Comment
  /-- The text of the comment with its aliases expanded. -/
  text : Text
  fileName : Text
  relPath : Text
  deriving Inhabited

/-- What happens in a parse and can be told from outside. -/
inductive Event where
  /-- A command with a name was scanned. -/
  | scanned (command : Text)
  /-- A command was taken up in a paragraph. -/
  | entered (command : Text)
  | reported (diagnostic : Diagnostic)
  | asked (request : LinkRequest)
  deriving DecidableEq, Repr, Inhabited

/-- How a construct ended. -/
inductive Outcome where
  /-- It is complete. -/
  | complete
  /-- The text ended. -/
  | endOfText
  /-- A blank line or a paragraph tag ended the paragraph. -/
  | newParagraph (token : Token)
  /-- The token belongs to a construct further out. -/
  | handBack (token : Token)
  deriving DecidableEq, Repr, Inhabited

/-- What comes next. -/
inductive Phase where
  /-- The next token goes to the innermost construct. -/
  | read
  /-- As `read`, past white space. -/
  | readSolid
  /-- The next token may belong to a word of that style. -/
  | readWord (style : Style)
  /-- The innermost construct gets this token. -/
  | take (token : Token)
  /-- A construct within the innermost one has ended. -/
  | ended (outcome : Outcome)
  | finished
  deriving DecidableEq, Repr, Inhabited

/-- What breaks a parse off. -/
inductive Failure where
  /-- A node made for one construct was to be added to another. -/
  | misplaced (kind : Kind)
  /-- The scanner was sent to an offset outside its text. -/
  | outsideText (offset : Nat)
  deriving DecidableEq, Repr, Inhabited

structure Machine where
  setting : Setting
  scanner : Scanner
  /-- The open constructs, the innermost first. -/
  stack : List Frame
  phase : Phase := .read
  /-- Styles closed with the last paragraph, to be opened again in the next. -/
  reopening : List OpenStyle := []
  /-- The text that include operators move through. -/
  included : Option IncludeBuffer := none
  /-- Cross-reference items read so far. -/
  items : Nat := 0
  /-- The formulas known so far; the number of a formula is its place. -/
  formulas : List Text := []
  /-- Constructs begun so far; the root is the first. -/
  begun : Nat := 1
  /-- What happened so far, the last first. -/
  journal : List Event := []
  /-- What broke the parse off, if anything did. -/
  failure : Option Failure := none
  deriving Inhabited

namespace Machine

/-! ### Phases -/

def read (m : Machine) : Machine := { m with phase := .read }

def readSolid (m : Machine) : Machine := { m with phase := .readSolid }

def take (m : Machine) (token : Token) : Machine := { m with phase := .take token }

def ended (m : Machine) (outcome : Outcome) : Machine := { m with phase := .ended outcome }

/-- Breaks the parse off.  What follows the first failure does not count. -/
def fail (m : Machine) (failure : Failure) : Machine :=
  { m with failure := m.failure.or (some failure) }

/-! ### Journal -/

def record (m : Machine) (event : Event) : Machine := { m with journal := event :: m.journal }

/-- Reports a problem between two offsets of the text. -/
def reportBetween (m : Machine) (problem : Problem) (subject : Option Text) (start stop : Nat) :
    Machine :=
  let first := m.setting.comment.startLine.getD 1
  let line := (first + (Text.lineOf m.setting.text start : Nat)).pred
  m.record (.reported (problem.toDiagnostic subject m.setting.fileName line start stop))

def report (m : Machine) (token : Token) (problem : Problem) : Machine :=
  m.reportBetween problem (if token.value.isEmpty then none else some token.value)
    token.start token.stop

/-- Asks for the target of a reference. -/
def resolve (m : Machine) (target : Text) : Option Target × Machine :=
  match m.setting.options.surroundings.resolve? with
  | none => (none, m)
  | some resolve? =>
    let request : LinkRequest :=
      { target
        scope := m.setting.comment.scope
        isExample := m.setting.comment.isExample
        exampleName := m.setting.comment.exampleName }
    (resolve? request, m.record (.asked request))

/-! ### Scanner -/

def insidePre (m : Machine) : Bool := m.scanner.insidePre

def setInsidePre (m : Machine) (insidePre : Bool) : Machine :=
  { m with scanner := m.scanner.setInsidePre insidePre }

def next (m : Machine) : Token × Machine :=
  let scanner := m.scanner.scan
  let m := { m with scanner }
  (scanner.token,
    if scanner.last.isNamedCommand then m.record (.scanned scanner.last.value) else m)

def argument (m : Machine) : Option Text × Machine :=
  let (argument, scanner) := m.scanner.readArgument
  (argument, { m with scanner })

def quoted (m : Machine) : Option Text × Machine :=
  let (argument, scanner) := m.scanner.readQuoted
  (argument, { m with scanner })

def restOfLine (m : Machine) : Text × Machine :=
  let (line, scanner) := m.scanner.readLine
  (line, { m with scanner })

def attached (m : Machine) (opening closing : Char) : Option Text × Machine :=
  let (argument, scanner) := m.scanner.readAttached [unit opening] [unit closing]
  (argument, { m with scanner })

def raw (m : Machine) (markers : List Text) : Scanner.RawBlock × Machine :=
  let (block, scanner) := m.scanner.readRaw markers
  (block, { m with scanner })

/-- Moves the scanner to an offset of its text. -/
def moveTo (m : Machine) (offset : Nat) : Machine :=
  match m.scanner.moveTo? offset with
  | some scanner => { m with scanner }
  | none => m.fail (.outsideText offset)

/-! ### Frames -/

/-- The nodes of the innermost construct, the last first. -/
def children (m : Machine) : List Node := (m.stack.head?.map Frame.children).getD []

/-- Changes the innermost frame. -/
def modifyTop (m : Machine) (f : Frame → Frame) : Machine :=
  match m.stack with
  | [] => m
  | frame :: outer => { m with stack := f frame :: outer }

def setChildren (m : Machine) (children : List Node) : Machine :=
  m.modifyTop fun frame => { frame with children }

/-- Adds a node to the innermost construct. -/
def append (m : Machine) (n : Node) : Machine :=
  m.modifyTop fun frame => { frame with children := n :: frame.children }

/-- Adds nodes in their order. -/
def appendAll (m : Machine) (nodes : List Node) : Machine := nodes.foldl append m

/-- Begins a construct within the innermost one. -/
def push (m : Machine) (construct : Construct) : Machine :=
  { m with
    stack := { construct, id := m.begun, madeFor := m.stack.head?.map Frame.id } :: m.stack
    begun := m.begun + 1 }

/-- Adds the node of a construct that has ended to the innermost construct, which has to be the one
it was made for. -/
def attach (m : Machine) (frame : Frame) : Machine :=
  if frame.madeFor == m.stack.head?.map Frame.id then m.append frame.toNode
  else m.fail (.misplaced frame.toNode.kind)

def pop (m : Machine) : Machine := { m with stack := m.stack.tail }

/-- Ends the innermost construct: its node goes to the one around it. -/
def close (m : Machine) (outcome : Outcome) : Machine :=
  match m.stack with
  | [] => { m with phase := .finished }
  | frame :: outer => (({ m with stack := outer } : Machine).attach frame).ended outcome

/-- The constructs around the innermost one, from the inside out. -/
def around (m : Machine) : List Construct := m.stack.tail.map (·.construct)

/-- The automatic list nearest to a place. -/
def nearestAutoList? (around : List Construct) : Option AutoList :=
  around.findSome? Construct.autoList?

/-- The container nearest to the innermost construct. -/
def container? (m : Machine) : Option Construct.Container :=
  m.around.findSome? Construct.container?

/-- Whether a section command here belongs to a section further out. -/
def insideSection (m : Machine) : Bool :=
  (m.around.find? fun c => c.ownsSections || c.container?.isSome).any Construct.ownsSections

/-! ### Facts about the comment -/

/-- The origin recorded with code. -/
def origin (m : Machine) : CodeOrigin where
  context := (m.setting.comment.scope.map Scope.name).getD []
  isExample := m.setting.comment.isExample
  exampleFile := m.setting.comment.exampleName

def outputFile (m : Machine) : Text := (m.setting.comment.scope.bind Scope.outputFile).getD []

end Machine

end DocMarkup.Parser
