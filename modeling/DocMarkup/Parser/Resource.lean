import DocMarkup.Parser.PlainText
import DocMarkup.Parser.Word
import DocMarkup.Text.Lines
import DocMarkup.Text.Path

/-!
Commands that take raw text or name something outside the comment: raw blocks, formulas, included
files, images, diagrams, references, citations, anchors and index entries.
-/

namespace DocMarkup.Parser.Machine

/-! ### Raw text -/

def verbatim (m : Machine) (token : Token) (type : VerbatimType) (ending : Text) : Machine :=
  let (hint?, m) := if type == .code then m.attached '\x7b' '\x7d' else (none, m)
  let hint := hint?.getD []
  let language := if hint.head? == some (unit '.') then hint.drop 1 else hint
  let (option?, m) := if type == .htmlOnly then m.attached '[' ']' else (none, m)
  let (block, m) := m.raw (Command.markers ending)
  let m :=
    if block.terminated then m else m.report token (.unterminatedVerbatim token.value ending)
  let text :=
    if type == .code || type == .verbatim then Text.trimBlock block.text else block.text
  (m.append (.leaf (.verbatim
    { type, text, origin := m.origin, isBlock := option? == some (units "block"), language }))).read

/-- The text of a formula up to its end, and whether the end was found.  A formula with an
environment names it in braces. -/
def formulaText (m : Machine) (token : Token) : Text × Bool × Machine :=
  let (block, m') := m.raw
    (if token.value == units "f$" then Command.markers (units "f$")
     else if token.value == units "f[" then Command.markers (units "f]")
     else [units "\x7d"])
  if token.value == units "f$" then
    (units "$" ++ block.text ++ units "$", block.terminated, m')
  else if token.value == units "f[" then
    (units "\\[" ++ block.text ++ units "\\]", block.terminated, m')
  else
    -- the block was the name of the environment; its text begins behind the next brace
    let s := m'.scanner
    let m' : Machine :=
      if s.cursor.ahead.head? == some (unit '\x7b') then m'.moveTo (s.offset + 1) else m'
    let (body, m') := m'.raw (Command.markers (units "f\x7d"))
    let name := Text.trim block.text
    (units "\\begin\x7b" ++ name ++ units "\x7d" ++ body.text ++ units "\\end\x7b" ++ name ++
      units "\x7d", block.terminated && body.terminated, m')

def formula (m : Machine) (token : Token) : Machine :=
  let (text, terminated, m) := m.formulaText token
  let m := if terminated then m else m.report token (.unterminatedFormula token.value)
  let (id, formulas) := Formula.register m.formulas text
  let m : Machine := { m with formulas }
  (m.append (.leaf (.formula
    { id, name := Formula.imageName id, text, relPath := m.setting.relPath }))).read

/-! ### Files -/

/-- The part of a file to show; a problem is reported when the file or the part is missing. -/
def includedText (m : Machine) (token : Token) (file block : Text) : Text × Machine :=
  match m.setting.options.surroundings.fileText? file with
  | none => ([], m.report token (.fileNotFound file))
  | some contents =>
    if block.isEmpty then (contents, m)
    else
      match Text.snippet? block contents with
      | some text => (text, m)
      | none => ([], m.report token (.blockNotFound block file))

def inclusion (m : Machine) (token : Token) (type : IncludeType) : Machine :=
  match m.argument with
  | (none, m) => (m.report token (.missingFileName token.value)).read
  | (some file, m) =>
    let (block?, m) := if type == .snippet then m.argument else (none, m)
    let block := block?.getD []
    let m :=
      if type == .snippet && block.isEmpty then m.report token (.missingBlockName file) else m
    let (text, m) := m.includedText token file block
    let m : Machine := if type == .hidden then { m with included := some { text } } else m
    (m.append (.leaf (.inclusion
      { type, file, text, origin := m.origin, blockName := block }))).read

/-- The step of an include operator, if the node is one. -/
def includeStep? (n : Node) : Option IncludeStep :=
  match n.content with
  | .includeStep step => some step
  | _ => none

/-- Whether a step begins a run behind these children, last first.  A single space before it does
not begin one, even at the start. -/
def beginsRun : List Node → Bool
  | [] => true
  | n :: rest =>
    if n.isKind .whiteSpace then
      match rest with
      | [] => false
      | before :: _ => !before.isKind .includeStep
    else !n.isKind .includeStep

/-- Marks the step at the end of these children, last first, as followed by another. -/
def continueRun : List Node → List Node
  | [] => []
  | n :: rest =>
    match includeStep? n with
    | some step => n.withContent (.includeStep { step with isLast := false }) :: rest
    | none =>
      if n.isKind .whiteSpace then
        match rest with
        | [] => [n]
        | before :: rest =>
          match includeStep? before with
          | some step =>
            n :: before.withContent (.includeStep { step with isLast := false }) :: rest
          | none => n :: before :: rest
      else n :: rest

def includeStep (m : Machine) (token : Token) (operator : IncludeOperator) : Machine :=
  let (pattern, m) := m.restOfLine
  let m := if pattern.isEmpty then m.report token (.missingPattern token.value) else m
  let (text, m) : Text × Machine :=
    match m.included with
    | some buffer =>
      let (text, buffer) := buffer.apply operator pattern
      (text, { m with included := some buffer })
    | none => ([], m.report token (.noIncludedText token.value))
  -- a step that is followed by another is no longer the last of its run
  let isFirst := beginsRun m.children
  let m := m.setChildren (continueRun m.children)
  (m.append (.leaf (.includeStep
    { operator, pattern, text, origin := m.origin, isFirst, isLast := true }))).read

/-! ### Images and diagrams -/

/-- The value of a size option such as `width=10cm`. -/
def sizeValue? (name : String) (argument : Text) : Option Text :=
  let key := units name ++ units "="
  let value := argument.drop key.length
  if key.isPrefixOf argument && !value.isEmpty &&
      value.all (fun u => u != 0x2028 && u != 0x2029) then some value
  else none

/-- The width and height that follow; the last of each counts.  The scanner ends before the first
argument that is neither.  Every option takes at least one unit, so the units ahead bound their
number. -/
def sizes : Nat → Text × Text → Machine → (Text × Text) × Machine
  | 0, size, m => (size, m)
  | n + 1, size, m =>
    let offset := m.scanner.offset
    match m.argument with
    | (none, m) => (size, m.moveTo offset)
    | (some argument, m) =>
      match sizeValue? "width" argument, sizeValue? "height" argument with
      | some width, _ => sizes n (width, size.2) m
      | none, some height => sizes n (size.1, height) m
      | none, none => (size, m.moveTo offset)

/-- The caption in quotes, and the sizes behind it. -/
def captionAndSize (m : Machine) : Text × (Text × Text) × Machine :=
  let (caption?, m) := m.quoted
  let (size, m) := sizes (m.scanner.cursor.ahead.length + 1) ([], []) m
  (caption?.getD [], size, m)

def publishedName (m : Machine) (token : Token) (file format : Text) : Text × Machine :=
  match m.setting.options.surroundings.findImage? with
  | none => (file, m)
  | some findImage? =>
    match findImage? file (Text.toLower format) with
    | some name => (name, m)
    | none => (file, m.report token (.imageNotFound file))

def image (m : Machine) (token : Token) : Machine :=
  let (format?, m) := m.argument
  let (file?, m) := if format?.isSome then m.argument else (none, m)
  match format?, file? with
  | some format, some file =>
    match Command.imageType? (Text.toLower format) with
    | none => (m.report token (.unknownImageFormat format)).read
    | some type =>
      let (caption, (width, height), m) := m.captionAndSize
      let isExternal := Path.isAbsolute file
      let (name, m) := if isExternal then (file, m) else m.publishedName token file format
      let (text, m) := if caption.isEmpty then ([], m) else m.plain false caption
      let image : Image :=
        { type, name, width, height
          relPath := if isExternal then [] else m.setting.relPath
          url := if isExternal then file else [] }
      (m.append (.branch (.image image) text)).read
  | _, _ => (m.report token .missingImageArguments).read

def diagramFile (m : Machine) (token : Token) (type : DiagramType) : Machine :=
  match m.argument with
  | (none, m) => (m.report token (.missingFileName token.value)).read
  | (some file, m) =>
    let (caption, (width, height), m) := m.captionAndSize
    let (text, m) := if caption.isEmpty then ([], m) else m.plain false caption
    let diagram : DiagramFile :=
      { type, name := file, file, width, height
        relPath := m.setting.relPath
        context := m.origin.context }
    (m.append (.branch (.diagramFile diagram) text)).read

/-! ### References -/

/-- Takes a reference.  One whose target is unknown becomes an emphasized word. -/
def reference (m : Machine) (token : Token) (isSubPage : Bool) : Machine :=
  match m.argument with
  | (none, m) => (m.report token (.missingTarget token.value)).read
  | (some target, m) =>
    let (text?, m) := m.quoted
    match m.resolve target with
    | (none, m) =>
      let m := m.report token (.unresolvedTarget target token.value)
      let m := m.changeStyle .italic true token.start []
      let m := m.append (.leaf (.word (text?.getD target)))
      (m.changeStyle .italic false token.start []).read
    | (some found, m) =>
      let (text, m) :=
        match text? with
        | some text => m.plain false text
        | none => ([], m)
      let reference : Reference :=
        { target
          file := found.file
          relPath := m.setting.relPath
          ref := found.ref.getD []
          anchor := found.anchor
          targetTitle := found.title.getD target
          toAnchor := found.isAnchor
          toSection := found.isSection
          isSubPage }
      (m.append (.branch (.reference reference) text)).read

def link (m : Machine) (token : Token) : Machine :=
  match m.argument with
  | (none, m) => (m.report token (.missingTarget token.value)).read
  | (some target, m) =>
    let (found?, m) := m.resolve target
    let link : Link :=
      { target
        file := (found?.map Target.file).getD []
        relPath := m.setting.relPath
        ref := (found?.bind Target.ref).getD []
        anchor := (found?.map Target.anchor).getD []
        tooltip := (found?.bind Target.tooltip).getD [] }
    (m.push (.link link found?.isSome token)).read

def citation (m : Machine) (token : Token) : Machine :=
  match m.argument with
  | (none, m) => (m.report token .missingCitationLabel).read
  | (some label, m) =>
    let found? := m.setting.options.surroundings.citation? label
    let m := if found?.isSome then m else m.report token (.unresolvedCitation label)
    let citation : Citation :=
      { target := label
        text := (found?.bind Target.title).getD label
        file := (found?.map Target.file).getD []
        relPath := m.setting.relPath
        ref := (found?.bind Target.ref).getD []
        anchor := (found?.map Target.anchor).getD [] }
    (m.append (.leaf (.citation citation))).read

/-- The file and the anchor of a target, parted by its first number sign. -/
def splitTarget (target : Text) : Text × Text :=
  (target.takeWhile (· != unit '#'), (target.dropWhile (· != unit '#')).drop 1)

/-- Takes a reference to a place given by file and anchor. -/
def internalReference (m : Machine) (token : Token) : Machine :=
  match m.argument with
  | (none, m) => (m.report token .missingInternalTarget).read
  | (some target, m) =>
    let (text?, m) := m.quoted
    let (text, m) := m.plain false (text?.getD target)
    let (file, anchor) := splitTarget target
    (m.append (.branch (.internalReference { file, relPath := m.setting.relPath, anchor })
      text)).read

/-- Takes a request for a copy of other documentation. -/
def copy (m : Machine) (token : Token) (brief details : Bool) : Machine :=
  match m.argument with
  | (none, m) => (m.report token (.missingTarget token.value)).read
  | (some target, m) => (m.append (.leaf (.copy { target, brief, details }))).read

def anchor (m : Machine) (token : Token) : Machine :=
  match m.argument with
  | (none, m) => (m.report token .missingAnchorName).read
  | (some name, m) => (m.append (.leaf (.anchor name m.outputFile))).read

def indexEntry (m : Machine) : Machine :=
  let (entry, m) := m.restOfLine
  let comment := m.setting.comment
  if entry.isEmpty || !comment.indexWords then m.read
  else
    (m.append (.leaf (.indexEntry
      { entry, scope := m.origin.context, memberAnchor := comment.memberAnchor }))).read

end DocMarkup.Parser.Machine
