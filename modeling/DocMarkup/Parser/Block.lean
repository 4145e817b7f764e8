import DocMarkup.Parser.Inline
import DocMarkup.Parser.PlainText

/-!
Blocks inside paragraphs: simple sections, parameter sections, cross-reference items, automatic
lists, internal and paragraph blocks, and lists of references to sections.
-/

namespace DocMarkup.Parser.Machine

/-! ### Sections -/

/-- The rest of the line of a paragraph with a title of its own, as its heading. -/
def sectionTitle (m : Machine) (type : SimpleSectionType) : List Node × Machine :=
  if type != .user then ([], m)
  else
    let (title, m) := m.restOfLine
    if title.isEmpty then ([], m)
    else
      let (nodes, m) := m.plain false title
      ([.branch .title nodes], m)

/-- The simple section at the end of the innermost construct that a section of that type goes on
with.  Sections with titles stay apart. -/
def sectionBefore? (m : Machine) (type : SimpleSectionType) : Option Node :=
  match m.children with
  | [] => none
  | n :: _ =>
    match n.content with
    | .simpleSection found => if found == type && type != SimpleSectionType.user then some n else none
    | _ => none

/-- Begins a simple section.  One that directly follows a section of the same type goes on with
it, unless the type has titles. -/
def simpleSection (m : Machine) (token : Token) (type : SimpleSectionType) : Machine :=
  if m.insideSection then m.closeParagraph (.handBack token)
  else
    let (heads, m) := m.sectionTitle type
    match m.sectionBefore? type with
    | some n =>
      -- the section is taken up again, with a separator behind what it holds
      let m := (m.setChildren m.children.tail).push (.simpleSection type n.heads)
      (m.setChildren (.leaf .separator :: n.children.reverse)).read
    | none => (m.push (.simpleSection type heads)).read

/-- A keyword between dollar signs, as a section with the keyword as its title. -/
def keyword (m : Machine) (token : Token) : Machine :=
  let (title, m) := m.plain true token.value
  let (body, m) := m.plain true token.text
  let paragraphs := if body.isEmpty then [] else [Node.branch (.paragraph {}) body]
  (m.append (.node (.simpleSection .keyword) {} [] [.branch .title title]
    (markParagraphs paragraphs))).read

/-- Names at the scanner, separated by commas; a comma at the end of an argument joins it to the
next.  Every argument takes at least one unit, so the units ahead bound their number. -/
def names : Nat → Machine → List Text × Machine
  | 0, m => ([], m)
  | n + 1, m =>
    match m.argument with
    | (none, m) => ([], m)
    | (some argument, m) =>
      let here := (Text.splitAt (unit ',') argument).filter (!·.isEmpty)
      if Text.endsWith (units ",") argument then
        let (more, m) := names n m
        (here ++ more, m)
      else (here, m)

/-- The node of a parameter name or type, linked if that is wanted and the target is known. -/
def paramName (m : Machine) (name : Text) (linkable : Bool) : Node × Machine :=
  if !linkable || !m.setting.options.autolink then (.leaf (.word name), m)
  else
    match m.resolve name with
    | (none, m) => (.leaf (.word name), m)
    | (some target, m) =>
      (.leaf (.linkedWord (linkedWord name m.setting.relPath target)), m)

def paramNames (linkable : Bool) : List Text → Machine → List Node × Machine
  | [], m => ([], m)
  | name :: rest, m =>
    let (n, m) := m.paramName name linkable
    let (more, m) := paramNames linkable rest m
    (n :: more, m)

/-- The types and the name in `type|type#name`; there are no types unless something stands before
the number sign. -/
def splitTypes (written : Text) : Option (List Text) × Text :=
  match Text.indexOf? [unit '#'] written with
  | none | some 0 => (none, written)
  | some hash =>
    (some ((Text.splitAt (unit '|') (written.take hash)).filter (!·.isEmpty)),
      written.drop (hash + 1))

/-- The parameters of a list: nodes of the types, nodes of the names, and whether types are
written. -/
def parameters (type : ParamSectionType) :
    List Text → Machine → (List Node × List Node × Bool) × Machine
  | [], m => (([], [], false), m)
  | written :: rest, m =>
    let (types?, name) := splitTypes written
    let (typeNodes, m) := paramNames true (types?.getD []) m
    let (nameNode, m) := m.paramName name (type == .exception)
    let ((moreTypes, moreNames, typed), m) := parameters type rest m
    ((typeNodes ++ moreTypes, nameNode :: moreNames, types?.isSome || typed), m)

/-- The direction written behind a parameter command, if any. -/
def direction (m : Machine) (token : Token) (type : ParamSectionType) :
    Option ParamDirection × Machine :=
  if type != .param then (none, m)
  else
    match m.attached '[' ']' with
    | (none, m) => (none, m)
    | (some option, m) =>
      match ParamDirection.ofOption? option with
      | some direction => (some direction, m)
      | none => (none, m.report token (.unknownDirection option))

/-- The parameter section of that type at the end of the innermost construct. -/
def parametersBefore? (m : Machine) (type : ParamSectionType) : Option (ParamSection × Node) :=
  match m.children with
  | [] => none
  | n :: _ =>
    match n.content with
    | .paramSection sect => if sect.type == type then some (sect, n) else none
    | _ => none

/-- Begins the description of some parameters, in the parameter section before it if that has the
same type. -/
def paramSection (m : Machine) (token : Token) (type : ParamSectionType) : Machine :=
  if m.insideSection then m.closeParagraph (.handBack token)
  else
    let (direction?, m) := m.direction token type
    let previous := m.parametersBefore? type
    let sect : ParamSection := (previous.map (·.1)).getD { type }
    let lists := (previous.map fun (_, n) => n.children.reverse).getD []
    let m := if previous.isSome then m.setChildren m.children.tail else m
    let (written, m) := names m.scanner.cursor.ahead.length m
    let m := if written.isEmpty then m.report token (.missingParameterName token.value) else m
    let ((types, names, typed), m) := parameters type written m
    let sect : ParamSection :=
      { sect with
        hasDirection := sect.hasDirection || direction?.isSome
        hasTypes := sect.hasTypes || typed }
    let m := (m.push (.paramSection sect)).setChildren lists
    let list : ParamList := { type, direction := direction?.getD .unspecified }
    (m.push (.paramList list types names)).read

/-- The key and the heading of a cross-reference item. -/
def itemKey (m : Machine) (token : Token) : Text × Option Text × Machine :=
  if token.value != units "xrefitem" then (token.value, none, m)
  else
    let (key?, m) := m.argument
    let key := key?.getD []
    let (heading, m) := m.quoted
    -- the title of the list is read and not kept
    let (_, m) := m.quoted
    (key, heading, if key.isEmpty then m.report token .missingListKey else m)

def xrefItem (m : Machine) (token : Token) : Machine :=
  if m.insideSection then m.closeParagraph (.handBack token)
  else
    let (key, heading, m) := m.itemKey token
    let id := m.items + 1
    let known := (m.setting.options.listTitles.find? (·.1 == key)).map (·.2)
    let title := (heading.or (known.or (Command.listTitle? key))).getD key
    let anchor := unit '_' :: key ++ Text.padLeft 6 (unit '0') (unitsOfNat id)
    let m : Machine := { m with items := id }
    (m.push (.xrefItem { id, key, file := key, anchor, title, relPath := m.setting.relPath })).read

/-! ### Automatic lists -/

/-- Begins an item of the innermost list, numbered by its marker or by the list. -/
def openItem (m : Machine) (token : Token) : Machine :=
  match m.stack with
  | frame :: outer =>
    match frame.construct with
    | .autoList list next =>
      let number := token.number.getD next
      let frame : Frame := { frame with construct := .autoList list (number + 1) }
      let m : Machine := { m with stack := frame :: outer }
      (m.push (.autoListItem { indent := token.indent, number })).read
    | _ => m.read
  | [] => m.read

/-- Takes a list marker in a paragraph.  A marker that is not in use is a word; one that is not
indented further than the list around belongs to that list. -/
def listMarker (m : Machine) (token : Token) : Machine :=
  let isNumbered := token.flags.isNumbered
  if !isNumbered && !m.setting.options.listMarkers.contains token.value then
    ((m.addWord token.value).append (.leaf (.whiteSpace [CodeUnit.space]))).read
  else if (nearestAutoList? m.around).any (token.indent ≤ ·.indent) then
    m.closeParagraph (.handBack token)
  else
    let depth := (m.around.filterMap Construct.autoList?).countP (·.isNumbered)
    let m := m.push (.autoList { indent := token.indent, isNumbered, depth } 1)
    ({ m with scanner := m.scanner.startList } : Machine).openItem token

/-- Whether a token is the marker of a further item of a list whose next number is given. -/
def continuesList (list : AutoList) (next : Whole) (token : Token) : Bool :=
  token.kind == .listItem && token.indent == list.indent &&
    token.flags.isNumbered == list.isNumbered && !token.number.any (Whole.lt · next)

/-- Goes on with an automatic list once an item has ended. -/
def itemEnded (m : Machine) (list : AutoList) (next : Whole) (outcome : Outcome) : Machine :=
  match outcome with
  | .handBack token =>
    if continuesList list next token then m.openItem token
    else
      let m : Machine := { m with scanner := m.scanner.endList }
      let around := m.stack.tail.map (·.construct)
      -- a dot that ends a list further out as well is handed on
      let closesOuter := (nearestAutoList? around).any (token.indent ≤ ·.indent)
      if token.kind == .endList && !closesOuter then m.close .complete else m.close outcome
  | outcome => ({ m with scanner := m.scanner.endList } : Machine).close outcome

/-! ### Other blocks -/

/-- Begins a list of items that commands mark, with its first item.  Inside an item the command
belongs to the list around. -/
def simpleList (m : Machine) (token : Token) : Machine :=
  if m.around.head?.any Construct.isSimpleListItem then m.closeParagraph (.handBack token)
  else ((m.push .simpleList).push .simpleListItem).read

/-- Begins an internal block; there is none inside another. -/
def internal (m : Machine) (token : Token) : Machine :=
  if m.around.any Construct.isInternal then (m.report token .nestedInternal).read
  else (m.push .internal).read

/-- Takes one entry of a list of references to sections. -/
def refItem (m : Machine) (token : Token) : Machine :=
  let (target?, m) := m.argument
  let (text, m) := m.restOfLine
  match target? with
  | none => m.report token .missingRefItemTarget
  | some target =>
    let (found?, m) := m.resolve target
    let title := (found?.bind Target.title).getD []
    -- the text on the line, else the title of the target, else its name
    let shown := if !text.isEmpty then text else if !title.isEmpty then title else target
    let (nodes, m) := m.plain false shown
    let item : RefItem :=
      { target
        file := (found?.map Target.file).getD []
        anchor := (found?.map Target.anchor).getD []
        relPath := m.setting.relPath }
    let m := m.append (.branch (.refItem item) nodes)
    if found?.isSome then m else m.report token (.unresolvedRefItem target)

/-- Takes a token in a list of references to sections. -/
def takeInRefList (m : Machine) (opener token : Token) : Machine :=
  if token.isCommand ["refitem"] then (m.refItem token).readSolid
  else if token.isCommand ["endsecreflist"] then m.close .complete
  else if token.kind == .endOfText then (m.report opener .unterminatedRefList).close .endOfText
  else (m.report token (.unexpectedInRefList token.describe)).readSolid

end DocMarkup.Parser.Machine
