import DocMarkup.Parser.Inline
import DocMarkup.Text.Path

/-!
Markup tags in a paragraph, and the structures they open: lists, description lists, tables, block
quotes, headers, hyperlinks and images.
-/

namespace DocMarkup.Parser.Machine

/-! ### Lists and tables -/

/-- Ends a structure before a token that does not belong to it. -/
def closeBefore (m : Machine) (opener token : Token) : Machine :=
  (m.report opener (.closedBefore opener.value token.describe)).close (.handBack token)

/-- Ends a structure at the end of the text. -/
def closeAtEnd (m : Machine) (opener : Token) : Machine :=
  (m.reportUnclosed opener).close .endOfText

/-- Goes on with a structure when a part of it has ended. -/
def partEnded (m : Machine) (opener : Token) (outcome : Outcome) : Machine :=
  match outcome with
  | .endOfText => m.closeAtEnd opener
  | .handBack token => m.take token
  | _ => m.readSolid

/-- The number a list starts with. -/
def firstNumber (attributes : Attributes) : Whole :=
  match Whole.read? ((attributes.get? (units "start")).getD (units "1")) with
  | some n => if n == 0 then 1 else n
  | none => 1

def list (m : Machine) (token : Token) : Machine :=
  let type : ListType := if token.value == units "ol" then .ordered else .unordered
  (m.push (.list { type, attributes := token.attributes } (firstNumber token.attributes) token))
    |>.readSolid

/-- Begins an item of the innermost list. -/
def listItem (m : Machine) (token : Token) : Machine :=
  match m.stack with
  | frame :: outer =>
    match frame.construct with
    | .list list next opener =>
      let number := (Whole.read? ((token.attributes.get? (units "value")).getD [])).getD next
      let frame : Frame := { frame with construct := .list list (number + 1) opener }
      let m : Machine := { m with stack := frame :: outer }
      (m.push (.listItem { number, attributes := token.attributes })).read
    | _ => m.read
  | [] => m.read

/-- Takes a token between the items of a list. -/
def takeInList (m : Machine) (opener token : Token) : Machine :=
  if token.isStartTag ["li"] then m.listItem token
  else if token.isEndTag ["ul", "ol"] then
    (if token.value == opener.value then m
      else m.report token (.mismatchedEnd token.value opener.value)).close .complete
  else if token.kind == .endOfText then m.closeAtEnd opener
  else if token.isStructural then m.closeBefore opener token
  else (m.report token (.expectedListItem token.describe)).readSolid

/-- Takes a token between the parts of a description list. -/
def takeInDescList (m : Machine) (opener token : Token) : Machine :=
  if token.isStartTag ["dt"] then (m.push (.descTitle token.attributes)).read
  else if token.isStartTag ["dd"] then (m.push (.descData token.attributes)).read
  else if token.isEndTag ["dl"] then m.close .complete
  else if token.kind == .endOfText then m.closeAtEnd opener
  else if token.isStructural then m.closeBefore opener token
  else (m.report token (.expectedDescription token.describe)).readSolid

/-- Takes a token between the parts of a table.  A cell outside a row begins one. -/
def takeInTable (m : Machine) (caption : Option Node) (opener token : Token) : Machine :=
  if token.isStartTag ["caption"] then
    let m := if caption.isSome then m.report token .secondCaption else m
    (m.push (.caption token.attributes caption.isNone)).read
  else if token.isStartTag ["tr"] then (m.push (.row token.attributes)).readSolid
  else if token.isStartTag ["td", "th"] then
    let m := m.report token (.expectedRow (units "<" ++ token.value ++ units ">"))
    (m.push (.row [])).take token
  else if token.isEndTag ["table"] then m.close .complete
  else if token.kind == .endOfText then m.closeAtEnd opener
  -- a row that was ended by another token has its end tag here
  else if token.isEndTag ["tr"] then m.readSolid
  else if token.isStructural then m.closeBefore opener token
  else (m.report token (.expectedRow token.describe)).readSolid

/-- Takes a token between the cells of a row. -/
def takeInRow (m : Machine) (token : Token) : Machine :=
  if token.isStartTag ["td", "th"] then
    (m.push (.cell token.attributes (token.value == units "th"))).read
  else if token.isEndTag ["tr"] then m.close .complete
  else if token.kind == .endOfText then m.close .endOfText
  -- these belong to the table around
  else if token.isStartTag ["tr", "caption"] || token.isEndTag ["table"] then
    m.close (.handBack token)
  else if token.isBlank then m.readSolid
  else if token.isStructural then m.close (.handBack token)
  else (m.report token (.expectedCell token.describe)).readSolid

/-- Goes on with a row when a cell has ended. -/
def cellEnded (m : Machine) (outcome : Outcome) : Machine :=
  match outcome with
  | .handBack token => m.take token
  | .endOfText => m.close .endOfText
  | _ => m.readSolid

/-! ### Tags -/

/-- Takes an anchor tag: a hyperlink if it has an address, an anchor if it has a name. -/
def anchorTag (m : Machine) (token : Token) : Machine :=
  let attributes := token.attributes
  match attributes.get? (units "href") with
  | some url =>
    let link : Hyperlink :=
      { url
        relPath := if Path.isAbsolute url then [] else m.setting.relPath
        attributes := attributes.without (units "href") }
    if token.flags.selfClosing then (m.append (.leaf (.hyperlink link))).read
    else (m.push (.hyperlink link token)).read
  | none =>
    match (attributes.get? (units "name")).or (attributes.get? (units "id")) with
    | some name => (m.append (.leaf (.anchor name m.outputFile))).read
    | none => (m.report token .anchorWithoutTarget).read

def imageTag (m : Machine) (token : Token) : Machine :=
  let source := (token.attributes.get? (units "src")).getD []
  if source.isEmpty then (m.report token .imageWithoutSource).read
  else
    let isExternal := Path.isAbsolute source
    let image : Image :=
      { type := .html
        name := source
        relPath := if isExternal then [] else m.setting.relPath
        url := if isExternal then source else []
        attributes := token.attributes.without (units "src") }
    (m.append (.leaf (.image image))).read

/-- Takes a paragraph tag: it gives its attributes to a paragraph with nothing in it, and ends any
other. -/
def paragraphTag (m : Machine) (token : Token) : Machine :=
  if m.onlySynthetic then
    (m.modifyTop fun frame =>
      match frame.construct with
      | .paragraph _ styles =>
        { frame with construct := .paragraph token.attributes styles }
      | _ => frame).read
  else m.closeParagraph (.newParagraph token)

/-- What a tag does in a paragraph. -/
inductive TagRole where
  | paragraph
  | lineBreak
  | ruler
  | list
  | descList
  | table
  | blockQuote
  | anchor
  | image
  /-- A part of a structure whose parts are containers of the given kind. -/
  | part (container : Construct.Container)
  | other
  deriving DecidableEq, Repr, Inhabited

/-- The role of a tag that is neither a style nor a header. -/
def tagRole (name : Text) : TagRole :=
  (Command.lookup
    [("p", TagRole.paragraph), ("br", .lineBreak), ("hr", .ruler), ("ul", .list), ("ol", .list),
     ("dl", .descList), ("table", .table), ("blockquote", .blockQuote), ("a", .anchor),
     ("img", .image), ("li", .part .listItem), ("dt", .part .descData), ("dd", .part .descData),
     ("tr", .part .cell), ("td", .part .cell), ("th", .part .cell)] name).getD .other

def startTag (m : Machine) (token : Token) : Machine :=
  match Command.tagStyle? token.value, Command.headerLevel? token.value with
  | some style, _ => m.styleStart token style
  | none, some level =>
    (m.push (.header { level, attributes := token.attributes } token)).read
  | none, none =>
    match tagRole token.value with
    | .paragraph => m.paragraphTag token
    | .lineBreak => (m.append (.leaf .lineBreak)).read
    | .ruler => (m.append (.leaf .ruler)).read
    | .list => m.list token
    | .descList => (m.push (.descList token.attributes token)).readSolid
    | .table => (m.push (.table token.attributes none token)).readSolid
    | .blockQuote => (m.push (.blockQuote token.attributes token)).read
    | .anchor => m.anchorTag token
    | .image => m.imageTag token
    | .part container =>
      if m.container? == some container then m.closeParagraph (.handBack token)
      else (m.report token (.startOutsideStructure token.value)).read
    | .other => (m.report token (.startOutsideStructure token.value)).read

/-- The container that an end tag closes or is a part of. -/
def closedContainer? (name : Text) : Option Construct.Container :=
  match tagRole name with
  | .part container => some container
  | .list => some .listItem
  | .descList => some .descData
  | .table => some .cell
  | .blockQuote => some .blockQuote
  | _ => none

/-- Whether an end tag of this name is passed over. -/
def isIdleEnd (name : Text) : Bool :=
  match tagRole name with
  | .paragraph | .anchor | .lineBreak | .ruler | .image => true
  | _ => false

def endTag (m : Machine) (token : Token) : Machine :=
  match Command.tagStyle? token.value with
  | some style => m.styleEnd token style
  | none =>
    if isIdleEnd token.value then m.read
    else
      let closed := closedContainer? token.value
      if closed.isSome && m.container? == closed then m.closeParagraph (.handBack token)
      else (m.report token (.endOutsideStructure token.value)).read

end DocMarkup.Parser.Machine
