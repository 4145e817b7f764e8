import DocMarkup.Doc.Grid
import DocMarkup.Token

/-!
Constructs that are being read.  The stack of frames is the path from the root of the tree down to
the place where the next node goes; every frame becomes a node when its construct ends.
-/

namespace DocMarkup.Parser

/-- A style that was entered by a tag and not left yet. -/
structure OpenStyle where
  style : Style
  tag : Text
  attributes : Attributes
  deriving DecidableEq, Repr, Inhabited

/-- A construct that has been begun.  `opener` is the token that began it, kept where messages are
placed at it. -/
inductive Construct where
  | root (singleLine : Bool)
  | sect (sect : Section)
  /-- A paragraph with the styles entered in it, the last first. -/
  | paragraph (attributes : Attributes) (styles : List OpenStyle)
  | simpleSection (type : SimpleSectionType) (heads : List Node)
  | paramSection (sect : ParamSection)
  | paramList (list : ParamList) (types names : List Node)
  | xrefItem (item : XRefItem)
  /-- An automatic list with the number of its next item. -/
  | autoList (list : AutoList) (next : Whole)
  | autoListItem (item : AutoListItem)
  | simpleList
  | simpleListItem
  | internal
  | parBlock (opener : Token)
  | refList (opener : Token)
  /-- A list of tags with the number of its next item. -/
  | list (list : MarkupList) (next : Whole) (opener : Token)
  | listItem (item : MarkupListItem)
  | descList (attributes : Attributes) (opener : Token)
  | descTitle (attributes : Attributes)
  | descData (attributes : Attributes)
  | table (attributes : Attributes) (caption : Option Node) (opener : Token)
  | row (attributes : Attributes)
  | cell (attributes : Attributes) (isHeading : Bool)
  /-- A caption, which is dropped unless it is the first of its table. -/
  | caption (attributes : Attributes) (kept : Bool)
  | blockQuote (attributes : Attributes) (opener : Token)
  | header (header : Header) (opener : Token)
  | hyperlink (link : Hyperlink) (opener : Token)
  | link (link : Link) (resolved : Bool) (opener : Token)
  deriving Inhabited

namespace Construct

def isInternal : Construct → Bool
  | internal => true
  | _ => false

def isParBlock : Construct → Bool
  | parBlock _ => true
  | _ => false

def isSimpleListItem : Construct → Bool
  | simpleListItem => true
  | _ => false

/-- The automatic list, if it is one. -/
def autoList? : Construct → Option AutoList
  | autoList found _ => some found
  | _ => none

/-- Constructs that section commands inside them belong to. -/
def ownsSections : Construct → Bool
  | simpleSection .. | paramSection _ | paramList .. | xrefItem _ => true
  | _ => false

/-- Blocks that keep what is in them to themselves. -/
inductive Container where
  | listItem
  | cell
  | descData
  | blockQuote
  | parBlock
  | internal
  deriving DecidableEq, Repr, Inhabited

def container? : Construct → Option Container
  | listItem _ => some .listItem
  | cell .. => some .cell
  | descData _ => some .descData
  | blockQuote .. => some .blockQuote
  | parBlock _ => some .parBlock
  | internal => some .internal
  | _ => none

/-- The styles entered in a paragraph. -/
def styles : Construct → List OpenStyle
  | paragraph _ entered => entered
  | _ => []

end Construct

/-- A construct with the nodes read into it so far, the last one first.  Constructs are numbered as
they begin; `madeFor` is the number of the construct that this one was begun in. -/
structure Frame where
  construct : Construct
  children : List Node := []
  id : Nat := 0
  madeFor : Option Nat := none
  deriving Inhabited

/-- Children, last first, without white space at the end. -/
def dropTrailingSpace (children : List Node) : List Node :=
  children.dropWhile (·.isKind .whiteSpace)

/-- The node of a construct that has ended. -/
def Frame.toNode (frame : Frame) : Node :=
  let children := frame.children.reverse
  let plain (content : Content) := Node.branch content children
  let paragraphs (content : Content) := Node.branch content (markParagraphs children)
  match frame.construct with
  | .root singleLine => paragraphs (.root singleLine)
  | .sect sect => paragraphs (.sect sect)
  | .paragraph attributes _ => plain (.paragraph { attributes })
  | .simpleSection type heads =>
    .node (.simpleSection type) {} [] heads (markParagraphs children)
  | .paramSection sect => .branch (.paramSection sect) (markParamLists children)
  | .paramList list types names =>
    .node (.paramList list) {} types names (markParagraphs children)
  | .xrefItem item => paragraphs (.xrefItem item)
  | .autoList list _ => plain (.autoList list)
  | .autoListItem item => paragraphs (.autoListItem item)
  | .simpleList => plain .simpleList
  | .simpleListItem => paragraphs .simpleListItem
  | .internal => paragraphs .internal
  | .parBlock _ => paragraphs .parBlock
  | .refList _ => plain .refList
  | .list list _ _ => plain (.list list)
  | .listItem item => paragraphs (.listItem item)
  | .descList attributes _ => plain (.descList attributes)
  | .descTitle attributes => plain (.descTitle attributes)
  | .descData attributes => paragraphs (.descData attributes)
  | .table attributes caption _ =>
    (Node.node (.table { attributes }) {} [] caption.toList children).placeCells
  | .row attributes => .branch (.row { attributes }) (markCells children)
  | .cell attributes isHeading => paragraphs (.cell { attributes, isHeading })
  | .caption attributes _ => plain (.caption attributes)
  | .blockQuote attributes _ => paragraphs (.blockQuote attributes)
  | .header header _ => plain (.header header)
  | .hyperlink link _ => plain (.hyperlink link)
  | .link link _ _ => plain (.link link)

end DocMarkup.Parser
