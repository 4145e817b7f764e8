import DocMarkup.Doc.Content

/-!
Where the tags of paragraphs go.  Blocks stand inside paragraphs in the tree but cannot stand
inside a paragraph of a page, so a paragraph is closed before such a block and opened again after
it.  The functions here decide; they look at the contents of a paragraph and of the nodes around
it, and write nothing.
-/

namespace DocMarkup

/-- The place of a node below another: the content of the node above, the contents of that node's
children, and which of them the node is.  A node that is not listed has no index. -/
structure Place where
  above : Content
  siblings : List Content
  index : Option Nat
  deriving DecidableEq, Repr, Inhabited

/-- The way from a node up to the root, the nearest place first. -/
abbrev Way := List Place

namespace Place

def isFirst (place : Place) : Bool := place.index == some 0

def isLast (place : Place) : Bool := place.index.any (· + 1 == place.siblings.length)

end Place

/-- The edge of a node within the node above it. -/
inductive EdgeClass where
  | none
  | startItem
  | startDesc
  | endItem
  | endDesc
  | startCell
  | endCell
  deriving DecidableEq, Repr, Inhabited

namespace EdgeClass

def code : EdgeClass → Nat
  | none => 0
  | startItem => 1
  | startDesc => 2
  | endItem => 3
  | endDesc => 4
  | startCell => 5
  | endCell => 6

/-- What a class adds to a paragraph tag. -/
def attributes : EdgeClass → String
  | none => ""
  | startItem => " class=\"startli\""
  | startDesc => " class=\"startdd\""
  | endItem => " class=\"endli\""
  | endDesc => " class=\"enddd\""
  | startCell => " class=\"starttd\""
  | endCell => " class=\"endtd\""

end EdgeClass

namespace Style

/-- Styles that cannot be changed inside a paragraph. -/
def isBlock (style : Style) : Bool :=
  style == .center || style == .division || style == .preformatted

end Style

namespace Content

/-- Whether a node cannot stand inside a paragraph of a page. -/
def isBlock : Content → Bool
  | .list _ | .simpleList | .autoList _ | .simpleSection _ | .paramSection _ | .descList _
  | .xrefItem _ | .table _ | .sect _ | .header _ | .internal | .image _ | .diagramFile _
  | .refList | .ruler | .copy _ | .blockQuote _ | .parBlock => true
  | .inclusion i => i.type != .hidden && i.type != .latex
  | .verbatim v => v.type != .htmlOnly || v.isBlock
  | .styleChange change => change.style.isBlock
  | .formula f => !f.isInline
  | _ => false

def isSpace : Content → Bool
  | .whiteSpace _ => true
  | _ => false

def isSeparator : Content → Bool
  | .separator => true
  | _ => false

end Content

namespace Balance

/-- The position of a paragraph: the class of its edges, and whether it is the first and the last
of the node above. -/
structure Position where
  edge : EdgeClass := .none
  isFirst : Bool := false
  isLast : Bool := false
  deriving DecidableEq, Repr, Inhabited

/-- Whether the node at an index of a list is a separator. -/
def isSeparatorAt (nodes : List Content) (index : Nat) : Bool :=
  nodes[index]?.any Content.isSeparator

/-- Whether a paragraph of a simple section is alone between separators. -/
def isSeparated (nodes : List Content) (index : Option Nat) : Bool :=
  match index with
  | none => false
  | some i =>
    let count := nodes.length
    if 1 < count && i == 0 then isSeparatorAt nodes 1
    else if 1 < count && i + 1 == count then isSeparatorAt nodes (i - 1)
    else if 2 < count && 0 < i && i + 1 < count then
      isSeparatorAt nodes (i - 1) && isSeparatorAt nodes (i + 1)
    else false

/-- A position whose class is that of the first paragraph or, if it is the last as well, of the
last. -/
def edges (place : Place) (first last : EdgeClass) : Position where
  edge := if place.isLast then last else if place.isFirst then first else .none
  isFirst := place.isFirst
  isLast := place.isLast

/-- The class that a paragraph of a paragraph block gets from the construct around the block. -/
def blockEdge (around : Kind) (item desc cell : EdgeClass) : EdgeClass :=
  match around with
  | .listItem | .refItem => item
  | .descData | .xrefItem | .simpleSection => desc
  | .cell | .paramList => cell
  | _ => .none

/-- The position of the paragraph that a way begins at. -/
def position (way : Way) : Position :=
  match way with
  | [] => {}
  | place :: outer =>
    match place.above with
    | .parBlock =>
      -- a paragraph holds the block, and the construct around that one decides
      let around := (outer[1]?.map fun place => place.above.kind).getD .paragraph
      edges place (blockEdge around .startItem .startDesc .startCell)
        (blockEdge around .endItem .endDesc .endCell)
    | .autoListItem _ =>
      { edge := .startItem, isFirst := place.isFirst, isLast := place.isLast }
    | .simpleListItem | .paramList _ => { edge := .startItem, isFirst := true, isLast := true }
    | .listItem _ | .refItem _ => edges place .startItem .endItem
    | .descData _ | .xrefItem _ => edges place .startDesc .endDesc
    | .simpleSection _ =>
      let position := edges place .startDesc .endDesc
      if isSeparated place.siblings place.index then
        { position with isFirst := true, isLast := true }
      else position
    | .cell _ => edges place .startCell .endCell
    | _ => {}

/-- Whether paragraphs below a node have tags of their own. -/
def tagsParagraphs : Content → Bool
  | .root singleLine => !singleLine
  | .sect _ | .internal | .listItem _ | .descData _ | .cell _ | .simpleListItem | .autoListItem _
  | .simpleSection _ | .xrefItem _ | .copy _ | .blockQuote _ | .parBlock => true
  | _ => false

/-- A side of a paragraph. -/
inductive Side where
  | start
  | stop
  deriving DecidableEq, Repr, Inhabited

/-- The first node at a side that is not white space. -/
def atSide (children : List Content) (side : Side) : Option Content :=
  let ordered :=
    match side with
    | .start => children
    | .stop => children.reverse
  ordered.find? (!·.isSpace)

/-- Whether a paragraph with these children, at the beginning of the way, has a tag at a side.  A
block there has closed it already or will open the next. -/
def needsTag (children : List Content) (way : Way) (side : Side) : Bool :=
  match way with
  | [] => false
  | place :: _ =>
    tagsParagraphs place.above && !(atSide children side).any Content.isBlock &&
      let position := position way
      !(position.isFirst && position.isLast)

/-- Whether a block style is open behind these children, last first.  `closed` holds the styles that
end further on. -/
def insideBlockStyle (closed : List Style) : List Content → Bool
  | [] => false
  | .styleChange change :: rest =>
    if !change.enable then insideBlockStyle (change.style :: closed) rest
    -- a style that ends between here and the place is not open there
    else if !closed.contains change.style && change.style.isBlock then true
    else insideBlockStyle closed rest
  | _ :: rest => insideBlockStyle closed rest

/-- Whether a block style is open behind the first `count` children. -/
def insideBlockStyleAfter (children : List Content) (count : Nat) : Bool :=
  insideBlockStyle [] (children.take count).reverse

/-- The paragraph a node stands in, with the way from there. -/
def paragraph? (way : Way) : Option (Place × Way) :=
  match way with
  | [] => none
  | place :: outer =>
    match place.above with
    | .paragraph _ => some (place, outer)
    | _ => none

/-- Whether the paragraph around a block is closed before it: not when nothing but white space or
another block comes before, inside a block style, or where the paragraph is the only one. -/
def closesBefore (way : Way) : Bool :=
  match paragraph? way with
  | none => false
  | some (place, outer) =>
    let before := (place.siblings.take (place.index.getD 0)).reverse.dropWhile Content.isSpace
    match before with
    | [] => false
    | last :: earlier =>
      let position := position outer
      !last.isBlock && !insideBlockStyle [] earlier && !(position.isFirst && position.isLast)

/-- Whether the paragraph around a block is opened again after it: not inside a block style, when
nothing but white space or another block follows, or where the paragraph is the only one. -/
def reopensAfter (way : Way) : Bool :=
  match paragraph? way with
  | none => false
  | some (place, outer) =>
    let count := (place.index.map (· + 1)).getD 0
    let position := position outer
    !insideBlockStyleAfter place.siblings count &&
      match (place.siblings.drop count).dropWhile Content.isSpace with
      | [] => false
      | next :: _ => !next.isBlock && !(position.isFirst && position.isLast)

end Balance

end DocMarkup
