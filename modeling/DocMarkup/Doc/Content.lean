import DocMarkup.Attribute
import DocMarkup.IncludeBuffer
import DocMarkup.Number.Whole

/-!
The constructs of a documentation comment, each with what it holds besides the nodes below it.
-/

namespace DocMarkup

/-- Styles of a span of text. -/
inductive Style where
  | bold
  | italic
  | code
  | center
  | small
  | subscript
  | superscript
  | preformatted
  | span
  | division
  deriving DecidableEq, Repr, Inhabited

/-- Blocks whose text is taken as it is. -/
inductive VerbatimType where
  | code
  | htmlOnly
  | manOnly
  | latexOnly
  | rtfOnly
  | xmlOnly
  | docbookOnly
  | verbatim
  | dot
  | msc
  | plantUML
  deriving DecidableEq, Repr, Inhabited

/-- Ways to include a file. -/
inductive IncludeType where
  | shown
  | hidden
  | verbatim
  | html
  | latex
  | numbered
  | snippet
  deriving DecidableEq, Repr, Inhabited

/-- The output format an image is meant for. -/
inductive ImageType where
  | html
  | latex
  | rtf
  | docbook
  deriving DecidableEq, Repr, Inhabited

/-- Diagrams kept in files of their own. -/
inductive DiagramType where
  | dot
  | msc
  | dia
  deriving DecidableEq, Repr, Inhabited

inductive ListType where
  | unordered
  | ordered
  deriving DecidableEq, Repr, Inhabited

/-- Sections that a command opens inside a paragraph. -/
inductive SimpleSectionType where
  | unknown
  | see
  | returns
  | author
  | authors
  | version
  | since
  | date
  | note
  | warning
  | copyright
  | precondition
  | postcondition
  | invariant
  | remark
  | attention
  | user
  | keyword
  deriving DecidableEq, Repr, Inhabited

/-- Sections that describe parameters and the like by name. -/
inductive ParamSectionType where
  | param
  | returnValue
  | exception
  | templateParam
  deriving DecidableEq, Repr, Inhabited

inductive ParamDirection where
  | unspecified
  | input
  | output
  | both
  deriving DecidableEq, Repr, Inhabited

/-- A word that links to what it names.  Here and below, `ref` names the tag file of an external
target and is empty for a local one, and `relPath` leads from the page to the root of the
output. -/
structure LinkedWord where
  word : Text
  ref : Text
  file : Text
  relPath : Text
  anchor : Text
  tooltip : Text
  deriving DecidableEq, Repr, Inhabited

/-- The place where a style begins or ends. -/
structure StyleChange where
  style : Style
  enable : Bool
  /-- Offset in the comment. -/
  position : Nat
  attributes : Attributes := []
  deriving DecidableEq, Repr, Inhabited

/-- What is said about the origin of code: the scope it is documented in, and the example. -/
structure CodeOrigin where
  context : Text
  isExample : Bool
  exampleFile : Text
  deriving DecidableEq, Repr, Inhabited

structure Verbatim where
  type : VerbatimType
  text : Text
  origin : CodeOrigin
  /-- Whether markup passed through is a block. -/
  isBlock : Bool
  /-- Hint for the language of code. -/
  language : Text
  deriving DecidableEq, Repr, Inhabited

structure Inclusion where
  type : IncludeType
  file : Text
  text : Text
  origin : CodeOrigin
  /-- The marker of the part to show. -/
  blockName : Text
  deriving DecidableEq, Repr, Inhabited

/-- One step through an included text; consecutive steps form a run. -/
structure IncludeStep where
  operator : IncludeOperator
  pattern : Text
  text : Text
  origin : CodeOrigin
  isFirst : Bool
  isLast : Bool
  deriving DecidableEq, Repr, Inhabited

structure Formula where
  id : Nat
  name : Text
  text : Text
  relPath : Text
  deriving DecidableEq, Repr, Inhabited

structure IndexEntry where
  entry : Text
  scope : Text
  memberAnchor : Text
  deriving DecidableEq, Repr, Inhabited

structure Citation where
  target : Text
  text : Text
  file : Text
  relPath : Text
  ref : Text
  anchor : Text
  deriving DecidableEq, Repr, Inhabited

structure Paragraph where
  isFirst : Bool := false
  isLast : Bool := false
  attributes : Attributes := []
  deriving DecidableEq, Repr, Inhabited

structure AutoList where
  indent : Nat
  isNumbered : Bool
  /-- How many numbered lists enclose this one. -/
  depth : Int
  deriving DecidableEq, Repr, Inhabited

structure AutoListItem where
  indent : Nat
  number : Whole
  deriving DecidableEq, Repr, Inhabited

/-- An item of a list that is collected over the whole documentation. -/
structure XRefItem where
  id : Nat
  key : Text
  file : Text
  anchor : Text
  title : Text
  relPath : Text
  deriving DecidableEq, Repr, Inhabited

structure Image where
  type : ImageType
  name : Text
  width : Text := []
  height : Text := []
  relPath : Text := []
  url : Text := []
  attributes : Attributes := []
  deriving DecidableEq, Repr, Inhabited

structure DiagramFile where
  type : DiagramType
  name : Text
  file : Text
  relPath : Text := []
  width : Text := []
  height : Text := []
  context : Text := []
  deriving DecidableEq, Repr, Inhabited

structure Hyperlink where
  url : Text
  relPath : Text
  attributes : Attributes
  deriving DecidableEq, Repr, Inhabited

structure Link where
  target : Text
  file : Text
  relPath : Text
  ref : Text
  anchor : Text
  tooltip : Text
  deriving DecidableEq, Repr, Inhabited

structure Reference where
  target : Text
  file : Text
  relPath : Text
  ref : Text
  anchor : Text
  targetTitle : Text
  toAnchor : Bool
  toSection : Bool
  isSubPage : Bool
  deriving DecidableEq, Repr, Inhabited

structure InternalReference where
  file : Text
  relPath : Text
  anchor : Text
  deriving DecidableEq, Repr, Inhabited

structure MarkupList where
  type : ListType
  attributes : Attributes
  deriving DecidableEq, Repr, Inhabited

structure MarkupListItem where
  number : Whole
  attributes : Attributes
  deriving DecidableEq, Repr, Inhabited

/-- A table.  The number of columns is minus one until the cells have been placed. -/
structure Table where
  attributes : Attributes
  columns : Whole := .finite (-1)
  deriving DecidableEq, Repr, Inhabited

structure TableRow where
  attributes : Attributes
  row : Whole := .finite (-1)
  visibleCells : Nat := 0
  deriving DecidableEq, Repr, Inhabited

structure TableCell where
  attributes : Attributes
  isHeading : Bool
  isFirst : Bool := false
  isLast : Bool := false
  row : Whole := .finite (-1)
  column : Whole := .finite (-1)
  deriving DecidableEq, Repr, Inhabited

structure Header where
  level : Nat
  attributes : Attributes
  deriving DecidableEq, Repr, Inhabited

structure Section where
  level : Nat
  label : Text
  title : Text
  anchor : Text
  file : Text
  deriving DecidableEq, Repr, Inhabited

structure RefItem where
  target : Text
  file : Text
  anchor : Text
  relPath : Text
  deriving DecidableEq, Repr, Inhabited

structure ParamSection where
  type : ParamSectionType
  hasDirection : Bool := false
  hasTypes : Bool := false
  deriving DecidableEq, Repr, Inhabited

structure ParamList where
  type : ParamSectionType
  direction : ParamDirection
  isFirst : Bool := false
  isLast : Bool := false
  deriving DecidableEq, Repr, Inhabited

/-- A place where the documentation of another entity is copied to. -/
structure Copy where
  target : Text
  brief : Bool
  details : Bool
  resolved : Bool := false
  deriving DecidableEq, Repr, Inhabited

/-- The content of a node. -/
inductive Content where
  | root (singleLine : Bool)
  | text
  | word (word : Text)
  | linkedWord (link : LinkedWord)
  | whiteSpace (units : Text)
  | symbol (name : Text)
  | url (url : Text) (isEmail : Bool)
  | lineBreak
  | ruler
  | anchor (anchor file : Text)
  | styleChange (change : StyleChange)
  | verbatim (block : Verbatim)
  | inclusion (inclusion : Inclusion)
  | includeStep (step : IncludeStep)
  | formula (formula : Formula)
  | indexEntry (entry : IndexEntry)
  | separator
  | citation (citation : Citation)
  | paragraph (paragraph : Paragraph)
  | autoList (list : AutoList)
  | autoListItem (item : AutoListItem)
  | title
  | xrefItem (item : XRefItem)
  | image (image : Image)
  | diagramFile (diagram : DiagramFile)
  | hyperlink (link : Hyperlink)
  | link (link : Link)
  | reference (reference : Reference)
  | internalReference (reference : InternalReference)
  | list (list : MarkupList)
  | listItem (item : MarkupListItem)
  | descList (attributes : Attributes)
  | descTitle (attributes : Attributes)
  | descData (attributes : Attributes)
  | table (table : Table)
  | row (row : TableRow)
  | cell (cell : TableCell)
  | caption (attributes : Attributes)
  | blockQuote (attributes : Attributes)
  | header (header : Header)
  | sect (sect : Section)
  | refList
  | refItem (item : RefItem)
  | internal
  | parBlock
  | simpleList
  | simpleListItem
  | simpleSection (type : SimpleSectionType)
  | paramSection (sect : ParamSection)
  | paramList (list : ParamList)
  | copy (copy : Copy)
  deriving DecidableEq, Repr, Inhabited

/-- The kind of a node: its content without what it holds. -/
inductive Kind where
  | root
  | text
  | word
  | linkedWord
  | whiteSpace
  | symbol
  | url
  | lineBreak
  | ruler
  | anchor
  | styleChange
  | verbatim
  | inclusion
  | includeStep
  | formula
  | indexEntry
  | separator
  | citation
  | paragraph
  | autoList
  | autoListItem
  | title
  | xrefItem
  | image
  | diagramFile
  | hyperlink
  | link
  | reference
  | internalReference
  | list
  | listItem
  | descList
  | descTitle
  | descData
  | table
  | row
  | cell
  | caption
  | blockQuote
  | header
  | sect
  | refList
  | refItem
  | internal
  | parBlock
  | simpleList
  | simpleListItem
  | simpleSection
  | paramSection
  | paramList
  | copy
  deriving DecidableEq, Repr, Inhabited

def Content.kind : Content → Kind
  | .root _ => .root
  | .text => .text
  | .word _ => .word
  | .linkedWord _ => .linkedWord
  | .whiteSpace _ => .whiteSpace
  | .symbol _ => .symbol
  | .url _ _ => .url
  | .lineBreak => .lineBreak
  | .ruler => .ruler
  | .anchor _ _ => .anchor
  | .styleChange _ => .styleChange
  | .verbatim _ => .verbatim
  | .inclusion _ => .inclusion
  | .includeStep _ => .includeStep
  | .formula _ => .formula
  | .indexEntry _ => .indexEntry
  | .separator => .separator
  | .citation _ => .citation
  | .paragraph _ => .paragraph
  | .autoList _ => .autoList
  | .autoListItem _ => .autoListItem
  | .title => .title
  | .xrefItem _ => .xrefItem
  | .image _ => .image
  | .diagramFile _ => .diagramFile
  | .hyperlink _ => .hyperlink
  | .link _ => .link
  | .reference _ => .reference
  | .internalReference _ => .internalReference
  | .list _ => .list
  | .listItem _ => .listItem
  | .descList _ => .descList
  | .descTitle _ => .descTitle
  | .descData _ => .descData
  | .table _ => .table
  | .row _ => .row
  | .cell _ => .cell
  | .caption _ => .caption
  | .blockQuote _ => .blockQuote
  | .header _ => .header
  | .sect _ => .sect
  | .refList => .refList
  | .refItem _ => .refItem
  | .internal => .internal
  | .parBlock => .parBlock
  | .simpleList => .simpleList
  | .simpleListItem => .simpleListItem
  | .simpleSection _ => .simpleSection
  | .paramSection _ => .paramSection
  | .paramList _ => .paramList
  | .copy _ => .copy

namespace Kind

/-- The name of a kind in messages. -/
def name : Kind → String
  | root => "Root"
  | text => "Text"
  | word => "Word"
  | linkedWord => "LinkedWord"
  | whiteSpace => "WhiteSpace"
  | symbol => "Symbol"
  | url => "URL"
  | lineBreak => "LineBreak"
  | ruler => "HorRuler"
  | anchor => "Anchor"
  | styleChange => "StyleChange"
  | verbatim => "Verbatim"
  | inclusion => "Include"
  | includeStep => "IncOperator"
  | formula => "Formula"
  | indexEntry => "IndexEntry"
  | separator => "SimpleSectSep"
  | citation => "Cite"
  | paragraph => "Para"
  | autoList => "AutoList"
  | autoListItem => "AutoListItem"
  | title => "Title"
  | xrefItem => "XRefItem"
  | image => "Image"
  | diagramFile => "DiagramFile"
  | hyperlink => "HRef"
  | link => "Link"
  | reference => "Ref"
  | internalReference => "InternalRef"
  | list => "HtmlList"
  | listItem => "HtmlListItem"
  | descList => "HtmlDescList"
  | descTitle => "HtmlDescTitle"
  | descData => "HtmlDescData"
  | table => "HtmlTable"
  | row => "HtmlRow"
  | cell => "HtmlCell"
  | caption => "HtmlCaption"
  | blockQuote => "HtmlBlockQuote"
  | header => "HtmlHeader"
  | sect => "Section"
  | refList => "SecRefList"
  | refItem => "SecRefItem"
  | internal => "Internal"
  | parBlock => "ParBlock"
  | simpleList => "SimpleList"
  | simpleListItem => "SimpleListItem"
  | simpleSection => "SimpleSect"
  | paramSection => "ParamSect"
  | paramList => "ParamList"
  | copy => "Copy"

def all : List Kind :=
  [root, text, word, linkedWord, whiteSpace, symbol, url, lineBreak, ruler, anchor, styleChange,
   verbatim, inclusion, includeStep, formula, indexEntry, separator, citation, paragraph, autoList,
   autoListItem, title, xrefItem, image, diagramFile, hyperlink, link, reference,
   internalReference, list, listItem, descList, descTitle, descData, table, row, cell, caption,
   blockQuote, header, sect, refList, refItem, internal, parBlock, simpleList, simpleListItem,
   simpleSection, paramSection, paramList, copy]

/-- Whether nodes of this kind can have nodes below them. -/
def isComposite : Kind → Bool
  | word | linkedWord | whiteSpace | symbol | url | lineBreak | ruler | anchor | styleChange
  | verbatim | inclusion | includeStep | formula | indexEntry | separator | citation => false
  | _ => true

end Kind

/-- The number of a formula, and the formulas known with it: equal texts have one number. -/
def Formula.register (formulas : List Text) (text : Text) : Nat × List Text :=
  match formulas.findIdx? (· == text) with
  | some id => (id, formulas)
  | none => (formulas.length, formulas ++ [text])

/-- The name of the image of a formula. -/
def Formula.imageName (id : Nat) : Text := units "form_" ++ unitsOfNat id

/-- A formula set within a line is kept between single dollar signs. -/
def Formula.isInline (formula : Formula) : Bool :=
  2 ≤ formula.text.length && formula.text.head? == some (unit '$') &&
    formula.text.getLast? == some (unit '$') && formula.text[1]? != some (unit '$')

end DocMarkup
