import DocMarkup.Doc.Node

/-!
Edits of single fields of a node.  A field has one name wherever it occurs, so an edit fits the
nodes that have the field and no others.
-/

namespace DocMarkup

/-- A field and its new value. -/
inductive Edit where
  | flags (value : NodeFlags)
  | singleLine (value : Bool)
  | symbol (name : Text)
  | url (url : Text)
  | isEmail (value : Bool)
  | file (name : Text)
  | text (text : Text)
  | language (hint : Text)
  | entry (entry : Text)
  | title (title : Text)
  | operator (operator : IncludeOperator)
  | simpleSection (type : SimpleSectionType)
  | paramSection (type : ParamSectionType)
  | isFirst (value : Bool)
  | isLast (value : Bool)
  | depth (depth : Int)
  | row (index : Whole)
  | column (index : Whole)
  | columns (count : Whole)
  deriving DecidableEq, Repr, Inhabited

namespace Content

/-- The content with a field changed, if it has the field. -/
def edit? (content : Content) (edit : Edit) : Option Content :=
  match edit, content with
  | .singleLine value, .root _ => some (.root value)
  | .symbol value, .symbol _ => some (.symbol value)
  | .url value, .url _ isEmail => some (.url value isEmail)
  | .url value, .image x => some (.image { x with url := value })
  | .url value, .hyperlink x => some (.hyperlink { x with url := value })
  | .isEmail value, .url address _ => some (.url address value)
  | .file value, .linkedWord x => some (.linkedWord { x with file := value })
  | .file value, .anchor name _ => some (.anchor name value)
  | .file value, .inclusion x => some (.inclusion { x with file := value })
  | .file value, .citation x => some (.citation { x with file := value })
  | .file value, .xrefItem x => some (.xrefItem { x with file := value })
  | .file value, .diagramFile x => some (.diagramFile { x with file := value })
  | .file value, .link x => some (.link { x with file := value })
  | .file value, .reference x => some (.reference { x with file := value })
  | .file value, .internalReference x => some (.internalReference { x with file := value })
  | .file value, .sect x => some (.sect { x with file := value })
  | .file value, .refItem x => some (.refItem { x with file := value })
  | .text value, .verbatim x => some (.verbatim { x with text := value })
  | .text value, .inclusion x => some (.inclusion { x with text := value })
  | .text value, .includeStep x => some (.includeStep { x with text := value })
  | .text value, .formula x => some (.formula { x with text := value })
  | .text value, .citation x => some (.citation { x with text := value })
  | .language value, .verbatim x => some (.verbatim { x with language := value })
  | .entry value, .indexEntry x => some (.indexEntry { x with entry := value })
  | .title value, .xrefItem x => some (.xrefItem { x with title := value })
  | .title value, .sect x => some (.sect { x with title := value })
  | .operator value, .includeStep x => some (.includeStep { x with operator := value })
  | .simpleSection value, .simpleSection _ => some (.simpleSection value)
  | .paramSection value, .paramSection x => some (.paramSection { x with type := value })
  | .paramSection value, .paramList x => some (.paramList { x with type := value })
  | .isFirst value, .includeStep x => some (.includeStep { x with isFirst := value })
  | .isFirst value, .paragraph x => some (.paragraph { x with isFirst := value })
  | .isFirst value, .cell x => some (.cell { x with isFirst := value })
  | .isFirst value, .paramList x => some (.paramList { x with isFirst := value })
  | .isLast value, .includeStep x => some (.includeStep { x with isLast := value })
  | .isLast value, .paragraph x => some (.paragraph { x with isLast := value })
  | .isLast value, .cell x => some (.cell { x with isLast := value })
  | .isLast value, .paramList x => some (.paramList { x with isLast := value })
  | .depth value, .autoList x => some (.autoList { x with depth := value })
  | .row value, .row x => some (.row { x with row := value })
  | .row value, .cell x => some (.cell { x with row := value })
  | .column value, .cell x => some (.cell { x with column := value })
  | .columns value, .table x => some (.table { x with columns := value })
  | _, _ => none

end Content

end DocMarkup
