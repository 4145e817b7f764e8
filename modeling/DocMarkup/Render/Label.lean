import DocMarkup.Command

/-!
Labels of rendered sections.
-/

namespace DocMarkup

/-- The headings that rendering writes of its own. -/
inductive Label where
  | seeAlso
  | returns
  | author
  | authors
  | version
  | since
  | date
  | note
  | warning
  | precondition
  | postcondition
  | copyright
  | invariant
  | remarks
  | attention
  | parameters
  | returnValues
  | exceptions
  | templateParameters
  deriving DecidableEq, Repr, Inhabited

namespace Label

/-- Every label with its key and its English text. -/
def table : List (Label × String × String) :=
  [(seeAlso, "seeAlso", "See also"), (returns, "returns", "Returns"),
   (author, "author", "Author"), (authors, "authors", "Authors"),
   (version, "version", "Version"), (since, "since", "Since"), (date, "date", "Date"),
   (note, "note", "Note"), (warning, "warning", "Warning"),
   (precondition, "precondition", "Precondition"),
   (postcondition, "postcondition", "Postcondition"), (copyright, "copyright", "Copyright"),
   (invariant, "invariant", "Invariant"), (remarks, "remarks", "Remarks"),
   (attention, "attention", "Attention"), (parameters, "parameters", "Parameters"),
   (returnValues, "returnValues", "Return values"), (exceptions, "exceptions", "Exceptions"),
   (templateParameters, "templateParameters", "Template Parameters")]

def key (label : Label) : String := ((table.find? (·.1 == label)).map (·.2.1)).getD ""

/-- The English text of a label. -/
def english (label : Label) : Text :=
  ((table.find? (·.1 == label)).map fun entry => units entry.2.2).getD []

/-- The label of a key. -/
def ofKey? (key : Text) : Option Label :=
  (table.find? fun entry => units entry.2.1 == key).map (·.1)

/-- The heading of a simple section; sections with titles of their own have none. -/
def ofSimpleSection? : SimpleSectionType → Option Label
  | .see => some seeAlso
  | .returns => some returns
  | .author => some author
  | .authors => some authors
  | .version => some version
  | .since => some since
  | .date => some date
  | .note => some note
  | .warning => some warning
  | .copyright => some copyright
  | .precondition => some precondition
  | .postcondition => some postcondition
  | .invariant => some invariant
  | .remark => some remarks
  | .attention => some attention
  | .unknown | .user | .keyword => none

/-- The heading of a parameter section. -/
def ofParamSection : ParamSectionType → Label
  | .param => parameters
  | .returnValue => returnValues
  | .exception => exceptions
  | .templateParam => templateParameters

end Label

end DocMarkup
