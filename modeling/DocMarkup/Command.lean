import DocMarkup.Doc.Content
import DocMarkup.Text.LowerCase

/-!
The commands of a comment by name.
-/

namespace DocMarkup

/-- What a command does. -/
inductive Command where
  /-- Styles the next word. -/
  | word (style : Style)
  | sect (level : Nat)
  | simpleSection (type : SimpleSectionType)
  | paramSection (type : ParamSectionType)
  | xrefItem
  /-- A block of raw text up to the ending command. -/
  | verbatim (type : VerbatimType) (ending : Text)
  | inclusion (type : IncludeType)
  | includeStep (operator : IncludeOperator)
  | diagramFile (type : DiagramType)
  | lineBreak
  /-- A line break in the source, written by an alias. -/
  | sourceBreak
  | anchor
  | indexEntry
  | listItem
  | internal
  | endInternal
  | parBlock
  | endParBlock
  | refList
  | reference (isSubPage : Bool)
  | link
  | citation
  | internalReference
  | copy (brief details : Bool)
  | image
  | formula
  /-- Known to other stages and of no effect here. -/
  | ignored
  /-- Ends or continues something that was not begun. -/
  | unmatched
  | unknown
  deriving DecidableEq, Repr, Inhabited

namespace Command

/-- The level of the commands that open a section. -/
def sectionLevels : List (String × Nat) :=
  [("section", 1), ("subsection", 2), ("subsubsection", 3), ("paragraph", 4)]

/-- The blocks of raw text with the commands that end them. -/
def verbatimBlocks : List (String × VerbatimType × String) :=
  [("code", .code, "endcode"), ("verbatim", .verbatim, "endverbatim"),
   ("htmlonly", .htmlOnly, "endhtmlonly"), ("latexonly", .latexOnly, "endlatexonly"),
   ("xmlonly", .xmlOnly, "endxmlonly"), ("rtfonly", .rtfOnly, "endrtfonly"),
   ("manonly", .manOnly, "endmanonly"), ("docbookonly", .docbookOnly, "enddocbookonly"),
   ("dot", .dot, "enddot"), ("msc", .msc, "endmsc"), ("startuml", .plantUML, "enduml")]

/-- The remaining commands that have a meaning, except for `xrefitem` and its kind. -/
def actions : List (String × Command) :=
  [("b", .word .bold), ("c", .word .code), ("p", .word .code), ("e", .word .italic),
   ("em", .word .italic), ("a", .word .italic),
   ("see", .simpleSection .see), ("sa", .simpleSection .see),
   ("return", .simpleSection .returns), ("returns", .simpleSection .returns),
   ("result", .simpleSection .returns), ("author", .simpleSection .author),
   ("authors", .simpleSection .authors), ("version", .simpleSection .version),
   ("since", .simpleSection .since), ("date", .simpleSection .date),
   ("note", .simpleSection .note), ("warning", .simpleSection .warning),
   ("pre", .simpleSection .precondition), ("post", .simpleSection .postcondition),
   ("copyright", .simpleSection .copyright), ("invariant", .simpleSection .invariant),
   ("remark", .simpleSection .remark), ("remarks", .simpleSection .remark),
   ("attention", .simpleSection .attention), ("par", .simpleSection .user),
   ("param", .paramSection .param), ("tparam", .paramSection .templateParam),
   ("retval", .paramSection .returnValue), ("exception", .paramSection .exception),
   ("throw", .paramSection .exception), ("throws", .paramSection .exception),
   ("todo", .xrefItem), ("bug", .xrefItem), ("test", .xrefItem), ("deprecated", .xrefItem),
   ("xrefitem", .xrefItem),
   ("include", .inclusion .shown), ("includelineno", .inclusion .numbered),
   ("dontinclude", .inclusion .hidden), ("verbinclude", .inclusion .verbatim),
   ("htmlinclude", .inclusion .html), ("latexinclude", .inclusion .latex),
   ("snippet", .inclusion .snippet),
   ("line", .includeStep .line), ("skip", .includeStep .skip),
   ("skipline", .includeStep .skipLine), ("until", .includeStep .through),
   ("dotfile", .diagramFile .dot), ("mscfile", .diagramFile .msc),
   ("diafile", .diagramFile .dia),
   ("n", .lineBreak), ("_linebr", .sourceBreak), ("anchor", .anchor), ("addindex", .indexEntry),
   ("li", .listItem), ("arg", .listItem), ("internal", .internal), ("endinternal", .endInternal),
   ("parblock", .parBlock), ("endparblock", .endParBlock), ("secreflist", .refList),
   ("ref", .reference false), ("subpage", .reference true), ("link", .link), ("cite", .citation),
   ("_internalref", .internalReference), ("copydoc", .copy true true),
   ("copybrief", .copy true false), ("copydetails", .copy false true), ("image", .image),
   ("f$", .formula), ("f[", .formula), ("f\x7b", .formula),
   ("brief", .ignored), ("short", .ignored), ("details", .ignored),
   ("endlink", .unmatched), ("endsecreflist", .unmatched), ("refitem", .unmatched),
   ("f]", .unmatched), ("f\x7d", .unmatched)]

def lookup {α : Type} (table : List (String × α)) (name : Text) : Option α :=
  (table.find? fun entry => units entry.1 == name).map (·.2)

def sectionLevel? (name : Text) : Option Nat := lookup sectionLevels name

/-- The command that ends a block of raw text. -/
def verbatimEnding? (name : Text) : Option Text :=
  (lookup verbatimBlocks name).map fun (_, ending) => units ending

def ofName (name : Text) : Command :=
  match sectionLevel? name, lookup verbatimBlocks name, lookup actions name with
  | some level, _, _ => .sect level
  | _, some (type, ending), _ => .verbatim type (units ending)
  | _, _, some command => command
  | _, _, none =>
    if verbatimBlocks.any fun block => units block.2.2 == name then .unmatched else .unknown

/-- The command characters in front of an ending, either of which is accepted. -/
def markers (ending : Text) : List Text := [unit '\\' :: ending, unit '@' :: ending]

/-- The style a markup tag gives to what it encloses. -/
def tagStyles : List (String × Style) :=
  [("b", .bold), ("strong", .bold), ("i", .italic), ("em", .italic), ("code", .code),
   ("tt", .code), ("kbd", .code), ("center", .center), ("small", .small), ("sub", .subscript),
   ("sup", .superscript), ("pre", .preformatted), ("span", .span), ("div", .division)]

def tagStyle? (name : Text) : Option Style := lookup tagStyles name

/-- The level of a header tag. -/
def headerLevel? (name : Text) : Option Nat :=
  lookup [("h1", 1), ("h2", 2), ("h3", 3), ("h4", 4), ("h5", 5), ("h6", 6)] name

/-- The output formats of images. -/
def imageType? (format : Text) : Option ImageType :=
  lookup [("html", .html), ("latex", .latex), ("rtf", .rtf), ("docbook", .docbook)] format

/-- Titles of the lists that cross-reference commands collect. -/
def listTitle? (key : Text) : Option Text :=
  (lookup [("todo", "Todo"), ("bug", "Bug"), ("test", "Test"), ("deprecated", "Deprecated")]
    key).map units

end Command

namespace ParamDirection

/-- The direction an option such as `in,out` asks for; blanks and case do not count. -/
def ofOption? (option : Text) : Option ParamDirection :=
  Command.lookup
    [("in", .input), ("out", .output), ("in,out", .both), ("out,in", .both)]
    (Text.toLower (option.filter fun u => !CodeUnit.isBlank u))

end ParamDirection

end DocMarkup
