import DocMarkup.Number.Basic

/-!
What can be wrong with a comment, its settings or its tree, and the report made of it.  A `Problem`
is the cause; its kind and its wording are functions of the cause.
-/

namespace DocMarkup

inductive Severity where
  | error
  | warning
  | info
  deriving DecidableEq, Repr, Inhabited

/-- The part of the work a diagnostic belongs to. -/
inductive Category where
  | syntactic
  | structural
  | nesting
  | attribute
  | reference
  | alias
  | resource
  | invariant
  deriving DecidableEq, Repr, Inhabited

/-- The kind of problem a diagnostic reports, for programs to read. -/
inductive ProblemCode where
  | unclosedTag
  | mismatchedClose
  | lonelyTag
  | unexpectedToken
  | unexpectedEnd
  | missingArgument
  | unknownCommand
  | unresolvedReference
  | unterminatedBlock
  | invalidAlias
  | aliasArgumentCount
  | aliasRecursion
  | unsupportedSymbol
  | missingFile
  | invalidSection
  | tableStructure
  | diagramFailed
  | invariantViolation
  deriving DecidableEq, Repr, Inhabited

/-! ### Names

Diagnostics go to other programs under these names. -/

def Severity.name : Severity → String
  | error => "error"
  | warning => "warning"
  | info => "info"

def Severity.all : List Severity := [.error, .warning, .info]

def Category.name : Category → String
  | .syntactic => "syntax"
  | .structural => "structure"
  | .nesting => "nesting"
  | .attribute => "attribute"
  | .reference => "reference"
  | .alias => "alias"
  | .resource => "resource"
  | .invariant => "invariant"

def Category.all : List Category :=
  [.syntactic, .structural, .nesting, .attribute, .reference, .alias, .resource, .invariant]

def ProblemCode.name : ProblemCode → String
  | unclosedTag => "unclosed-tag"
  | mismatchedClose => "mismatched-close"
  | lonelyTag => "lonely-tag"
  | unexpectedToken => "unexpected-token"
  | unexpectedEnd => "unexpected-end"
  | missingArgument => "missing-argument"
  | unknownCommand => "unknown-command"
  | unresolvedReference => "unresolved-reference"
  | unterminatedBlock => "unterminated-block"
  | invalidAlias => "invalid-alias"
  | aliasArgumentCount => "alias-argument-count"
  | aliasRecursion => "alias-recursion"
  | unsupportedSymbol => "unsupported-symbol"
  | missingFile => "missing-file"
  | invalidSection => "invalid-section"
  | tableStructure => "invalid-table-structure"
  | diagramFailed => "diagram-failed"
  | invariantViolation => "invariant-violation"

def ProblemCode.all : List ProblemCode :=
  [.unclosedTag, .mismatchedClose, .lonelyTag, .unexpectedToken, .unexpectedEnd, .missingArgument,
   .unknownCommand, .unresolvedReference, .unterminatedBlock, .invalidAlias, .aliasArgumentCount,
   .aliasRecursion, .unsupportedSymbol, .missingFile, .invalidSection, .tableStructure,
   .diagramFailed, .invariantViolation]

/-- A report: what is wrong and where.  `line` counts from one in the file, `start` and `stop` are
offsets in the text of the comment. -/
structure Diagnostic where
  severity : Severity
  category : Category
  code : ProblemCode
  message : Text
  subject : Option Text
  fileName : Text
  line : Number
  start : Nat
  stop : Nat
  deriving DecidableEq, Repr, Inhabited

/-- The causes of diagnostics.  Names of commands, tags and targets are kept as they were written;
`token` is the description of a token. -/
inductive Problem where
  | unclosedStyle (tag : Text)
  | endListWithoutList
  | commandInPlainText (command : Text)
  | missingStyledWord (command : Text)
  | mismatchedEnd (found expected : Text)
  | unmatchedStyleEnd (found : Text)
  | endOutsideStructure (found : Text)
  | sectionAtTopLevel (command : Text)
  | unexpectedAtTopLevel (token : Text)
  | missingSectionLabel (command : Text)
  | unexpectedInSection (token label : Text)
  | unknownCommand (written : Text)
  | endWithoutStart (command : Text)
  | missingAnchorName
  | unknownDirection (direction : Text)
  | missingParameterName (command : Text)
  | missingListKey
  | nestedInternal
  | unterminatedParBlock
  | missingRefItemTarget
  | unresolvedRefItem (target : Text)
  | unterminatedRefList
  | unexpectedInRefList (token : Text)
  | unterminatedVerbatim (command ending : Text)
  | missingFileName (command : Text)
  | missingBlockName (file : Text)
  | fileNotFound (file : Text)
  | blockNotFound (block file : Text)
  | missingPattern (command : Text)
  | noIncludedText (command : Text)
  | missingTarget (command : Text)
  | unresolvedTarget (target command : Text)
  | unterminatedLink (target : Text)
  | unresolvedLink (target : Text)
  | missingCitationLabel
  | unresolvedCitation (label : Text)
  | missingInternalTarget
  | missingImageArguments
  | unknownImageFormat (format : Text)
  | imageNotFound (file : Text)
  | unterminatedFormula (command : Text)
  | startOutsideStructure (tag : Text)
  | closedBefore (tag token : Text)
  | unclosedAtEnd (tag : Text)
  | expectedListItem (token : Text)
  | expectedDescription (token : Text)
  | secondCaption
  | expectedRow (found : Text)
  | expectedCell (token : Text)
  | unclosedHeader (tag : Text)
  | anchorWithoutTarget
  | imageWithoutSource
  | invalidAlias (definition : Text)
  | aliasArgumentCount (name : Text) (count : Nat)
  | recursiveAlias (name : Text)
  | recursiveCopy (target : Text)
  | copyNotFound (target : Text)
  | unsupportedSymbol (name : Text)
  | failedDiagram (kind name reason : Text)
  | brokenInvariant (explanation : Text)
  deriving DecidableEq, Repr, Inhabited

namespace Problem

/-- Only a broken invariant is an error. -/
def severity : Problem → Severity
  | brokenInvariant _ => .error
  | _ => .warning

def category : Problem → Category
  | commandInPlainText _ | missingStyledWord _ | missingSectionLabel _ | unknownCommand _
  | missingAnchorName | missingParameterName _ | missingListKey | missingRefItemTarget
  | missingFileName _ | missingBlockName _ | missingPattern _ | missingTarget _
  | missingCitationLabel | missingInternalTarget | missingImageArguments
  | unsupportedSymbol _ => .syntactic
  | endListWithoutList | sectionAtTopLevel _ | unexpectedAtTopLevel _ | unexpectedInSection _ _
  | endWithoutStart _ | unterminatedParBlock | unterminatedRefList | unexpectedInRefList _
  | unterminatedVerbatim _ _ | noIncludedText _ | unterminatedLink _ | unterminatedFormula _
  | startOutsideStructure _ | expectedListItem _ | expectedDescription _ | secondCaption
  | expectedRow _ | expectedCell _ => .structural
  | unclosedStyle _ | mismatchedEnd _ _ | unmatchedStyleEnd _ | endOutsideStructure _
  | nestedInternal | closedBefore _ _ | unclosedAtEnd _ | unclosedHeader _ => .nesting
  | unknownDirection _ | unknownImageFormat _ | anchorWithoutTarget | imageWithoutSource =>
    .attribute
  | unresolvedRefItem _ | unresolvedTarget _ _ | unresolvedLink _ | unresolvedCitation _
  | recursiveCopy _ | copyNotFound _ => .reference
  | invalidAlias _ | aliasArgumentCount _ _ | recursiveAlias _ => .alias
  | fileNotFound _ | blockNotFound _ _ | imageNotFound _ | failedDiagram _ _ _ => .resource
  | brokenInvariant _ => .invariant

def code : Problem → ProblemCode
  | unclosedStyle _ | closedBefore _ _ | unclosedAtEnd _ | unclosedHeader _ => .unclosedTag
  | mismatchedEnd _ _ | unmatchedStyleEnd _ => .mismatchedClose
  | endListWithoutList | startOutsideStructure _ | endOutsideStructure _ => .lonelyTag
  | commandInPlainText _ | unexpectedAtTopLevel _ | unexpectedInSection _ _ | endWithoutStart _
  | unknownDirection _ | nestedInternal | unexpectedInRefList _ | noIncludedText _
  | unknownImageFormat _ | expectedListItem _ | expectedDescription _ => .unexpectedToken
  | missingStyledWord _ | missingSectionLabel _ | missingAnchorName | missingParameterName _
  | missingListKey | missingRefItemTarget | missingFileName _ | missingBlockName _
  | missingPattern _ | missingTarget _ | missingCitationLabel | missingInternalTarget
  | missingImageArguments | anchorWithoutTarget | imageWithoutSource => .missingArgument
  | sectionAtTopLevel _ => .invalidSection
  | unknownCommand _ => .unknownCommand
  | unresolvedRefItem _ | unresolvedTarget _ _ | unresolvedLink _ | unresolvedCitation _
  | recursiveCopy _ | copyNotFound _ => .unresolvedReference
  | unterminatedParBlock | unterminatedRefList | unterminatedVerbatim _ _ | unterminatedLink _
  | unterminatedFormula _ => .unterminatedBlock
  | fileNotFound _ | blockNotFound _ _ | imageNotFound _ => .missingFile
  | secondCaption | expectedRow _ | expectedCell _ => .tableStructure
  | invalidAlias _ => .invalidAlias
  | aliasArgumentCount _ _ => .aliasArgumentCount
  | recursiveAlias _ => .aliasRecursion
  | unsupportedSymbol _ => .unsupportedSymbol
  | failedDiagram _ _ _ => .diagramFailed
  | brokenInvariant _ => .invariantViolation

def message : Problem → Text
  | unclosedStyle tag => units "end of comment block while expecting command </" ++ tag ++ units ">"
  | endListWithoutList => units "end of list marker found without any preceding list items"
  | commandInPlainText command =>
    units "unexpected command \\" ++ command ++ units " in plain text"
  | missingStyledWord command => units "expected a word after \\" ++ command
  | mismatchedEnd found expected =>
    units "found </" ++ found ++ units "> tag while expecting </" ++ expected ++ units ">"
  | unmatchedStyleEnd found | endOutsideStructure found =>
    units "found </" ++ found ++ units "> tag without matching <" ++ found ++ units ">"
  | sectionAtTopLevel command =>
    units "found \\" ++ command ++ units " at top level, expected \\section"
  | unexpectedAtTopLevel token => units "unexpected " ++ token ++ units " at top level"
  | missingSectionLabel command => units "expected a section label after \\" ++ command
  | unexpectedInSection token label =>
    units "unexpected " ++ token ++ units " in section " ++ label
  | unknownCommand written => units "found unknown command '" ++ written ++ units "'"
  | endWithoutStart command =>
    units "found \\" ++ command ++ units " without matching start command"
  | missingAnchorName => units "expected an anchor name after \\anchor"
  | unknownDirection direction =>
    units "unknown parameter direction [" ++ direction ++
      units "], expected [in], [out] or [in,out]"
  | missingParameterName command => units "missing parameter name after \\" ++ command
  | missingListKey => units "expected a list key after \\xrefitem"
  | nestedInternal => units "\\internal command found inside internal section"
  | unterminatedParBlock =>
    units "end of comment block while inside \\parblock, missing \\endparblock"
  | missingRefItemTarget => units "expected a target after \\refitem"
  | unresolvedRefItem target =>
    units "unable to resolve reference to '" ++ target ++ units "' for \\refitem command"
  | unterminatedRefList =>
    units "end of comment block while inside \\secreflist, missing \\endsecreflist"
  | unexpectedInRefList token => units "unexpected " ++ token ++ units " inside \\secreflist"
  | unterminatedVerbatim command ending =>
    units "end of comment block while inside \\" ++ command ++ units " block, missing \\" ++ ending
  | missingFileName command => units "expected a file name after \\" ++ command
  | missingBlockName file => units "expected a block identifier after \\snippet " ++ file
  | fileNotFound file => units "included file " ++ file ++ units " is not found"
  | blockNotFound block file =>
    units "block marker " ++ block ++ units " not found in file " ++ file
  | missingPattern command => units "expected a pattern after \\" ++ command
  | noIncludedText command => units "no preceding \\dontinclude found for \\" ++ command
  | missingTarget command => units "expected a target after \\" ++ command
  | unresolvedTarget target command =>
    units "unable to resolve reference to '" ++ target ++ units "' for \\" ++ command ++
      units " command"
  | unterminatedLink target => units "unable to find \\endlink for \\link " ++ target
  | unresolvedLink target =>
    units "unable to resolve link to '" ++ target ++ units "' for \\link command"
  | missingCitationLabel => units "expected a citation label after \\cite"
  | unresolvedCitation label => units "unable to resolve citation '" ++ label ++ units "'"
  | missingInternalTarget => units "expected a file#anchor target after \\_internalref"
  | missingImageArguments => units "\\image expects an output format and a file name"
  | unknownImageFormat format =>
    units "image type " ++ format ++
      units (" specified as the first argument of \\image is not valid, " ++
        "expected html, latex, rtf or docbook")
  | imageNotFound file => units "image file " ++ file ++ units " is not found"
  | unterminatedFormula command =>
    units "end of comment block while inside formula started with \\" ++ command
  | startOutsideStructure tag =>
    units "found <" ++ tag ++ units "> tag outside its enclosing structure"
  | closedBefore tag token => units "<" ++ tag ++ units "> tag is not closed before " ++ token
  | unclosedAtEnd tag =>
    units "end of comment block while inside <" ++ tag ++ units ">, missing </" ++ tag ++ units ">"
  | expectedListItem token => units "expected <li> tag but found " ++ token ++ units " instead"
  | expectedDescription token =>
    units "expected <dt> or <dd> tag but found " ++ token ++ units " instead"
  | secondCaption => units "table already has a caption, found another one"
  | expectedRow found => units "expected <tr> tag but found " ++ found ++ units " instead"
  | expectedCell token =>
    units "expected <td> or <th> tag but found " ++ token ++ units " instead"
  | unclosedHeader tag => units "<" ++ tag ++ units "> tag is not closed"
  | anchorWithoutTarget => units "<a> tag without name or href attribute"
  | imageWithoutSource => units "<img> tag does not have a src attribute"
  | invalidAlias definition =>
    units "Alias format \"" ++ definition ++
      units ("\" is invalid, use \"name=value\" or \"name\x7bn\x7d=value\", " ++
        "where n is the number of arguments")
  | aliasArgumentCount name count =>
    units "Alias \\" ++ name ++ units " called with " ++ unitsOfNat count ++
      units " argument(s), no matching definition"
  | recursiveAlias name => units "Recursive expansion of alias \\" ++ name ++ units " stopped"
  | recursiveCopy target => units "recursive copy of '" ++ target ++ units "' ignored"
  | copyNotFound target =>
    units "target '" ++ target ++ units "' of \\copydoc command not found"
  | unsupportedSymbol name => units "unsupported HTML entity found: " ++ name
  | failedDiagram kind name reason =>
    units "unable to render " ++ kind ++ units " diagram " ++ name ++ units ": " ++ reason
  | brokenInvariant explanation => explanation

/-- The diagnostic of a problem at a place. -/
def toDiagnostic (problem : Problem) (subject : Option Text) (fileName : Text) (line : Number)
    (start stop : Nat) : Diagnostic where
  severity := problem.severity
  category := problem.category
  code := problem.code
  message := problem.message
  subject := subject
  fileName := fileName
  line := line
  start := start
  stop := stop

end Problem

namespace Diagnostic

def consoleLine (d : Diagnostic) : Text :=
  d.fileName ++ units ":" ++ units d.line.decimal ++ units (": " ++ d.severity.name ++ ": ") ++
    d.message

end Diagnostic

end DocMarkup
