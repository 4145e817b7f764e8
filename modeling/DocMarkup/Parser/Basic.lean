import DocMarkup.Parser.Step

/-!
The parser.  It reads one comment after another; the numbers of cross-reference items and formulas
go on from comment to comment, and nothing else does.
-/

namespace DocMarkup

/-- A parser between two comments. -/
structure Parser where
  options : Parser.Options := {}
  /-- Cross-reference items read so far. -/
  items : Nat := 0
  /-- The formulas read so far, each once. -/
  formulas : List Text := []
  deriving Inhabited

namespace Parser

/-- What came of a comment. -/
structure Result where
  root : Node
  /-- Problems found while aliases were expanded. -/
  aliasDiagnostics : List Diagnostic
  /-- What happened while the comment was read, in order. -/
  events : List Event
  /-- What broke the parse off, if anything did. -/
  failure : Option Failure := none
  deriving Inhabited

namespace Result

def diagnostics (result : Result) : List Diagnostic :=
  result.aliasDiagnostics ++ result.events.filterMap fun
    | .reported diagnostic => some diagnostic
    | _ => none

/-- The targets asked for, in order. -/
def requests (result : Result) : List LinkRequest :=
  result.events.filterMap fun
    | .asked request => some request
    | _ => none

/-- The trace of the parse, a line for every command and every problem. -/
def trace (result : Result) : List Text :=
  result.events.filterMap fun
    | .scanned command => some (units "[scan] command " ++ command)
    | .entered command => some (units "[parser] command " ++ command)
    | .reported d =>
      some (units "[parser] " ++ d.fileName ++ units ":" ++ units d.line.decimal ++ units " " ++
        d.message)
    | .asked _ => none

end Result

/-- The text of a comment with its aliases expanded. -/
def expandAliases (options : Options) (comment : Comment) : Text × List Diagnostic :=
  match options.aliases with
  | none => (comment.text, [])
  | some table => table.expand comment.text (comment.fileName.getD Comment.anonymous)

/-- The setting of a comment whose expanded text is given. -/
def settingOf (options : Options) (comment : Comment) (text : Text) : Setting where
  options := options
  comment := comment
  text := text
  fileName := comment.fileName.getD Comment.anonymous
  relPath :=
    if comment.linkFromIndex then [] else Path.toRoot (comment.scope.bind Scope.outputFile)

/-- A machine at the start of a comment. -/
def start (p : Parser) (setting : Setting) : Machine where
  setting := setting
  scanner := Scanner.ofText setting.text
  stack := [{ construct := .root setting.comment.singleLine }]
  items := p.items
  formulas := p.formulas

/-- More steps than a text of that length can take.  Every unit of the text is scanned once, begins
a bounded number of constructs and ends each of them once. -/
def maxSteps (length : Nat) : Nat := 100 * (length + 2)

/-- Reports the styles that were never left. -/
def reportOpenStyles (m : Machine) : Machine :=
  let length := m.setting.text.length
  m.reopening.foldl (fun m entered =>
    m.reportBetween (.unclosedStyle entered.tag) (some entered.tag) length length) m

def parse (p : Parser) (comment : Comment) : Result × Parser :=
  let (text, aliasDiagnostics) := expandAliases p.options comment
  let m := (p.start (settingOf p.options comment text)).run (maxSteps text.length)
  let m := reportOpenStyles m
  let root := (m.stack.getLast?.map Frame.toNode).getD default
  ({ root, aliasDiagnostics, events := m.journal.reverse, failure := m.failure },
    { p with items := m.items, formulas := m.formulas })

/-- Reads plain text as a tree of its own. -/
def parseText (p : Parser) (text : Text) (fileName : Option Text) : Result :=
  let comment : Comment := { text, fileName }
  let (text, aliasDiagnostics) := expandAliases p.options comment
  let (nodes, m) := (p.start (settingOf p.options comment text)).plain true text
  { root := .branch .text nodes, aliasDiagnostics, events := m.journal.reverse }

end Parser

end DocMarkup
