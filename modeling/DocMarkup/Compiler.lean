import DocMarkup.Parser.Basic
import DocMarkup.Render.Linked

/-!
The compiler: comments in, pages out.  Settings are read once; the numbers of cross-reference items,
formulas and diagrams go on from comment to comment.
-/

namespace DocMarkup

structure Compiler where
  parser : Parser := {}
  settings : Settings := {}
  tools : RenderTools := {}
  diagramCounts : DiagramCounts := []
  deriving Inhabited

namespace Compiler

/-- A compiler with the given settings, and the problems of the alias definitions in them. -/
def ofSettings (settings : Settings) (surroundings : Surroundings) (tools : RenderTools) :
    Compiler × List Diagnostic :=
  let (aliases, diagnostics) := AliasTable.ofLines settings.aliases AliasTable.settingsFile
  ({ parser :=
      { options :=
          { surroundings
            aliases := some aliases
            autolink := settings.autolink
            listMarkers := settings.bullets.map fun bullet => units bullet.name } }
     settings
     tools }, diagnostics)

/-- What came of a comment. -/
structure Result where
  parsed : Parser.Result
  rendering : Rendering
  /-- The page; there is none when the tree breaks an invariant. -/
  html : Option Text
  /-- Problems found in rendering, in order. -/
  renderDiagnostics : List Diagnostic
  deriving Inhabited

/-- All problems of a comment: those of the parse come first. -/
def Result.diagnostics (result : Result) : List Diagnostic :=
  result.parsed.diagnostics ++ result.renderDiagnostics

def compile (c : Compiler) (comment : Comment) : Result × Compiler :=
  let (parsed, parser) := c.parser.parse comment
  let context : RenderContext :=
    { settings := c.settings
      tools := c.tools
      fileName := comment.fileName.getD Comment.anonymous }
  let relPath :=
    if comment.linkFromIndex then [] else Path.toRoot (comment.scope.bind Scope.outputFile)
  let (rendering, page, _) :=
    (LinkedTree.ofNode parsed.root).renderAfter context relPath c.diagramCounts 0
  let (html, renderDiagnostics) := rendering.deliver context page
  ({ parsed, rendering, html, renderDiagnostics },
    { c with parser, diagramCounts := rendering.diagramCounts })

end Compiler

end DocMarkup
