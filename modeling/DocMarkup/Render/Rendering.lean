import DocMarkup.Diagnostic
import DocMarkup.Html.Page
import DocMarkup.Render.Label
import DocMarkup.Settings
import DocMarkup.Text.Lines

/-!
A rendering in progress: the page, and what was asked of the tools around it.
-/

namespace DocMarkup

/-- The languages of diagrams. -/
inductive DiagramKind where
  | dot
  | msc
  | plantuml
  | dia
  deriving DecidableEq, Repr, Inhabited

def DiagramKind.name : DiagramKind → String
  | .dot => "dot"
  | .msc => "msc"
  | .plantuml => "plantuml"
  | .dia => "dia"

/-- What a diagram is drawn from. -/
inductive DiagramInput where
  | source (text : Text)
  | file (name : Text)
  deriving DecidableEq, Repr, Inhabited

/-- A request to draw a diagram. -/
structure DiagramRequest where
  kind : DiagramKind
  /-- The name of the image without its extension. -/
  baseName : Text
  imageFormat : ImageFormat
  outputDirectory : Text
  input : DiagramInput
  deriving DecidableEq, Repr, Inhabited

/-- A request to write code. -/
structure CodeRequest where
  language : Text
  code : Text
  origin : CodeOrigin
  showLineNumbers : Bool
  deriving DecidableEq, Repr, Inhabited

/-- What a highlighter can write. -/
inductive CodeAction where
  | startLine
  | endLine
  | lineNumber (number : Number)
  | code (text : Text)
  | startFontClass (name : Text)
  | endFontClass
  | link (target : Html.Page.LinkTarget) (name : Text)
  | anchor (name : Text)
  deriving Inhabited

/-- Code line by line, without any highlighting. -/
def CodeRequest.plain (request : CodeRequest) : List CodeAction :=
  (Text.lines request.code).zipIdx.flatMap fun (line, index) =>
    let number := if request.showLineNumbers then [.lineNumber (index + 1 : Nat)] else []
    CodeAction.startLine :: number ++ [.code line, .endLine]

/-- The tools that rendering calls on. -/
structure RenderTools where
  /-- Draws a diagram: the name of the image file, or the reason why there is none. -/
  drawDiagram : DiagramRequest → Except Text Text := fun request =>
    .error (units ("no " ++ request.kind.name ++ " tool available to render ") ++ request.baseName)
  translate : Label → Text := Label.english
  /-- Highlights code. -/
  highlight : CodeRequest → List CodeAction := CodeRequest.plain

instance : Inhabited RenderTools := ⟨{}⟩

/-- What rendering is told. -/
structure RenderContext where
  settings : Settings := {}
  tools : RenderTools := {}
  /-- The file named in diagnostics. -/
  fileName : Text := units "<comment>"
  /-- The language of code without a hint of its own. -/
  language : Text := []
  deriving Inhabited

/-- How many diagrams each series of names has given out. -/
abbrev DiagramCounts := List (Text × Nat)

/-- The next name of a series, and the counts after it. -/
def DiagramCounts.next (counts : DiagramCounts) (series : Text) : Text × DiagramCounts :=
  let n := ((counts.find? (·.1 == series)).map (·.2)).getD 0 + 1
  (series ++ unitsOfNat n, (series, n) :: counts.filter (·.1 != series))

structure Rendering where
  page : Html.Page
  /-- Whether the text written is preformatted. -/
  insidePre : Bool := false
  diagramCounts : DiagramCounts := []
  /-- Diagnostics, the last first. -/
  diagnostics : List Diagnostic := []
  /-- Diagram requests, the last first. -/
  diagrams : List DiagramRequest := []
  /-- Code requests, the last first. -/
  code : List CodeRequest := []
  deriving Inhabited

namespace Rendering

def onPage (r : Rendering) (f : Html.Page → Html.Page) : Rendering := { r with page := f r.page }

def opening (r : Rendering) (tag : String) (attributes : Text) : Rendering :=
  r.onPage (·.putOpening tag attributes)

def closing (r : Rendering) (tag : String) : Rendering := r.onPage (·.putClosing tag)

def layout (r : Rendering) (s : String) : Rendering := r.onPage (·.putLayout s)

def raw (r : Rendering) (t : Text) : Rendering := r.onPage (·.putRaw t)

def text (r : Rendering) (t : Text) : Rendering := r.onPage (·.putText t)

def piece (r : Rendering) (piece : Html.Piece) : Rendering := r.onPage (·.put piece)

/-- Reports a problem; rendering knows the file only. -/
def report (r : Rendering) (context : RenderContext) (problem : Problem)
    (subject : Option Text) : Rendering :=
  { r with
    diagnostics := problem.toDiagnostic subject context.fileName 0 0 0 :: r.diagnostics }

/-- What a highlighter writes on a page. -/
def writeAction (page : Html.Page) : CodeAction → Html.Page
  | .startLine => page.startCodeLine
  | .endLine => page.endCodeLine
  | .lineNumber number => page.writeLineNumber number
  | .code text => page.putCode text
  | .startFontClass name => page.startFontClass name
  | .endFontClass => page.endFontClass
  | .link target name => page.writeCodeLink target name
  | .anchor name => page.writeNamedAnchor name

/-- Has code highlighted and writes it. -/
def writeCode (r : Rendering) (context : RenderContext) (request : CodeRequest) : Rendering :=
  { r with
    page := (context.tools.highlight request).foldl writeAction r.page
    code := request :: r.code }

/-- Has a diagram drawn and shows its image. -/
def writeDiagram (r : Rendering) (context : RenderContext) (kind : DiagramKind) (name : Text)
    (input : DiagramInput) (relPath : Text) : Rendering :=
  let settings := context.settings
  let request : DiagramRequest :=
    { kind
      baseName := name
      imageFormat := if kind == .dia then .png else settings.imageFormat
      outputDirectory := settings.outputDirectory
      input }
  let r := { r with diagrams := request :: r.diagrams }
  match context.tools.drawDiagram request with
  | .error reason =>
    r.report context (.failedDiagram (units kind.name) name reason) (some name)
  | .ok imageFile =>
    if request.imageFormat == .svg then
      ((r.opening "object" (units " type=\"image/svg+xml\" data=\"" ++ relPath ++ imageFile ++
        units "\"")).closing "object").layout "\n"
    else
      (r.piece (.single "img" (units " src=\"" ++ relPath ++ imageFile ++ units "\" alt=\"" ++
        name ++ units "\""))).layout "\n"

end Rendering

end DocMarkup
