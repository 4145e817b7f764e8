import DocMarkup.Doc.Balance
import DocMarkup.Doc.Node
import DocMarkup.Entity.Basic
import DocMarkup.Html.IndexAnchor
import DocMarkup.Render.Rendering
import DocMarkup.Text.Path

/-!
Rendering of nodes that have nothing below them.
-/

namespace DocMarkup

def Style.tag : Style → String
  | .bold => "b"
  | .italic => "em"
  | .code => "code"
  | .center => "center"
  | .small => "small"
  | .subscript => "sub"
  | .superscript => "sup"
  | .preformatted => "pre"
  | .span => "span"
  | .division => "div"

namespace Rendering

/-- Closes the paragraph before a block where that is needed. -/
def closeParagraph (r : Rendering) (way : Way) : Rendering :=
  if Balance.closesBefore way then r.closing "p" else r

/-- Opens the paragraph again after a block where that is needed. -/
def reopenParagraph (r : Rendering) (way : Way) : Rendering :=
  if Balance.reopensAfter way then r.opening "p" [] else r

/-- Writes a block that stands between paragraphs. -/
def block (r : Rendering) (way : Way) (write : Rendering → Rendering) : Rendering :=
  (write (r.closeParagraph way)).reopenParagraph way

/-- A fragment of code. -/
def codeFragment (r : Rendering) (context : RenderContext) (request : CodeRequest) : Rendering :=
  ((r.onPage (·.startCodeFragment)).writeCode context request).onPage (·.endCodeFragment)

/-- Text shown as it is, in a block of its own. -/
def fragment (r : Rendering) (t : Text) : Rendering :=
  ((r.opening "pre" (units " class=\"fragment\"")).text t).closing "pre"

def styleChange (r : Rendering) (way : Way) (change : StyleChange) : Rendering :=
  let tag := change.style.tag
  if change.enable then
    let r := if change.style.isBlock then r.closeParagraph way else r
    let r := r.opening tag (Html.writeAttributes change.attributes)
    if change.style == .preformatted then { r with insidePre := true } else r
  else
    let r := if change.style == .preformatted then { r with insidePre := false } else r
    let r := r.closing tag
    if change.style.isBlock then r.reopenParagraph way else r

/-- A diagram written in the comment. -/
def inlineDiagram (r : Rendering) (context : RenderContext) (way : Way) (kind : DiagramKind)
    (series className : String) (source : Text) : Rendering :=
  r.block way fun r =>
    let r := (r.opening "div" (units (" class=\"" ++ className ++ "\""))).layout "\n"
    let (name, diagramCounts) := r.diagramCounts.next (units series)
    let r := { r with diagramCounts }.writeDiagram context kind name (.source source) []
    (r.closing "div").layout "\n"

def verbatim (r : Rendering) (context : RenderContext) (way : Way) (v : Verbatim) : Rendering :=
  match v.type with
  | .code =>
    r.block way (·.codeFragment context
      { language := if v.language.isEmpty then context.language else v.language
        code := v.text
        origin := v.origin
        showLineNumbers := false })
  | .verbatim => r.block way (·.fragment v.text)
  | .htmlOnly => if v.isBlock then r.block way (·.raw v.text) else r.raw v.text
  | .manOnly | .latexOnly | .xmlOnly | .rtfOnly | .docbookOnly => r
  | .dot => r.inlineDiagram context way .dot "inline_dotgraph_" "dotgraph" v.text
  | .msc =>
    r.inlineDiagram context way .msc "inline_mscgraph_" "mscgraph"
      (units "msc \x7b" ++ v.text ++ units "\x7d")
  | .plantUML => r.inlineDiagram context way .plantuml "inline_umlgraph_" "plantumlgraph" v.text

def inclusion (r : Rendering) (context : RenderContext) (way : Way) (i : Inclusion) : Rendering :=
  let request : CodeRequest :=
    { language := Path.extension i.file
      code := i.text
      origin := i.origin
      showLineNumbers := i.type == .numbered }
  match i.type with
  | .shown | .snippet | .numbered => r.block way (·.codeFragment context request)
  | .hidden | .latex => r
  | .html => r.raw i.text
  | .verbatim => r.block way (·.fragment i.text)

/-- A step through an included text.  The steps of a run share one fragment of code; between them
output is hidden. -/
def includeStep (r : Rendering) (context : RenderContext) (step : IncludeStep) : Rendering :=
  let r :=
    if step.isFirst then (r.onPage (·.startCodeFragment)).onPage (·.hide) else r
  let r :=
    if step.operator == .skip then r
    else
      let r := r.onPage (·.unhide)
      let r :=
        if r.page.hidden then r
        else
          r.writeCode context
            { language := context.language
              code := step.text
              origin := step.origin
              showLineNumbers := false }
      r.onPage (·.hide)
  if step.isLast then (r.onPage (·.unhide)).onPage (·.endCodeFragment) else r.layout "\n"

/-- A formula, as an image or for the script in the page. -/
def formulaBody (r : Rendering) (context : RenderContext) (f : Formula) : Rendering :=
  if context.settings.mathJax then
    if f.isInline then
      r.piece (.text (units "\\(" ++ Html.escapePage ((f.text.drop 1).dropLast) ++ units "\\)"))
    else r.piece (.text (Html.escapePage f.text))
  else
    let className := if f.isInline then "formulaInl" else "formulaDsp"
    r.piece (.single "img"
      (units (" class=\"" ++ className ++ "\" alt=\"") ++ Html.escapeQuoted f.text ++
        units "\" src=\"" ++ f.relPath ++ f.name ++ units ".png\""))

/-- A formula; one that is displayed has a paragraph of its own. -/
def formula (r : Rendering) (context : RenderContext) (way : Way) (f : Formula) : Rendering :=
  if f.isInline then r.formulaBody context f
  else
    r.block way fun r =>
      let r := (r.opening "p" (units " class=\"formulaDsp\"")).layout "\n"
      (((r.formulaBody context f).layout "\n").closing "p").layout "\n"

/-- An entry for the index and the anchor it leads to. -/
def indexEntry (r : Rendering) (e : IndexEntry) : Rendering :=
  let own := Html.indexAnchor e.entry
  let anchor := if e.memberAnchor.isEmpty then own else e.memberAnchor ++ units "_" ++ own
  (r.onPage (·.writeNamedAnchor anchor)).onPage
    (·.addIndexItem { scope := e.scope, anchor, entry := e.entry })

/-- A leaf while output is shown. -/
def shownLeaf (r : Rendering) (context : RenderContext) (way : Way) : Content → Rendering
  | .word word => r.text word
  | .linkedWord l =>
    ((r.onPage (·.startLink
      { ref := l.ref, file := l.file, relPath := l.relPath, anchor := l.anchor,
        tooltip := l.tooltip })).text l.word).onPage (·.endLink)
  | .whiteSpace written =>
    r.piece (.text (if r.insidePre then written else [CodeUnit.space]))
  | .symbol name =>
    match Symbol.find? name with
    | some symbol => r.piece (.text symbol.markup)
    | none => r.report context (.unsupportedSymbol name) (some name)
  | .url url isEmail =>
    let address := if isEmail then Html.escapeAttribute (units "mailto:" ++ url) else url
    ((r.opening "a" (units " href=\"" ++ address ++ units "\"")).text url).closing "a"
  | .lineBreak => r.onPage (·.lineBreak)
  | .ruler => r.block way (·.onPage (·.writeRuler))
  | .anchor name _ => r.onPage (·.writeAnchor name)
  | .styleChange change => r.styleChange way change
  | .verbatim v => r.verbatim context way v
  | .inclusion i => r.inclusion context way i
  | .includeStep step => r.includeStep context step
  | .formula f => r.formula context way f
  | .indexEntry e => r.indexEntry e
  | .separator => (((r.closing "dd").layout "\n").opening "dd" []).layout "\n"
  | .citation c =>
    if c.file.isEmpty then
      ((((r.opening "b" []).layout "[").text c.text).layout "]").closing "b"
    else
      ((r.onPage (·.startLink
        { ref := c.ref, file := c.file, relPath := c.relPath, anchor := c.anchor })).text
          c.text).onPage (·.endLink)
  | _ => r

/-- A leaf.  While output is hidden only the steps through an included text count, which hide and
show for themselves. -/
def leaf (r : Rendering) (context : RenderContext) (way : Way) (content : Content) : Rendering :=
  if r.page.hidden && content.kind != .includeStep then r
  else r.shownLeaf context way content

end Rendering

end DocMarkup
