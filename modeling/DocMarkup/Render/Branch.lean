import DocMarkup.Doc.Grid
import DocMarkup.Render.Leaf

/-!
Rendering of composite nodes: what is written before the nodes below and what is written after
them.
-/

namespace DocMarkup

def SimpleSectionType.className : SimpleSectionType → String
  | .unknown => "unknown"
  | .see => "see"
  | .returns => "return"
  | .author => "author"
  | .authors => "authors"
  | .version => "version"
  | .since => "since"
  | .date => "date"
  | .note => "note"
  | .warning => "warning"
  | .copyright => "copyright"
  | .precondition => "pre"
  | .postcondition => "post"
  | .invariant => "invariant"
  | .remark => "remark"
  | .attention => "attention"
  | .user => "par"
  | .keyword => "rcs"

/-- Sections that close their term behind a title of their own. -/
def SimpleSectionType.isTitled (type : SimpleSectionType) : Bool :=
  type == .user || type == .keyword

def ParamSectionType.className : ParamSectionType → String
  | .param => "params"
  | .returnValue => "retval"
  | .exception => "exception"
  | .templateParam => "tparams"

def ParamDirection.label : ParamDirection → String
  | .unspecified => ""
  | .input => "[in]"
  | .output => "[out]"
  | .both => "[in,out]"

def ListType.tag : ListType → String
  | .unordered => "ul"
  | .ordered => "ol"

/-- How diagrams of a type are drawn: their language, the start of their image names and their
class. -/
def DiagramType.drawing : DiagramType → DiagramKind × String × String
  | .dot => (.dot, "dot_", "dotgraph")
  | .msc => (.msc, "msc_", "mscgraph")
  | .dia => (.dia, "dia_", "diagraph")

/-- The numbering of numbered lists, by how deep they lie.  It repeats from the fifth depth on;
depths in front of the first have none. -/
def AutoList.numbering (list : AutoList) : String :=
  match list.depth.tmod 4 with
  | 0 => "1"
  | 1 => "a"
  | 2 => "i"
  | 3 => "A"
  | _ => "undefined"

namespace Rendering

/-- A line break in the page, except in preformatted text. -/
def breakUnless (r : Rendering) (preformatted : Bool) : Rendering :=
  if preformatted then r else r.layout "\n"

/-- A start tag with the attributes of the comment. -/
def tagged (r : Rendering) (tag : String) (attributes : Attributes) : Rendering :=
  r.opening tag (Html.writeAttributes attributes)

/-- A start tag that has a class unless the comment gives it attributes. -/
def taggedOr (r : Rendering) (tag className : String) (attributes : Attributes) : Rendering :=
  let written := Html.writeAttributes attributes
  r.opening tag (if written.isEmpty then units (" class=\"" ++ className ++ "\"") else written)

def xrefItemStart (r : Rendering) (context : RenderContext) (x : XRefItem) : Rendering :=
  let r := (r.opening "dl" (units " class=\"" ++ x.key ++ units "\"")).opening "dt" []
  let r := r.opening "b" []
  -- an unnamed item has no page to link to
  let isAnonymous := x.file == units "@"
  let r :=
    if isAnonymous then r
    else
      r.opening "a" (units " class=\"el\" href=\"" ++ x.relPath ++ x.file ++
        context.settings.fileExtension ++ units "#" ++ x.anchor ++ units "\"")
  let r := (r.text x.title).layout ":"
  let r := if isAnonymous then r else r.closing "a"
  ((r.closing "b").closing "dt").opening "dd" []

/-- The tag of an image. -/
def imageTag (r : Rendering) (i : Image) : Rendering :=
  let name := Path.baseName (i.name.map fun u => if u == unit '\\' then unit '/' else u)
  let size (key : String) (value : Text) : Text :=
    if value.isEmpty then [] else units (" " ++ key ++ "=\"") ++ value ++ units "\""
  let attributes := size "width" i.width ++ size "height" i.height ++
    Html.writeAttributes i.attributes
  let isDrawing := Text.endsWith (units ".svg") i.name
  let drawing (source shown : Text) : Rendering :=
    ((r.opening "object" (units " type=\"image/svg+xml\" data=\"" ++ source ++ units "\"" ++
      attributes)).piece (.text shown)).closing "object" |>.layout "\n"
  if i.url.isEmpty then
    if isDrawing then drawing (i.relPath ++ i.name) name
    else
      (r.piece (.single "img" (units " src=\"" ++ i.relPath ++ i.name ++ units "\" alt=\"" ++
        name ++ units "\"" ++ attributes))).layout "\n"
  else
    let url := Path.relativeTo i.relPath i.url
    if isDrawing then drawing url []
    else (r.piece (.single "img" (units " src=\"" ++ url ++ units "\"" ++ attributes))).layout "\n"

/-- The beginning of a caption below an image, if there is one. -/
def captionStart (r : Rendering) (hasCaption : Bool) : Rendering :=
  if hasCaption then (r.opening "div" (units " class=\"caption\"")).layout "\n" else r

/-- The beginning of a diagram kept in a file.  It is drawn only if it is shown. -/
def diagramStart (r : Rendering) (context : RenderContext) (d : DiagramFile) : Rendering :=
  let (kind, series, className) := d.type.drawing
  let r := (r.opening "div" (units (" class=\"" ++ className ++ "\""))).layout "\n"
  if r.page.hidden then r
  else r.writeDiagram context kind (units series ++ Path.stem d.file) (.file d.file) d.relPath

def simpleSectionStart (r : Rendering) (context : RenderContext) (type : SimpleSectionType)
    (hasTitle : Bool) : Rendering :=
  let r := (r.opening "dl" (units (" class=\"section " ++ type.className ++ "\""))).opening "dt" []
  let r :=
    match Label.ofSimpleSection? type with
    | some label => r.piece (.raw (context.tools.translate label))
    | none => r
  -- a title closes the term behind itself
  if type.isTitled && hasTitle then r else (r.closing "dt").opening "dd" []

def paramSectionStart (r : Rendering) (context : RenderContext) (type : ParamSectionType) :
    Rendering :=
  let attributes := units (" class=\"" ++ type.className ++ "\"")
  let r := ((r.opening "dl" attributes).opening "dt" []).raw
    (context.tools.translate (Label.ofParamSection type))
  (((r.closing "dt").opening "dd" []).layout "\n  ").opening "table" attributes |>.layout "\n"

/-- Some names in a cell of their own, with a separator between them. -/
def nameCell (r : Rendering) (context : RenderContext) (way : Way) (className separator : String)
    (names : List Node) : Rendering :=
  let r := r.opening "td" (units (" class=\"" ++ className ++ "\""))
  let r := names.zipIdx.foldl (fun r (n, index) =>
    let r := if 0 < index then r.layout separator else r
    r.leaf context way n.content) r
  r.closing "td"

/-- The beginning of the row of some parameters.  Directions and types have cells if any list of the
section has them. -/
def paramListStart (r : Rendering) (context : RenderContext) (way : Way) (list : ParamList)
    (types names : List Node) : Rendering :=
  let sect? : Option ParamSection :=
    match way.head?.map Place.above with
    | some (.paramSection sect) => some sect
    | _ => none
  let r := (r.layout "    ").opening "tr" []
  let r :=
    if sect?.any ParamSection.hasDirection then
      ((r.opening "td" (units " class=\"paramdir\"")).layout list.direction.label).closing "td"
    else r
  let r :=
    if sect?.any ParamSection.hasTypes then
      r.nameCell context way "paramtype" "&#160;|&#160;" types
    else r
  (r.nameCell context way "paramname" "," names).opening "td" []

/-- What is written before the nodes below a composite node. -/
def enter (r : Rendering) (context : RenderContext) (way : Way) (n : Node) : Rendering :=
  let pre := n.flags.preformatted
  let contents := n.children.map Node.content
  match n.content with
  | .internal => if context.settings.internalDocs then r else r.onPage (·.hide)
  | .paragraph _ =>
    if Balance.needsTag contents way .start then
      r.onPage (·.startParagraph (units (Balance.position way).edge.attributes))
    else r
  | .autoList list =>
    let r := r.closeParagraph way
    let r :=
      if list.isNumbered then r.opening "ol" (units (" type=\"" ++ list.numbering ++ "\""))
      else r.opening "ul" []
    r.breakUnless pre
  | .autoListItem _ | .simpleListItem => r.opening "li" []
  | .xrefItem x => if x.title.isEmpty then r else (r.closeParagraph way).xrefItemStart context x
  | .image i =>
    if i.type != .html then r.onPage (·.hide)
    else
      let r := ((r.closeParagraph way).opening "div" (units " class=\"image\"")).layout "\n"
      (r.imageTag i).captionStart !n.children.isEmpty
  | .diagramFile d => ((r.closeParagraph way).diagramStart context d).captionStart
      !n.children.isEmpty
  | .hyperlink h =>
    let url :=
      if (units "mailto:").isPrefixOf h.url then h.url else Path.relativeTo h.relPath h.url
    r.opening "a" (units " href=\"" ++ Html.escapeAttribute url ++ units "\"" ++
      Html.writeAttributes h.attributes)
  | .link l =>
    r.onPage (·.startLink
      { ref := l.ref, file := l.file, relPath := l.relPath, anchor := l.anchor,
        tooltip := l.tooltip })
  | .reference l =>
    let r :=
      if l.file.isEmpty then r
      else
        r.onPage (·.startLink
          { ref := l.ref, file := l.file, relPath := l.relPath
            anchor := if l.isSubPage then [] else l.anchor })
    if n.children.isEmpty then r.text l.targetTitle else r
  | .internalReference l =>
    r.onPage (·.startLink { file := l.file, relPath := l.relPath, anchor := l.anchor })
  | .list l => ((r.closeParagraph way).tagged l.type.tag l.attributes).layout "\n"
  | .listItem i => (r.tagged "li" i.attributes).breakUnless pre
  | .descList attributes => ((r.closeParagraph way).tagged "dl" attributes).layout "\n"
  | .descTitle attributes => r.tagged "dt" attributes
  | .descData attributes => r.tagged "dd" attributes
  | .table t => ((r.closeParagraph way).taggedOr "table" "doxtable" t.attributes).layout "\n"
  | .row t => (r.tagged "tr" t.attributes).layout "\n"
  | .cell c => r.tagged (if c.isHeading then "th" else "td") c.attributes
  | .caption attributes => r.tagged "caption" attributes
  | .blockQuote attributes =>
    ((r.closeParagraph way).taggedOr "blockquote" "doxtable" attributes).layout "\n"
  | .header h => (r.closeParagraph way).tagged (Html.Page.headingTag h.level) h.attributes
  | .sect s =>
    let r := (r.closeParagraph way).onPage (·.startSection s.anchor s.level)
    (r.text s.title).onPage (·.endSection s.level)
  | .refList =>
    let r := ((r.closeParagraph way).opening "div" (units " class=\"multicol\"")).layout "\n"
    (r.opening "ul" []).layout "\n"
  | .refItem i =>
    let extension := context.settings.fileExtension
    let file := if Text.endsWith extension i.file then i.file else i.file ++ extension
    (r.opening "li" []).opening "a"
      (units " href=\"" ++ i.relPath ++ file ++ units "#" ++ i.anchor ++ units "\"")
  | .simpleList => ((r.closeParagraph way).opening "ul" []).breakUnless pre
  | .simpleSection type =>
    (r.closeParagraph way).simpleSectionStart context type !n.heads.isEmpty
  | .paramSection s => (r.closeParagraph way).paramSectionStart context s.type
  | .paramList list => r.paramListStart context way list n.types n.heads
  | _ => r

/-- What is written after the nodes below a composite node. -/
def leave (r : Rendering) (context : RenderContext) (way : Way) (n : Node) : Rendering :=
  let pre := n.flags.preformatted
  let contents := n.children.map Node.content
  match n.content with
  | .internal => if context.settings.internalDocs then r else r.onPage (·.unhide)
  | .paragraph _ =>
    if Balance.needsTag contents way .stop then r.onPage (·.endParagraph) else r
  | .title => (r.closing "dt").opening "dd" []
  | .autoList list =>
    ((r.closing (if list.isNumbered then "ol" else "ul")).breakUnless pre).reopenParagraph way
  | .autoListItem _ | .simpleListItem => (r.closing "li").breakUnless pre
  | .xrefItem x =>
    if x.title.isEmpty then r
    else (((r.closing "dd").closing "dl").layout "\n").reopenParagraph way
  | .image i =>
    if i.type != .html then r.onPage (·.unhide)
    else
      let r := if n.children.isEmpty then r else r.closing "div"
      ((r.closing "div").layout "\n").reopenParagraph way
  | .diagramFile _ =>
    let r := if n.children.isEmpty then r else (r.closing "div").layout "\n"
    ((r.closing "div").layout "\n").reopenParagraph way
  | .hyperlink _ => r.closing "a"
  | .link _ => r.onPage (·.endLink)
  | .reference l => if l.file.isEmpty then r else r.onPage (·.endLink)
  | .internalReference _ => (r.onPage (·.endLink)).layout " "
  | .list l => ((r.closing l.type.tag).breakUnless pre).reopenParagraph way
  | .listItem _ => (r.closing "li").layout "\n"
  | .descList _ => ((r.closing "dl").layout "\n").reopenParagraph way
  | .descTitle _ => (r.closing "dt").layout "\n"
  | .descData _ => (r.closing "dd").layout "\n"
  | .table _ => ((r.closing "table").layout "\n").reopenParagraph way
  | .row _ => (r.closing "tr").layout "\n"
  | .cell c => r.closing (if c.isHeading then "th" else "td")
  | .caption _ => (r.closing "caption").layout "\n"
  | .blockQuote _ => ((r.closing "blockquote").layout "\n").reopenParagraph way
  | .header h => ((r.closing (Html.Page.headingTag h.level)).layout "\n").reopenParagraph way
  | .sect _ => r.reopenParagraph way
  | .refList => ((((r.closing "ul").layout "\n").closing "div").layout "\n").reopenParagraph way
  | .refItem _ => ((r.closing "a").closing "li").layout "\n"
  | .simpleList => ((r.closing "ul").breakUnless pre).reopenParagraph way
  | .simpleSection _ => (((r.closing "dd").closing "dl").layout "\n").reopenParagraph way
  | .paramSection _ =>
    let r := ((r.layout "  ").closing "table").layout "\n  "
    ((((r.closing "dd").layout "\n").closing "dl").layout "\n").reopenParagraph way
  | .paramList _ => ((r.closing "td").closing "tr").layout "\n"
  | _ => r

end Rendering

end DocMarkup
