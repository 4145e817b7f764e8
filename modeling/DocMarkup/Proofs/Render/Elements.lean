import DocMarkup.Proofs.Parser.Elements
import DocMarkup.Proofs.Render.ElementTags
import DocMarkup.Proofs.Render.Inert

/-!
The elements of a tree.  A node closes what it opens, but for the changes of a division, which nest
among the children of a node, the title of a section, which ends the term it stands in and begins
the description, and a separator, which begins the description anew.
-/

namespace DocMarkup

open Html

/-- The elements of a node that are open around its children, the innermost first. -/
def Node.elements (n : Node) : List Text :=
  match n.content with
  | .autoList list => [units (if list.isNumbered then "ol" else "ul")]
  | .autoListItem _ | .simpleListItem | .listItem _ | .refItem _ => [units "li"]
  | .xrefItem x => if x.title.isEmpty then [] else [units "dd", units "dl"]
  | .image _ | .diagramFile _ =>
    if n.children.isEmpty then [units "div"] else [units "div", units "div"]
  | .list l => [units l.type.tag]
  | .descList _ => [units "dl"]
  | .descTitle _ => [units "dt"]
  | .descData _ => [units "dd"]
  | .table _ => [units "table"]
  | .row _ => [units "tr"]
  | .cell c => [units (if c.isHeading then "th" else "td")]
  | .caption _ => [units "caption"]
  | .blockQuote _ => [units "blockquote"]
  | .header h => openedBy (Page.headingTag h.level)
  | .refList => [units "ul", units "div"]
  | .simpleList => [units "ul"]
  | .simpleSection _ => [units "dd", units "dl"]
  | .paramSection _ => [units "table", units "dd", units "dl"]
  | .paramList _ => [units "td", units "tr"]
  | _ => []

/-- Those that are open in front of its heads.  A section with a title has its term open. -/
def Node.entered (n : Node) : List Text :=
  if n.kind == .simpleSection && !n.heads.isEmpty then [units "dt", units "dl"] else n.elements

namespace Node

theorem exists_simpleSection {n : Node} (h : n.kind = .simpleSection) :
    ∃ type, n.content = .simpleSection type := by
  unfold kind at h
  generalize n.content = content at h
  cases content <;> first
    | exact ⟨_, rfl⟩
    | cases h

theorem content_eq_title {n : Node} (h : n.kind = .title) : n.content = .title := by
  unfold kind at h
  generalize n.content = content at h
  cases content <;> first
    | rfl
    | cases h

theorem content_eq_separator {n : Node} (h : n.kind = .separator) :
    n.content = .separator := by
  unfold kind at h
  generalize n.content = content at h
  cases content <;> first
    | rfl
    | cases h

end Node

namespace Rendering

variable {r : Rendering} {context : RenderContext} {way : Way} {opened before after : List Text}

/-! ### Composite nodes -/

theorem Nests.xrefItemStart (h : r.Nests opened) {x : XRefItem}
    (hextension : TagFree context.settings.fileExtension)
    (hfree : (Content.xrefItem x).IsTagFree) (htitle : x.title.isEmpty = false) :
    (r.xrefItemStart context x).Nests (units "dd" :: units "dl" :: opened) := by
  have hkey : TagFree x.key := hfree x.key (by simp [Content.unescaped, htitle])
  have hfile : TagFree x.file := hfree x.file (by simp [Content.unescaped, htitle])
  have hrelPath : TagFree x.relPath := hfree x.relPath (by simp [Content.unescaped, htitle])
  have hanchor : TagFree x.anchor := hfree x.anchor (by simp [Content.unescaped, htitle])
  have hlist : IsAttributes (units " class=\"" ++ x.key ++ units "\"") :=
    isAttributes_quoted (by decide) (by decide) hkey
  have hlink : IsAttributes (units " class=\"el\" href=\"" ++ x.relPath ++ x.file ++
      context.settings.fileExtension ++ units "#" ++ x.anchor ++ units "\"") := by
    rw [List.append_assoc (units _), List.append_assoc (units _), List.append_assoc (units _),
      List.append_assoc (units _)]
    refine isAttributes_quoted (by decide) (by decide) ?_
    simp [hrelPath, hfile, hextension, hanchor, (by decide : TagFree (units "#"))]
  unfold Rendering.xrefItemStart
  cases hanonymous : x.file == units "@" <;>
    simpa (disch := decide) [hlist, hlink, isAttributes_nil, -List.append_assoc] using h

/-- A key with its value, if there is one. -/
theorem tagFree_size {key : String} (hkey : TagFree (units key)) {value : Text}
    (hvalue : TagFree value) :
    TagFree (if value.isEmpty then [] else units (" " ++ key ++ "=\"") ++ value ++ units "\"") := by
  split
  · exact tagFree_nil
  · simp [units_append, hkey, hvalue, (by decide : TagFree (units " ")),
      (by decide : TagFree (units "=\"")), (by decide : TagFree (units "\""))]

/-- Attributes that go on behind a quoted value. -/
theorem isAttributes_quoted_append {before t more : Text}
    (hspace : before.head? = some CodeUnit.space) (hbefore : TagFree before) (ht : TagFree t)
    (hmore : TagFree more) : IsAttributes (before ++ t ++ units "\"" ++ more) := by
  have hquoted : IsAttributes (before ++ t ++ units "\"") :=
    isAttributes_quoted hspace hbefore ht
  refine ⟨tagFree_append.2 ⟨hquoted.tagFree, hmore⟩, .inr ?_⟩
  rw [List.append_assoc, List.append_assoc, List.head?_append, hspace]
  rfl

theorem Nests.imageTag (h : r.Nests opened) {i : Image} (htype : i.type = .html)
    (hfree : (Content.image i).IsTagFree) : (r.imageTag i).Nests opened := by
  have hname : TagFree i.name := hfree i.name (by simp [Content.unescaped, htype])
  have hurl : TagFree i.url := hfree i.url (by simp [Content.unescaped, htype])
  have hrelPath : TagFree i.relPath := hfree i.relPath (by simp [Content.unescaped, htype])
  have hwidth : TagFree i.width := hfree i.width (by simp [Content.unescaped, htype])
  have hheight : TagFree i.height := hfree i.height (by simp [Content.unescaped, htype])
  have hnames : TagFree (writeAttributes i.attributes) :=
    tagFree_writeAttributes fun name hname =>
      hfree name (by simp [Content.unescaped, htype, hname])
  have hshown : TagFree
      (Path.baseName (i.name.map fun u => if u == unit '\\' then unit '/' else u)) := by
    refine Path.tagFree_baseName fun u hu => ?_
    obtain ⟨v, hv, rfl⟩ := List.mem_map.1 hu
    split
    · decide
    · exact hname v hv
  have haddress : TagFree (Path.relativeTo i.relPath i.url) := Path.tagFree_relativeTo hrelPath hurl
  have hmore : TagFree
      ((if i.width.isEmpty then [] else units (" " ++ "width" ++ "=\"") ++ i.width ++ units "\"") ++
        (if i.height.isEmpty then [] else units (" " ++ "height" ++ "=\"") ++ i.height ++
          units "\"") ++ writeAttributes i.attributes) :=
    tagFree_append.2 ⟨tagFree_append.2 ⟨tagFree_size (by decide) hwidth,
      tagFree_size (by decide) hheight⟩, hnames⟩
  unfold Rendering.imageTag
  dsimp only
  generalize (if i.width.isEmpty then [] else _) ++ _ ++ writeAttributes i.attributes = more
    at hmore ⊢
  generalize Path.baseName _ = name at hshown ⊢
  generalize Path.relativeTo _ _ = address at haddress ⊢
  have hlocal : TagFree (i.relPath ++ i.name) := tagFree_append.2 ⟨hrelPath, hname⟩
  -- a drawing is an object and a picture an image, from either address
  have hdrawing (source shown : Text) (hsource : TagFree source) (hshown : TagFree shown) :
      ((((r.opening "object" (units " type=\"image/svg+xml\" data=\"" ++ source ++ units "\"" ++
        more)).piece (.text shown)).closing "object").layout "\n").Nests opened := by
    have hattributes : IsAttributes (units " type=\"image/svg+xml\" data=\"" ++ source ++
        units "\"" ++ more) :=
      isAttributes_quoted_append (by decide) (by decide) hsource hmore
    simpa (disch := decide) [Page.nests_put_text hshown, hattributes, -List.append_assoc] using h
  have hpicture (source : Text) (hsource : TagFree source) :
      IsAttributes (units " src=\"" ++ source ++ units "\"" ++ more) :=
    isAttributes_quoted_append (by decide) (by decide) hsource hmore
  split
  · split
    · exact hdrawing _ _ hlocal hshown
    · have hnamed := hpicture (i.relPath ++ i.name ++ units "\" alt=\"" ++ name)
        (tagFree_append.2 ⟨tagFree_append.2 ⟨hlocal, by decide⟩, hshown⟩)
      simp only [← List.append_assoc] at hnamed
      simpa (disch := decide) [hnamed, -List.append_assoc] using h
  · split
    · exact hdrawing _ _ haddress tagFree_nil
    · simpa (disch := decide) [hpicture _ haddress, -List.append_assoc] using h

theorem Nests.captionStart (h : r.Nests opened) (hasCaption : Bool) :
    (r.captionStart hasCaption).Nests
      (if hasCaption then units "div" :: opened else opened) := by
  have hattributes : IsAttributes (units " class=\"caption\"") :=
    (isAttributes_of_head? (by decide)).2 (by decide)
  cases hasCaption with
  | true => simpa (disch := decide) [Rendering.captionStart, hattributes] using h
  | false => exact h

/-- A class among the attributes of a tag. -/
theorem isAttributes_class {className : String} (h : TagFree (units className)) :
    IsAttributes (units (" class=\"" ++ className ++ "\"")) := by
  rw [units_append, units_append]
  exact isAttributes_quoted (by decide) (by decide) h

section Branch

variable (htools : context.tools.KeepTags)
include htools

theorem Nests.diagramStart (h : r.Nests opened) {d : DiagramFile}
    (hfree : (Content.diagramFile d).IsTagFree) :
    (r.diagramStart context d).Nests (units "div" :: opened) := by
  have hname : TagFree (Path.stem d.file) := hfree _ (by simp [Content.unescaped])
  have hrelPath : TagFree d.relPath := hfree d.relPath (by simp [Content.unescaped])
  have hdrawing : TagFree (units d.type.drawing.2.1) ∧ TagFree (units d.type.drawing.2.2) := by
    cases d.type <;> decide
  have hopened : ((r.opening "div" (units (" class=\"" ++ d.type.drawing.2.2 ++ "\""))).layout
      "\n").Nests (units "div" :: opened) := by
    simpa (disch := decide) [isAttributes_class hdrawing.2] using h
  unfold Rendering.diagramStart
  dsimp only
  split
  · exact hopened
  · exact hopened.writeDiagram htools _ (tagFree_append.2 ⟨hdrawing.1, hname⟩) _ hrelPath

theorem Nests.simpleSectionStart (h : r.Nests opened) (type : SimpleSectionType)
    (hasTitle : Bool) :
    (r.simpleSectionStart context type hasTitle).Nests
      (if type.isTitled && hasTitle then units "dt" :: units "dl" :: opened
        else units "dd" :: units "dl" :: opened) := by
  have hclass : TagFree (units type.className) := by
    cases type <;> decide
  have hattributes : IsAttributes (units (" class=\"section " ++ type.className ++ "\"")) := by
    rw [units_append, units_append]
    exact isAttributes_quoted (by decide) (by decide) hclass
  unfold Rendering.simpleSectionStart
  generalize (type.isTitled && hasTitle) = isTitled
  cases Label.ofSimpleSection? type with
  | none =>
      cases isTitled <;> simpa (disch := decide) [hattributes, isAttributes_nil] using h
  | some label =>
      cases isTitled <;> simpa (disch := decide) [hattributes, isAttributes_nil,
        Page.nests_put_raw (htools.labels label)] using h

theorem Nests.paramSectionStart (h : r.Nests opened) (type : ParamSectionType) :
    (r.paramSectionStart context type).Nests
      (units "table" :: units "dd" :: units "dl" :: opened) := by
  have hclass : TagFree (units type.className) := by
    cases type <;> decide
  have hlabel := htools.labels (Label.ofParamSection type)
  unfold Rendering.paramSectionStart
  simpa (disch := decide) [isAttributes_class hclass, isAttributes_nil, Page.nests_put_raw hlabel]
    using h

/-- Names in a cell close what they open. -/
theorem Nests.nameCell (h : r.Nests opened) {className separator : String}
    (hclass : TagFree (units className)) (hseparator : TagFree (units separator))
    {names : List Node} (hnames : ∀ name ∈ names, name.kind.isName)
    (hfree : ∀ name ∈ names, name.content.IsTagFree) :
    (r.nameCell context way className separator names).Nests opened := by
  unfold Rendering.nameCell
  refine (Page.nests_putClosing_element (by decide)).2
    (List.foldlRecOn (motive := (Nests · (units "td" :: opened))) _ _ ?_ ?_)
  · exact (Page.nests_putOpening_element (by decide) _).2 ⟨isAttributes_class hclass, h⟩
  · rintro r h ⟨name, index⟩ hmem
    have hmem : name ∈ names := List.fst_mem_of_mem_zipIdx hmem
    have hname := hnames name hmem
    have hleaf : name.content.tags = [] ∧ name.kind.isComposite = false ∧
        name.kind ≠ .includeStep := by
      unfold Node.kind at hname ⊢
      generalize name.content = content at hname
      cases content <;> first
        | (cases hname; done)
        | exact ⟨rfl, rfl, nofun⟩
    refine Nests.leaf htools hleaf.2.1 hleaf.2.2 (hfree name hmem) (by rw [hleaf.1]; rfl) ?_
    simpa [hseparator] using h

theorem Nests.paramListStart (h : r.Nests opened) (list : ParamList) {types names : List Node}
    (htypes : ∀ type ∈ types, type.kind.isName) (hnames : ∀ name ∈ names, name.kind.isName)
    (htypesFree : ∀ type ∈ types, type.content.IsTagFree)
    (hnamesFree : ∀ name ∈ names, name.content.IsTagFree) :
    (r.paramListStart context way list types names).Nests (units "td" :: units "tr" :: opened) := by
  have hdirection : TagFree (units list.direction.label) := by
    cases list.direction <;> decide
  have hattributes : IsAttributes (units " class=\"paramdir\"") :=
    (isAttributes_of_head? (by decide)).2 (by decide)
  unfold Rendering.paramListStart
  refine (Page.nests_putOpening_element (by decide) _).2 ⟨isAttributes_nil, ?_⟩
  refine Nests.nameCell htools ?_ (by decide) (by decide) hnames hnamesFree
  have hlabel (p : Page) (opened : List Text) :
      (p.putLayout list.direction.label).Nests opened ↔ p.Nests opened :=
    Page.nests_putLayout hdirection
  split
  all_goals
    split
    · refine Nests.nameCell htools ?_ (by decide) (by decide) htypes htypesFree
      simpa (disch := decide) [hattributes, isAttributes_nil, hlabel] using h
    · simpa (disch := decide) [hattributes, isAttributes_nil, hlabel] using h

/-- A section opens its description, or its term if it has a title of its own. -/
theorem Nests.enterSection (h : r.Nests opened) {n : Node} {type : SimpleSectionType}
    (hcontent : n.content = .simpleSection type) (htitles : n.TitlesSection) :
    (r.enter context way n).Nests (n.entered ++ opened) := by
  have hclosed : (r.closeParagraph way).Nests opened := (nests_closeParagraph way).2 h
  have hkind : n.kind = .simpleSection := congrArg Content.kind hcontent
  unfold Rendering.enter Node.entered Node.elements
  rw [hcontent, hkind]
  rcases htitles type hcontent with hheads | ⟨htype, title, hheads⟩
  · rw [hheads]
    simpa using hclosed.simpleSectionStart htools type false
  · have htitled : type.isTitled := by
      rcases htype with rfl | rfl <;> rfl
    rw [hheads]
    simpa [htitled] using hclosed.simpleSectionStart htools type true

end Branch

section Links

variable {n : Node} (hfree : n.content.IsTagFree)
include hfree

theorem Nests.enterHyperlink (h : r.Nests opened) {l : Hyperlink}
    (hcontent : n.content = .hyperlink l) : (r.enter context way n).Nests opened := by
  rw [hcontent] at hfree
  unfold Rendering.enter
  rw [hcontent]
  refine (Page.nests_putOpening_other (by decide) _).2 ⟨?_, h⟩
  exact isAttributes_quoted_append (by decide) (by decide) (tagFree_escapeAttribute _)
    (tagFree_writeAttributes hfree)

theorem Nests.enterLink (h : r.Nests opened) {l : Link} (hcontent : n.content = .link l) :
    (r.enter context way n).Nests opened := by
  rw [hcontent] at hfree
  unfold Rendering.enter
  rw [hcontent]
  refine h.startLink ?_ (hfree l.tooltip (by simp [Content.unescaped]))
  constructor <;> exact hfree _ (by simp [Content.unescaped])

theorem Nests.enterReference (h : r.Nests opened) {l : Reference}
    (hcontent : n.content = .reference l) : (r.enter context way n).Nests opened := by
  rw [hcontent] at hfree
  have hlinked : (if l.file.isEmpty then r
      else r.onPage (·.startLink
        { ref := l.ref, file := l.file, relPath := l.relPath
          anchor := if l.isSubPage then [] else l.anchor })).Nests opened := by
    split
    next => exact h
    next hfile =>
        refine h.startLink ?_ tagFree_nil
        constructor
        case anchor =>
          dsimp only
          split
          · exact tagFree_nil
          · exact hfree l.anchor (by simp [Content.unescaped, hfile])
        all_goals exact hfree _ (by simp [Content.unescaped, hfile])
  unfold Rendering.enter
  rw [hcontent]
  dsimp only
  split
  · exact (nests_text _).2 hlinked
  · exact hlinked

theorem Nests.enterInternalReference (h : r.Nests opened) {l : InternalReference}
    (hcontent : n.content = .internalReference l) : (r.enter context way n).Nests opened := by
  rw [hcontent] at hfree
  unfold Rendering.enter
  rw [hcontent]
  refine h.startLink ?_ tagFree_nil
  constructor
  case ref => exact tagFree_nil
  all_goals exact hfree _ (by simp [Content.unescaped])

theorem Nests.enterRefItem (h : r.Nests opened) {i : RefItem}
    (hextension : TagFree context.settings.fileExtension) (hcontent : n.content = .refItem i) :
    (r.enter context way n).Nests (units "li" :: opened) := by
  rw [hcontent] at hfree
  have hfile : TagFree i.file := hfree i.file (by simp [Content.unescaped])
  have hrelPath : TagFree i.relPath := hfree i.relPath (by simp [Content.unescaped])
  have hanchor : TagFree i.anchor := hfree i.anchor (by simp [Content.unescaped])
  have hpage : TagFree (if Text.endsWith context.settings.fileExtension i.file then i.file
      else i.file ++ context.settings.fileExtension) := by
    split
    · exact hfile
    · exact tagFree_append.2 ⟨hfile, hextension⟩
  unfold Rendering.enter
  rw [hcontent]
  dsimp only
  generalize (if Text.endsWith context.settings.fileExtension i.file then i.file
      else i.file ++ context.settings.fileExtension) = file at hpage ⊢
  have hattributes : IsAttributes (units " href=\"" ++ i.relPath ++ file ++ units "#" ++
      i.anchor ++ units "\"") := by
    rw [List.append_assoc (units _), List.append_assoc (units _), List.append_assoc (units _)]
    refine isAttributes_quoted (by decide) (by decide) ?_
    simp [hrelPath, hpage, hanchor, (by decide : TagFree (units "#"))]
  simpa (disch := decide) [hattributes, isAttributes_nil, -List.append_assoc] using h

end Links

theorem Nests.enterParagraph (h : r.Nests opened) {n : Node} {paragraph : Paragraph}
    (hcontent : n.content = .paragraph paragraph) : (r.enter context way n).Nests opened := by
  have hattributes : IsAttributes (units (Balance.position way).edge.attributes) := by
    cases (Balance.position way).edge with
    | none => exact isAttributes_nil
    | _ => exact (isAttributes_of_head? (by decide)).2 (by decide)
  unfold Rendering.enter
  rw [hcontent]
  dsimp only
  split
  · exact Page.Nests.startParagraph h hattributes
  · exact h

theorem Nests.enterAutoList (h : r.Nests opened) {n : Node} {list : AutoList}
    (hcontent : n.content = .autoList list) :
    (r.enter context way n).Nests (units (if list.isNumbered then "ol" else "ul") :: opened) := by
  have hnumbering : TagFree (units list.numbering) := by
    unfold AutoList.numbering
    split <;> decide
  have hattributes : IsAttributes (units (" type=\"" ++ list.numbering ++ "\"")) := by
    rw [units_append, units_append]
    exact isAttributes_quoted (by decide) (by decide) hnumbering
  unfold Rendering.enter
  rw [hcontent]
  dsimp only
  cases list.isNumbered <;> simpa (disch := decide) [hattributes, isAttributes_nil] using h

theorem Nests.enterImage (h : r.Nests opened) {n : Node} {i : Image} (hfree : n.content.IsTagFree)
    (hcontent : n.content = .image i) (htype : i.type = .html) :
    (r.enter context way n).Nests
      ((if n.children.isEmpty then [units "div"] else [units "div", units "div"]) ++ opened) := by
  rw [hcontent] at hfree
  have hattributes : IsAttributes (units " class=\"image\"") :=
    (isAttributes_of_head? (by decide)).2 (by decide)
  have hopened : (((r.closeParagraph way).opening "div" (units " class=\"image\"")).layout
      "\n").Nests (units "div" :: opened) := by
    simpa (disch := decide) [hattributes] using h
  have hcaption := (hopened.imageTag htype hfree).captionStart (!n.children.isEmpty)
  unfold Rendering.enter
  rw [hcontent]
  dsimp only
  rw [if_neg (by simp [htype])]
  cases hempty : n.children.isEmpty <;> simpa [hempty] using hcaption

theorem Nests.enterDiagramFile (h : r.Nests opened) {n : Node} {d : DiagramFile}
    (htools : context.tools.KeepTags) (hfree : n.content.IsTagFree)
    (hcontent : n.content = .diagramFile d) :
    (r.enter context way n).Nests
      ((if n.children.isEmpty then [units "div"] else [units "div", units "div"]) ++ opened) := by
  rw [hcontent] at hfree
  have hclosed : (r.closeParagraph way).Nests opened := (nests_closeParagraph way).2 h
  have hcaption := (hclosed.diagramStart htools hfree).captionStart (!n.children.isEmpty)
  unfold Rendering.enter
  rw [hcontent]
  dsimp only
  cases hempty : n.children.isEmpty <;> simpa [hempty] using hcaption

/-- In front of its heads a node opens its elements. -/
theorem Nests.enter (h : r.Nests opened) {n : Node} (htools : context.tools.KeepTags)
    (hextension : TagFree context.settings.fileExtension) (hn : n.Conforms)
    (htitles : n.TitlesSection) (hfree : n.content.IsTagFree)
    (hparts : ∀ part ∈ n.parts, part.content.IsTagFree)
    (hshown : hidesBelow context n.content = false) :
    (r.enter context way n).Nests (n.entered ++ opened) := by
  by_cases hsection : n.kind = .simpleSection
  · obtain ⟨type, hcontent⟩ := Node.exists_simpleSection hsection
    exact h.enterSection htools hcontent htitles
  have hclosed : (r.closeParagraph way).Nests opened := (nests_closeParagraph way).2 h
  have hwritten (attributes : Attributes) (hnames : n.content.unescaped = writtenNames attributes) :
      IsAttributes (writeAttributes attributes) :=
    isAttributes_writeAttributes (hnames ▸ hfree)
  have hentered : n.entered = n.elements := by simp [Node.entered, hsection]
  rw [hentered]
  unfold Node.elements
  cases hcontent : n.content with
  | simpleSection type => exact absurd (congrArg Content.kind hcontent) hsection
  | internal =>
      rw [hcontent] at hshown
      have hinternal : context.settings.internalDocs := by simpa [hidesBelow] using hshown
      simpa [Rendering.enter, hcontent, hinternal] using h
  | paragraph paragraph => exact h.enterParagraph hcontent
  | autoList list => exact h.enterAutoList hcontent
  | autoListItem | simpleListItem | simpleList =>
      simpa (disch := decide) [Rendering.enter, hcontent, isAttributes_nil] using h
  | xrefItem x =>
      rw [hcontent] at hfree
      cases htitle : x.title.isEmpty with
      | true => simpa [Rendering.enter, hcontent, htitle] using h
      | false =>
          simpa [Rendering.enter, hcontent, htitle] using
            hclosed.xrefItemStart hextension hfree htitle
  | image i =>
      rw [hcontent] at hshown
      exact h.enterImage hfree hcontent (by simpa [hidesBelow] using hshown)
  | diagramFile d => exact h.enterDiagramFile htools hfree hcontent
  | hyperlink l => exact h.enterHyperlink hfree hcontent
  | link l => exact h.enterLink hfree hcontent
  | reference l => exact h.enterReference hfree hcontent
  | internalReference l => exact h.enterInternalReference hfree hcontent
  | list l =>
      have hattributes := hwritten l.attributes (by rw [hcontent]; rfl)
      cases htype : l.type <;>
        simpa (disch := decide) [Rendering.enter, hcontent, htype, ListType.tag, hattributes]
          using h
  | listItem i =>
      have hattributes := hwritten i.attributes (by rw [hcontent]; rfl)
      simpa (disch := decide) [Rendering.enter, hcontent, hattributes] using h
  | descList attributes | descTitle attributes | descData attributes | caption attributes =>
      have hattributes := hwritten attributes (by rw [hcontent]; rfl)
      simpa (disch := decide) [Rendering.enter, hcontent, hattributes] using h
  | table t =>
      rw [hcontent] at hfree
      have hopened := hclosed.taggedOr (by decide : "table" ∈ Html.elements)
        (isAttributes_class (by decide : TagFree (units "doxtable"))) hfree
      simpa (disch := decide) [Rendering.enter, hcontent] using hopened
  | row t =>
      have hattributes := hwritten t.attributes (by rw [hcontent]; rfl)
      simpa (disch := decide) [Rendering.enter, hcontent, hattributes] using h
  | cell c =>
      have hattributes := hwritten c.attributes (by rw [hcontent]; rfl)
      cases hheading : c.isHeading <;>
        simpa (disch := decide) [Rendering.enter, hcontent, hheading, hattributes] using h
  | blockQuote attributes =>
      rw [hcontent] at hfree
      have hopened := hclosed.taggedOr (by decide : "blockquote" ∈ Html.elements)
        (isAttributes_class (by decide : TagFree (units "doxtable"))) hfree
      simpa (disch := decide) [Rendering.enter, hcontent] using hopened
  | header l =>
      have hattributes := hwritten l.attributes (by rw [hcontent]; rfl)
      have hopened := (Page.nests_putOpening (isName_headingTag l.level) _).2 ⟨hattributes, hclosed⟩
      simpa [Rendering.enter, hcontent] using hopened
  | sect s =>
      rw [hcontent] at hfree
      have hanchor : TagFree s.anchor := hfree s.anchor (by simp [Content.unescaped])
      have hstarted := Page.Nests.startSection hclosed hanchor s.level
      simpa [Rendering.enter, hcontent] using hstarted
  | refList =>
      have hattributes : IsAttributes (units " class=\"multicol\"") :=
        (isAttributes_of_head? (by decide)).2 (by decide)
      simpa (disch := decide) [Rendering.enter, hcontent, hattributes, isAttributes_nil] using h
  | refItem i => exact h.enterRefItem hfree hextension hcontent
  | paramSection s =>
      simpa [Rendering.enter, hcontent] using hclosed.paramSectionStart htools s.type
  | paramList list =>
      have hnames (name : Node) (hname : name ∈ n.heads) : name.kind.isName := by
        have hkind : n.kind.heads name.kind := hn.heads name hname
        rwa [Node.kind, hcontent] at hkind
      have hstarted : (r.paramListStart context way list n.types n.heads).Nests _ :=
        h.paramListStart htools list (fun type htype => (hn.types type htype).2) hnames
          (fun type htype => hparts type (Node.mem_parts.2 (.inl htype)))
          (fun name hname => hparts name (Node.mem_parts.2 (.inr (.inl hname))))
      simpa [Rendering.enter, hcontent] using hstarted
  | _ => simpa [Rendering.enter, hcontent] using h

/-- A title ends the term that it stands in. -/
theorem Nests.leaveTitle {n : Node} (hcontent : n.content = .title)
    (h : r.Nests (units "dt" :: opened)) :
    (r.leave context way n).Nests (units "dd" :: opened) := by
  unfold Rendering.leave
  rw [hcontent]
  simpa (disch := decide) [isAttributes_nil] using h

/-- Behind its children a node closes its elements. -/
theorem Nests.leave {n : Node} (htitle : n.kind ≠ .title)
    (hshown : hidesBelow context n.content = false) (h : r.Nests (n.elements ++ opened)) :
    (r.leave context way n).Nests opened := by
  unfold Node.kind at htitle
  unfold Node.elements at h
  unfold Rendering.leave
  dsimp only
  generalize n.content = content at htitle hshown h ⊢
  cases content with
  | title => exact absurd rfl htitle
  | internal =>
      have hinternal : context.settings.internalDocs := by simpa [hidesBelow] using hshown
      simpa [hinternal] using h
  | autoList list =>
      cases hnumbered : list.isNumbered <;> simpa (disch := decide) [hnumbered] using h
  | xrefItem x =>
      cases hempty : x.title.isEmpty <;> simpa (disch := decide) [hempty] using h
  | image i =>
      have htype : i.type = .html := by simpa [hidesBelow] using hshown
      cases hempty : n.children.isEmpty <;> simpa (disch := decide) [htype, hempty] using h
  | diagramFile d =>
      cases hempty : n.children.isEmpty <;> simpa (disch := decide) [hempty] using h
  | list l =>
      cases htype : l.type <;> simpa (disch := decide) [htype, ListType.tag] using h
  | cell c =>
      cases hheading : c.isHeading <;> simpa (disch := decide) [hheading] using h
  | header l =>
      have hclosed := (Page.nests_putClosing (isName_headingTag l.level)).2 h
      simpa (disch := decide) using hclosed
  | _ => simpa (disch := decide) using h

end Rendering

/-! ### Nodes below a node -/

/-- The structural tag by which a division begins or ends. -/
def StyleMark.tag (mark : StyleMark) : Tag := { name := units "div", opens := mark.2 }

theorem Nested.wellNested {marks : List StyleMark} (h : Nested marks) :
    WellNested (marks.map StyleMark.tag) := by
  induction h with
  | nil => exact .nil
  | span style inner rest _ _ hinner hrest =>
      rw [List.map_cons, List.map_append, List.map_cons]
      exact .element _ hinner hrest

namespace Node

/-- The structural tags of some nodes that are not closed, or not opened, within them. -/
def tagsOf (nodes : List Node) : List Tag := nodes.flatMap fun n => n.content.tags

/-- Between titles and separators, only changes of a division have structural tags of their own. -/
theorem tags_content {n : Node} (htitle : n.kind ≠ .title) (hseparator : n.kind ≠ .separator) :
    n.content.tags =
      (n.styleMark?.toList.filter fun mark => mark.1 == .division).map StyleMark.tag := by
  unfold kind at htitle hseparator
  unfold styleMark?
  generalize n.content = content at htitle hseparator
  cases content with
  | title => exact absurd rfl htitle
  | separator => exact absurd rfl hseparator
  | styleChange change =>
      by_cases hdivision : change.style = .division
      · simp [Content.tags, hdivision, StyleMark.tag]
      · simp [Content.tags, hdivision]
  | _ => rfl

theorem tags_eq_nil {n : Node} (htitle : n.kind ≠ .title) (hseparator : n.kind ≠ .separator)
    (hstyle : n.kind ≠ .styleChange) : n.content.tags = [] := by
  rw [tags_content htitle hseparator, styleMark?_eq_none hstyle]
  rfl

theorem tagsOf_eq_nil {nodes : List Node} (h : ∀ n ∈ nodes, n.content.tags = []) :
    tagsOf nodes = [] :=
  List.flatMap_eq_nil_iff.2 h

theorem tagsOf_eq {nodes : List Node}
    (hnodes : ∀ n ∈ nodes, n.kind ≠ .title ∧ n.kind ≠ .separator) :
    tagsOf nodes =
      ((nodes.filterMap styleMark?).filter fun mark => mark.1 == .division).map StyleMark.tag := by
  induction nodes with
  | nil => rfl
  | cons n rest ih =>
      obtain ⟨⟨htitle, hseparator⟩, hrest⟩ := List.forall_mem_cons.1 hnodes
      have hmarks : (n :: rest).filterMap styleMark? =
          n.styleMark?.toList ++ rest.filterMap styleMark? := by
        rw [List.filterMap_cons]
        cases n.styleMark? <;> rfl
      rw [tagsOf, List.flatMap_cons, ← tagsOf, tags_content htitle hseparator, ih hrest, hmarks,
        List.filter_append, List.map_append]

/-- Only simple sections have separators, and no node has titles among its children. -/
theorem Conforms.child_ne {n child : Node} (h : n.Conforms) (hchild : child ∈ n.children) :
    child.kind ≠ .title ∧ (n.kind ≠ .simpleSection → child.kind ≠ .separator) := by
  have hlists := h.children child hchild
  generalize n.kind = kind, child.kind = below at hlists
  constructor
  · rintro rfl
    cases kind <;> cases hlists
  · rintro hsection rfl
    cases kind <;> first
      | exact absurd rfl hsection
      | cases hlists

/-- What the elements of a page rely on in a node of the tree. -/
structure HoldsElements (n : Node) : Prop where
  conforms : n.Conforms
  noStep : n.kind ≠ .includeStep
  divisions : Nested (n.styleMarks.filter fun mark => mark.1 == .division)
  title : n.TitlesSection

theorem bracketed_of_holdsElements {n : Node} (h : n.Everywhere HoldsElements) :
    n.Everywhere Bracketed := by
  intro m hm
  refine (h m hm).conforms.bracketed fun _ => inRuns_of_no_step fun child hchild => ?_
  exact (h child (hm.tail (mem_parts.2 (.inr (.inr hchild))))).noStep

end Node

namespace Rendering

variable {r : Rendering} {context : RenderContext} {way : Way} {opened before after : List Text}

/-- A tree opens and closes what the tags of its root do. -/
def FollowsTags (context : RenderContext) (n : Node) : Prop :=
  ∀ {way : Way} {r : Rendering} {before after : List Text},
    n.content.tags.foldlM Tag.next before = some after → r.Nests before →
      (node context way r n).Nests after

theorem Nests.nodes {nodes : List Node} {place : Nat → Way} {index : Nat}
    (htags : (Node.tagsOf nodes).foldlM Tag.next before = some after)
    (hnodes : ∀ n ∈ nodes, FollowsTags context n) (h : r.Nests before) :
    (Rendering.nodes context place index r nodes).Nests after := by
  induction nodes generalizing r before index with
  | nil =>
      obtain rfl := Option.some.inj htags
      exact h
  | cons n rest ih =>
      obtain ⟨hn, hrest⟩ := List.forall_mem_cons.1 hnodes
      rw [Node.tagsOf, List.flatMap_cons, List.foldlM_append] at htags
      obtain ⟨between, htag, htags⟩ := Option.bind_eq_some_iff.1 htags
      exact ih htags hrest (hn htag h)

/-- A title ends the term of its section; other heads close what they open. -/
theorem foldlM_heads {n : Node} (hn : n.HoldsElements) (hkind : n.kind ≠ .paramList)
    (opened : List Text) :
    (Node.tagsOf n.heads).foldlM Tag.next (n.entered ++ opened) = some (n.elements ++ opened) := by
  by_cases hsection : n.kind = .simpleSection
  · obtain ⟨type, hcontent⟩ := Node.exists_simpleSection hsection
    have helements : n.elements = [units "dd", units "dl"] := by
      rw [Node.elements, hcontent]
    rcases hn.title type hcontent with hheads | ⟨-, title, hheads⟩
    · have hentered : n.entered = n.elements := by simp [Node.entered, hheads]
      rw [hheads, hentered]
      rfl
    · have hentered : n.entered = [units "dt", units "dl"] := by
        simp [Node.entered, hheads, hsection]
      have htitle : title.content = .title := by
        have hhead := hn.conforms.heads title (by rw [hheads]; exact List.mem_singleton_self title)
        rw [hsection] at hhead
        exact Node.content_eq_title (by simpa [Kind.heads] using hhead)
      rw [hheads, hentered, helements, Node.tagsOf, List.flatMap_singleton, htitle]
      exact foldlM_next_turn.2 ⟨_, rfl, rfl⟩
  · have hentered : n.entered = n.elements := by simp [Node.entered, hsection]
    have hcaption (head : Node) (hhead : head ∈ n.heads) : head.kind = .caption := by
      have hheads := hn.conforms.heads head hhead
      generalize n.kind = kind at hheads hsection hkind
      cases kind <;> first
        | exact absurd rfl hsection
        | exact absurd rfl hkind
        | cases hheads
        | simpa [Kind.heads] using hheads
    have hnone : Node.tagsOf n.heads = [] := by
      refine Node.tagsOf_eq_nil fun head hhead => ?_
      apply Node.tags_eq_nil <;> rw [hcaption head hhead] <;> nofun
    rw [hnone, hentered]
    rfl

theorem foldlM_description {nodes : List Node} {outer : List Text}
    (hnodes : ∀ n ∈ nodes, n.kind = .paragraph ∨ n.kind = .separator) :
    (Node.tagsOf nodes).foldlM Tag.next (units "dd" :: outer) = some (units "dd" :: outer) := by
  induction nodes with
  | nil => rfl
  | cons n rest ih =>
      obtain ⟨hn, hrest⟩ := List.forall_mem_cons.1 hnodes
      have hfirst : n.content.tags.foldlM Tag.next (units "dd" :: outer) =
          some (units "dd" :: outer) := by
        rcases hn with hparagraph | hseparator
        · rw [Node.tags_eq_nil] <;> first
            | rfl
            | (rw [hparagraph]; nofun)
        · rw [Node.content_eq_separator hseparator]
          exact foldlM_next_turn.2 ⟨_, rfl, rfl⟩
      rw [Node.tagsOf, List.flatMap_cons, List.foldlM_append, hfirst]
      exact ih hrest

/-- Children leave open what is open in front of them. -/
theorem foldlM_children {n : Node} (hn : n.HoldsElements) (opened : List Text) :
    (Node.tagsOf n.children).foldlM Tag.next (n.elements ++ opened) =
      some (n.elements ++ opened) := by
  by_cases hsection : n.kind = .simpleSection
  · obtain ⟨type, hcontent⟩ := Node.exists_simpleSection hsection
    have helements : n.elements = [units "dd", units "dl"] := by
      rw [Node.elements, hcontent]
    rw [helements]
    refine foldlM_description fun child hchild => ?_
    have hlists := hn.conforms.children child hchild
    rw [hsection] at hlists
    simpa [Kind.lists] using hlists
  · rw [Node.tagsOf_eq]
    · exact hn.divisions.wellNested.foldlM _
    · intro child hchild
      obtain ⟨htitle, hseparator⟩ := hn.conforms.child_ne hchild
      exact ⟨htitle, hseparator hsection⟩

/-- Below a node its elements stay open, but a title turns the term into the description. -/
theorem Nests.below {n : Node} (hn : n.HoldsElements)
    (hparts : ∀ part ∈ n.parts, FollowsTags context part) (h : r.Nests (n.entered ++ opened)) :
    (Rendering.below context way r n).Nests (n.elements ++ opened) := by
  have hheads : (if n.kind == .paramList then r
      else Rendering.nodes context (fun _ => placeBelow n none :: way) 0 r n.heads).Nests
        (n.elements ++ opened) := by
    split
    · next hkind =>
      have hentered : n.entered = n.elements := by
        rw [Node.entered, eq_of_beq hkind]
        rfl
      rwa [← hentered]
    · next hkind =>
      refine Nests.nodes (foldlM_heads hn (by simpa using hkind) opened) ?_ h
      exact fun head hhead => hparts head (Node.mem_parts.2 (.inr (.inl hhead)))
  refine Nests.nodes (foldlM_children hn opened) ?_ hheads
  exact fun child hchild => hparts child (Node.mem_parts.2 (.inr (.inr hchild)))

/-- What is seen of the parts of a node that shows them is part of what is seen of it. -/
theorem shown_mem_parts {n part : Node} (hshown : hidesBelow context n.content = false)
    (hpart : part ∈ n.parts) : part.shown context ∈ (n.shown context).parts := by
  rw [Node.mem_parts, Node.types_shown hshown, Node.heads_shown hshown, Node.children_shown hshown]
  rcases Node.mem_parts.1 hpart with htype | hhead | hchild
  · exact .inl (List.mem_map_of_mem htype)
  · exact .inr (.inl (List.mem_map_of_mem hhead))
  · exact .inr (.inr (List.mem_map_of_mem hchild))

/-- Every tree opens and closes what the tags of its root do. -/
theorem followsTags (htools : context.tools.KeepTags)
    (hextension : TagFree context.settings.fileExtension) {n : Node}
    (hn : n.Everywhere Node.HoldsElements)
    (hfree : (n.shown context).Everywhere (·.content.IsTagFree)) : FollowsTags context n := by
  induction n using Node.part_induct with
  | node n ih =>
      intro way r before after htags h
      have hcontentFree : n.content.IsTagFree := by
        have hhere := hfree.here
        rwa [Node.content_shown] at hhere
      cases hcomposite : n.kind.isComposite with
      | false =>
          rw [node_leaf hcomposite]
          exact h.leaf htools hcomposite hn.here.noStep hcontentFree htags
      | true =>
          cases hhides : hidesBelow context n.content with
          | true =>
              have htagless : n.content.tags = [] := by
                generalize n.content = content at hhides
                cases content <;> first
                  | rfl
                  | cases hhides
              rw [htagless] at htags
              obtain rfl := Option.some.inj htags
              rwa [node_of_hidesBelow (Node.bracketed_of_holdsElements hn) hhides]
          | false =>
              have hpartsFree (part : Node) (hpart : part ∈ n.parts) :
                  (part.shown context).Everywhere (·.content.IsTagFree) :=
                hfree.part (shown_mem_parts hhides hpart)
              have hentered : (r.enter context way n).Nests (n.entered ++ before) := by
                refine h.enter htools hextension hn.here.conforms hn.here.title hcontentFree ?_
                  hhides
                intro part hpart
                have hhere := (hpartsFree part hpart).here
                rwa [Node.content_shown] at hhere
              rw [node_composite hcomposite]
              have hbelow : (Rendering.below context way (r.enter context way n) n).Nests _ :=
                hentered.below hn.here fun part hpart =>
                  ih part hpart (hn.part hpart) (hpartsFree part hpart)
              -- only a title closes what it did not open: the term that its section began
              by_cases htitle : n.kind = .title
              · have hcontent := Node.content_eq_title htitle
                have helements : n.elements = [] := by rw [Node.elements, hcontent]
                rw [hcontent] at htags
                obtain ⟨outer, rfl, rfl⟩ := foldlM_next_turn.1 htags
                rw [helements, List.nil_append] at hbelow
                exact hbelow.leaveTitle hcontent
              · have htagless : n.content.tags = [] := by
                  refine Node.tags_eq_nil htitle ?_ ?_ <;>
                    · intro hkind
                      rw [hkind] at hcomposite
                      cases hcomposite
                rw [htagless] at htags
                obtain rfl := Option.some.inj htags
                exact hbelow.leave htitle hhides

/-! ### Documents -/

/-- The structural tags of a page nest when no element is open behind it. -/
theorem Nests.wellNested (h : r.Nests []) : WellNested (structuralTags r.page.contents) := by
  rw [Page.structuralTags_contents h.clean]
  exact wellNested_of_openElements h.tags

theorem nests_start (hsettings : context.settings.KeepTags) {relPath : Text}
    (hrelPath : TagFree relPath) (diagramCounts : DiagramCounts) :
    (start context relPath diagramCounts).Nests [] where
  shown := rfl
  options := ⟨hsettings.fileExtension, hsettings.tagFiles, hrelPath⟩
  clean := nofun
  tags := rfl

/-- A document leaves no element open. -/
theorem document_nests (hsettings : context.settings.KeepTags) (htools : context.tools.KeepTags)
    {relPath : Text} (hrelPath : TagFree relPath) (diagramCounts : DiagramCounts) (way : Way)
    {n : Node} (hroot : n.kind = .root) (hn : n.Everywhere Node.HoldsElements)
    (hfree : (n.shown context).Everywhere (·.content.IsTagFree)) :
    (document context relPath diagramCounts way n).Nests [] := by
  have htagless : n.content.tags = [] := by
    apply Node.tags_eq_nil <;> rw [hroot] <;> nofun
  refine followsTags htools hsettings.fileExtension hn hfree ?_
    (nests_start hsettings hrelPath diagramCounts)
  rw [htagless]
  rfl

end Rendering

/-! ### Tools -/

/-- Code without highlighting ends every line. -/
theorem CodeRequest.wellNested_plain (request : CodeRequest) :
    WellNested (request.plain.filterMap CodeAction.tag?) := by
  unfold plain
  generalize (Text.lines request.code).zipIdx = lines
  induction lines with
  | nil => exact .nil
  | cons line lines ih =>
      rw [List.flatMap_cons, List.filterMap_append]
      have hline : (CodeAction.startLine ::
          (if request.showLineNumbers then [CodeAction.lineNumber (line.2 + 1 : Nat)] else []) ++
            [CodeAction.code line.1, CodeAction.endLine]).filterMap CodeAction.tag? =
          [{ name := units "div", opens := true }, { name := units "div", opens := false }] := by
        split <;> rfl
      rw [hline]
      exact .element _ .nil ih

theorem RenderTools.keepTags_default : ({} : RenderTools).KeepTags where
  labels := Label.tagFree_english
  images := nofun
  code := by
    intro request action haction
    rw [CodeRequest.unescaped_plain haction]
    nofun
  lines := CodeRequest.wellNested_plain

end DocMarkup
