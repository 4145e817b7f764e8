import DocMarkup.Proofs.Html.Sealed
import DocMarkup.Proofs.Render.ElementTags
import DocMarkup.Proofs.Render.Steps

/-!
The markup of a page.  Most texts of a tree are escaped for the place they are written to; where one
is written as it is, it must not hold a quote or a bracket.
-/

namespace DocMarkup

open Html

/-! ### What is written as it is -/

/-- Nothing breaks out of what the tools have written as it is. -/
structure RenderTools.AreSealed (tools : RenderTools) : Prop where
  labels : ∀ label, TagFree (tools.translate label)
  images : ∀ request imageFile, tools.drawDiagram request = .ok imageFile → IsValue imageFile
  code : ∀ request, ∀ action ∈ tools.highlight request, ∀ t ∈ action.unescaped, IsValue t

/-- Nor out of what the settings have written as it is. -/
structure Settings.AreSealed (settings : Settings) : Prop where
  fileExtension : IsValue settings.fileExtension
  tagFiles : ∀ entry ∈ settings.tagFiles, IsValue entry.2

/-- Attributes of the comment that are written in the tag of a node. -/
def Content.attributes : Content → Attributes
  | .styleChange change => if change.enable then change.attributes else []
  | .image i => if i.type = .html then i.attributes else []
  | .hyperlink h => h.attributes
  | .list l => l.attributes
  | .listItem i => i.attributes
  | .descList attributes | .descTitle attributes | .descData attributes | .caption attributes
  | .blockQuote attributes => attributes
  | .table t => t.attributes
  | .row t => t.attributes
  | .cell c => c.attributes
  | .header h => h.attributes
  | _ => []

/-- Nothing breaks out of what is written of a node: its texts that are not escaped hold neither
quotes nor brackets, and its attributes have proper names. -/
structure Content.IsSealed (c : Content) : Prop where
  values : ∀ t ∈ c.unescaped, IsValue t
  names : ∀ name ∈ writtenNames c.attributes, IsAttributeName name

instance : DecidablePred Content.IsSealed := fun c =>
  decidable_of_iff ((∀ t ∈ c.unescaped, IsValue t) ∧
      ∀ name ∈ writtenNames c.attributes, IsAttributeName name)
    ⟨fun ⟨values, names⟩ => ⟨values, names⟩, fun h => ⟨h.values, h.names⟩⟩

namespace Rendering

/-- Nothing breaks out of what has been written. -/
def IsSealed (r : Rendering) : Prop := r.page.IsSealed

variable {r : Rendering} {context : RenderContext} {way : Way}

@[simp]
theorem sealed_page : r.page.IsSealed ↔ r.IsSealed := Iff.rfl

@[simp]
theorem sealed_onPage (f : Page → Page) : (r.onPage f).IsSealed ↔ (f r.page).IsSealed := Iff.rfl

@[simp]
theorem sealed_opening {tag : String} {attributes : Text} (htag : IsElementName (units tag))
    (hattributes : AreAttributes attributes) :
    (r.opening tag attributes).IsSealed ↔ r.IsSealed :=
  Page.sealed_putOpening htag hattributes

@[simp]
theorem sealed_closing {tag : String} (htag : IsElementName (units tag)) :
    (r.closing tag).IsSealed ↔ r.IsSealed :=
  Page.sealed_putClosing htag

@[simp]
theorem sealed_layout {s : String} (hs : TagFree (units s)) :
    (r.layout s).IsSealed ↔ r.IsSealed :=
  Page.sealed_putLayout hs

@[simp]
theorem sealed_raw {t : Text} (ht : TagFree t) : (r.raw t).IsSealed ↔ r.IsSealed :=
  Page.sealed_putRaw ht

@[simp]
theorem sealed_text (t : Text) : (r.text t).IsSealed ↔ r.IsSealed := Page.sealed_putText t

@[simp]
theorem sealed_escaped {t : Text} (ht : TagFree t) :
    (r.piece (.text t)).IsSealed ↔ r.IsSealed :=
  Page.sealed_put_text ht

@[simp]
theorem sealed_single {tag : String} {attributes : Text} (htag : IsElementName (units tag))
    (hattributes : AreAttributes attributes) :
    (r.piece (.single tag attributes)).IsSealed ↔ r.IsSealed :=
  Page.sealed_put_single htag hattributes

@[simp]
theorem sealed_insidePre (insidePre : Bool) :
    ({ r with insidePre } : Rendering).IsSealed ↔ r.IsSealed := Iff.rfl

@[simp]
theorem sealed_diagramCounts (diagramCounts : DiagramCounts) :
    ({ r with diagramCounts } : Rendering).IsSealed ↔ r.IsSealed := Iff.rfl

@[simp]
theorem sealed_report (problem : Problem) (subject : Option Text) :
    (r.report context problem subject).IsSealed ↔ r.IsSealed := Iff.rfl

@[simp]
theorem sealed_ite (c : Prop) [Decidable c] (first second : Rendering) :
    (if c then first else second).IsSealed ↔ if c then first.IsSealed else second.IsSealed := by
  split <;> rfl

@[simp]
theorem sealed_closeParagraph : (r.closeParagraph way).IsSealed ↔ r.IsSealed := by
  have hname : IsElementName (units "p") := isElementName (by decide)
  simp [closeParagraph, hname]

@[simp]
theorem sealed_reopenParagraph : (r.reopenParagraph way).IsSealed ↔ r.IsSealed := by
  have hname : IsElementName (units "p") := isElementName (by decide)
  simp [reopenParagraph, hname, AreAttributes.nil]

@[simp]
theorem sealed_block (write : Rendering → Rendering) :
    (r.block way write).IsSealed ↔ (write (r.closeParagraph way)).IsSealed :=
  sealed_reopenParagraph

@[simp]
theorem sealed_breakUnless (preformatted : Bool) :
    (r.breakUnless preformatted).IsSealed ↔ r.IsSealed := by
  simp (disch := decide) [breakUnless]

theorem sealed_tagged {tag : String} {attributes : Attributes} (htag : IsElementName (units tag))
    (hnames : ∀ name ∈ writtenNames attributes, IsAttributeName name) :
    (r.tagged tag attributes).IsSealed ↔ r.IsSealed :=
  sealed_opening htag (areAttributes_writeAttributes hnames)

theorem sealed_taggedOr {tag className : String} {attributes : Attributes}
    (htag : IsElementName (units tag)) (hclass : IsValue (units className))
    (hnames : ∀ name ∈ writtenNames attributes, IsAttributeName name) :
    (r.taggedOr tag className attributes).IsSealed ↔ r.IsSealed := by
  refine sealed_opening htag ?_
  split
  · exact areAttributes_class hclass
  · exact areAttributes_writeAttributes hnames

/-! ### Tools -/

theorem IsSealed.writeAction {p : Page} {action : CodeAction}
    (haction : ∀ t ∈ action.unescaped, IsValue t) (h : p.IsSealed) :
    (Rendering.writeAction p action).IsSealed := by
  cases action with
  | startLine => exact Page.sealed_startCodeLine.2 h
  | endLine => exact Page.sealed_endCodeLine.2 h
  | lineNumber number => exact (Page.sealed_writeLineNumber number).2 h
  | code t => exact (Page.sealed_putCode t).2 h
  | startFontClass name =>
      exact (Page.sealed_startFontClass (haction name (by simp [CodeAction.unescaped]))).2 h
  | endFontClass => exact Page.sealed_endFontClass.2 h
  | link target name =>
      obtain ⟨href, hfile, hanchor⟩ : _ ∧ _ ∧ _ := by
        simpa [CodeAction.unescaped] using haction
      exact h.writeCodeLink href hfile hanchor name
  | anchor name =>
      exact (Page.sealed_writeNamedAnchor (haction name (by simp [CodeAction.unescaped]))).2 h

section Tools

variable (htools : context.tools.AreSealed)
include htools

theorem IsSealed.writeCode (h : r.IsSealed) (request : CodeRequest) :
    (r.writeCode context request).IsSealed := by
  have hactions : ∀ actions : List CodeAction, (∀ action ∈ actions, ∀ t ∈ action.unescaped,
      IsValue t) → ∀ p : Page, p.IsSealed → (actions.foldl Rendering.writeAction p).IsSealed := by
    intro actions hactions p hp
    induction actions generalizing p with
    | nil => exact hp
    | cons action actions ih =>
        obtain ⟨haction, hrest⟩ := List.forall_mem_cons.1 hactions
        exact ih hrest _ (IsSealed.writeAction haction hp)
  exact hactions _ (htools.code request) _ h

theorem IsSealed.writeDiagram (h : r.IsSealed) (kind : DiagramKind) {name : Text}
    (hname : IsValue name) (input : DiagramInput) {relPath : Text} (hrelPath : IsValue relPath) :
    (r.writeDiagram context kind name input relPath).IsSealed := by
  unfold Rendering.writeDiagram
  dsimp only
  split
  · exact h
  · next imageFile himage =>
    have hfile : IsValue (relPath ++ imageFile) :=
      isValue_append.2 ⟨hrelPath, htools.images _ _ himage⟩
    have hobject : AreAttributes (units " type=\"image/svg+xml\" data=\"" ++ relPath ++ imageFile ++
        units "\"") := by
      have htype : AreAttributes (units " type=\"image/svg+xml\"") :=
        areAttributes_whole "type" "image/svg+xml" (by decide) (by decide) (by decide)
      have hsplit : units " type=\"image/svg+xml\" data=\"" =
          units " type=\"image/svg+xml\"" ++ units " data=\"" := by decide
      rw [hsplit, List.append_assoc (_ ++ _) relPath]
      exact htype.snoc "data" (units " data=\"") (by decide) (by decide) hfile
    have hpicture : AreAttributes (units " src=\"" ++ relPath ++ imageFile ++ units "\" alt=\"" ++
        name ++ units "\"") := by
      have hsource : AreAttributes (units " src=\"" ++ (relPath ++ imageFile) ++ units "\"") :=
        areAttributes_named "src" _ (by decide) (by decide) hfile
      have hsplit : units "\" alt=\"" = units "\"" ++ units " alt=\"" := by decide
      have hnamed := hsource.snoc "alt" (units " alt=\"") (by decide) (by decide) hname
      rw [hsplit]
      simpa only [List.append_assoc] using hnamed
    rw [sealed_ite, sealed_layout (by decide), sealed_closing (isElementName (by decide)),
      sealed_opening (isElementName (by decide)) hobject, sealed_layout (by decide),
      sealed_single (isElementName (by decide)) hpicture, ite_self]
    exact h

theorem IsSealed.codeFragment (h : r.IsSealed) (request : CodeRequest) :
    (r.codeFragment context request).IsSealed := by
  have hstarted : (r.onPage (·.startCodeFragment)).IsSealed := Page.sealed_startCodeFragment.2 h
  exact Page.sealed_endCodeFragment.2 (hstarted.writeCode htools request)

theorem IsSealed.inlineDiagram (h : r.IsSealed) (kind : DiagramKind) {series className : String}
    (hseries : IsValue (units series)) (hclass : IsValue (units className)) (source : Text) :
    (r.inlineDiagram context way kind series className source).IsSealed := by
  have hname (counts : DiagramCounts) : IsValue (counts.next (units series)).1 :=
    isValue_append.2 ⟨hseries, isValue_unitsOfNat _⟩
  have hwritten (r : Rendering) (h : r.IsSealed) (counts : DiagramCounts) {name : Text}
      (hname : IsValue name) :
      ({ r with diagramCounts := counts }.writeDiagram context kind name (.source source)
        []).IsSealed :=
    IsSealed.writeDiagram htools ((sealed_diagramCounts counts).2 h) kind hname _ isValue_nil
  unfold Rendering.inlineDiagram
  rw [sealed_block]
  dsimp only
  rw [sealed_layout (by decide), sealed_closing (isElementName (by decide))]
  refine hwritten _ ?_ _ (hname _)
  rw [sealed_layout (by decide), sealed_opening (isElementName (by decide))
    (areAttributes_class hclass), sealed_closeParagraph]
  exact h

end Tools

/-! ### Leaves -/

theorem IsSealed.startLink (h : r.IsSealed) {target : Page.LinkTarget} (htarget : target.AreValues)
    (htooltip : TagFree target.tooltip) : (r.onPage (·.startLink target)).IsSealed :=
  Page.IsSealed.startLink h htarget htooltip

theorem sealed_fragment (t : Text) : (r.fragment t).IsSealed ↔ r.IsSealed := by
  have hclass : AreAttributes (units " class=\"fragment\"") :=
    areAttributes_whole "class" "fragment" (by decide) (by decide) (by decide)
  rw [fragment, sealed_closing (isElementName (by decide)), sealed_text,
    sealed_opening (isElementName (by decide)) hclass]

theorem sealed_formulaBody {f : Formula} (hname : IsValue f.name) (hrelPath : IsValue f.relPath) :
    (r.formulaBody context f).IsSealed ↔ r.IsSealed := by
  unfold formulaBody
  split
  · split
    · refine sealed_escaped ?_
      simp [(by decide : TagFree (units "\\(")), (by decide : TagFree (units "\\)"))]
    · exact sealed_escaped (tagFree_escapePage _)
  · refine sealed_single (isElementName (by decide)) ?_
    have hclass : AreAttributes
        (units (" class=\"" ++ (if f.isInline then "formulaInl" else "formulaDsp") ++ "\"")) := by
      refine areAttributes_class ?_
      split <;> decide
    have halt := hclass.snoc "alt" (units " alt=\"") (by decide) (by decide)
      (isValue_escapeQuoted f.text)
    have hfile : IsValue (f.relPath ++ f.name ++ units ".png") := by
      simp [hrelPath, hname, (by decide : IsValue (units ".png"))]
    have hwhole := halt.snoc "src" (units " src=\"") (by decide) (by decide) hfile
    have hends : units "\" src=\"" = units "\"" ++ units " src=\"" ∧
        units ".png\"" = units ".png" ++ units "\"" ∧
        units "\" alt=\"" = units "\"" ++ units " alt=\"" := by decide
    simpa [units_append, hends] using hwhole

theorem sealed_formula {f : Formula} (hname : IsValue f.name) (hrelPath : IsValue f.relPath) :
    (r.formula context way f).IsSealed ↔ r.IsSealed := by
  unfold formula
  split
  · exact sealed_formulaBody hname hrelPath
  · have hclass : AreAttributes (units " class=\"formulaDsp\"") :=
      areAttributes_whole "class" "formulaDsp" (by decide) (by decide) (by decide)
    rw [sealed_block]
    dsimp only
    rw [sealed_layout (by decide), sealed_closing (isElementName (by decide)),
      sealed_layout (by decide), sealed_formulaBody hname hrelPath, sealed_layout (by decide),
      sealed_opening (isElementName (by decide)) hclass, sealed_closeParagraph]

theorem sealed_indexEntry {e : IndexEntry} (hanchor : IsValue e.memberAnchor) :
    (r.indexEntry e).IsSealed ↔ r.IsSealed := by
  unfold indexEntry
  refine (Page.sealed_addIndexItem _).trans (Page.sealed_writeNamedAnchor ?_)
  split
  · exact isValue_indexAnchor _
  · simp [hanchor, isValue_indexAnchor, (by decide : IsValue (units "_"))]

theorem isElementName_style (style : Style) : IsElementName (units style.tag) := by
  cases style <;> exact isElementName (by decide)

theorem sealed_styleChange {change : StyleChange}
    (h : (Content.styleChange change).IsSealed) :
    (r.styleChange way change).IsSealed ↔ r.IsSealed := by
  have htag := isElementName_style change.style
  unfold styleChange
  dsimp only
  split
  · next henable =>
    have hattributes : AreAttributes (writeAttributes change.attributes) := by
      refine areAttributes_writeAttributes ?_
      simpa [Content.attributes, henable] using h.names
    simp [htag, hattributes]
  · simp [htag]

section Leaf

variable (htools : context.tools.AreSealed)
include htools

theorem IsSealed.verbatim (h : r.IsSealed) {v : Verbatim} (hv : (Content.verbatim v).IsSealed) :
    (r.verbatim context way v).IsSealed := by
  have hclosed : (r.closeParagraph way).IsSealed := sealed_closeParagraph.2 h
  unfold Rendering.verbatim
  split
  case h_1 => exact (sealed_block _).2 (hclosed.codeFragment htools _)
  case h_2 => exact (sealed_block _).2 ((sealed_fragment _).2 hclosed)
  case h_3 htype =>
    have hraw : TagFree v.text := (hv.values v.text (by simp [Content.unescaped, htype])).tagFree
    split
    · exact (sealed_block _).2 ((sealed_raw hraw).2 hclosed)
    · exact (sealed_raw hraw).2 h
  case h_9 | h_10 | h_11 => exact h.inlineDiagram htools _ (by decide) (by decide) _
  all_goals exact h

theorem IsSealed.inclusion (h : r.IsSealed) {i : Inclusion} (hi : (Content.inclusion i).IsSealed) :
    (r.inclusion context way i).IsSealed := by
  have hclosed : (r.closeParagraph way).IsSealed := sealed_closeParagraph.2 h
  unfold Rendering.inclusion
  dsimp only
  split
  case h_4 | h_5 => exact h
  case h_6 htype =>
    exact (sealed_raw (hi.values i.text (by simp [Content.unescaped, htype])).tagFree).2 h
  case h_7 => exact (sealed_block _).2 ((sealed_fragment _).2 hclosed)
  all_goals exact (sealed_block _).2 (hclosed.codeFragment htools _)

theorem IsSealed.includeStep (h : r.IsSealed) (step : IncludeStep) :
    (r.includeStep context step).IsSealed := by
  have hstarted : (if step.isFirst then (r.onPage (·.startCodeFragment)).onPage (·.hide)
      else r).IsSealed := by
    split
    · exact Page.sealed_hide.2 (Page.sealed_startCodeFragment.2 h)
    · exact h
  unfold Rendering.includeStep
  dsimp only
  generalize (if step.isFirst then (r.onPage (·.startCodeFragment)).onPage (·.hide) else r) = started
    at hstarted ⊢
  have hshown : (if step.operator == .skip then started
      else
        (if (started.onPage (·.unhide)).page.hidden then started.onPage (·.unhide)
        else (started.onPage (·.unhide)).writeCode context
          { language := context.language, code := step.text, origin := step.origin
            showLineNumbers := false }).onPage (·.hide)).IsSealed := by
    have hunhidden : (started.onPage (·.unhide)).IsSealed := Page.sealed_unhide.2 hstarted
    split
    · exact hstarted
    · refine Page.sealed_hide.2 ?_
      split
      · exact hunhidden
      · exact hunhidden.writeCode htools _
  rw [sealed_ite]
  split
  · exact Page.sealed_endCodeFragment.2 (Page.sealed_unhide.2 hshown)
  · exact (sealed_layout (by decide)).2 hshown

theorem IsSealed.shownLeaf (h : r.IsSealed) {content : Content} (hcontent : content.IsSealed) :
    (r.shownLeaf context way content).IsSealed := by
  cases content with
  | word word => exact (sealed_text word).2 h
  | linkedWord l =>
      have htarget : Page.LinkTarget.AreValues
          { ref := l.ref, file := l.file, relPath := l.relPath, anchor := l.anchor
            tooltip := l.tooltip } := by
        constructor <;> exact hcontent.values _ (by simp [Content.unescaped])
      have htooltip := (hcontent.values l.tooltip (by simp [Content.unescaped])).tagFree
      exact Page.sealed_endLink.2 ((sealed_text _).2 (h.startLink htarget htooltip))
  | whiteSpace written =>
      refine (sealed_escaped ?_).2 h
      split
      · exact (hcontent.values written (by simp [Content.unescaped])).tagFree
      · decide
  | symbol name =>
      unfold Rendering.shownLeaf
      dsimp only
      split
      next symbol hfound => exact (sealed_escaped (tagFree_markup hfound)).2 h
      next => exact h
  | url address isEmail =>
      have haddress : IsValue
          (if isEmail then escapeAttribute (units "mailto:" ++ address) else address) := by
        split
        next => exact isValue_escapeAttribute _
        next hother => exact hcontent.values address (by simp [Content.unescaped, hother])
      have hattributes := areAttributes_named "href" (units " href=\"") (by decide)
        (by decide) haddress
      unfold Rendering.shownLeaf
      dsimp only
      rw [sealed_closing (isElementName (by decide)), sealed_text,
        sealed_opening (isElementName (by decide)) hattributes]
      exact h
  | lineBreak => exact Page.sealed_lineBreak.2 h
  | ruler => exact (sealed_block _).2 (Page.sealed_writeRuler.2 (sealed_closeParagraph.2 h))
  | anchor name file =>
      exact (Page.sealed_writeAnchor (hcontent.values name (by simp [Content.unescaped]))).2 h
  | styleChange change => exact (sealed_styleChange hcontent).2 h
  | verbatim v => exact h.verbatim htools hcontent
  | inclusion i => exact h.inclusion htools hcontent
  | includeStep step => exact h.includeStep htools step
  | formula f =>
      refine (sealed_formula (hcontent.values f.name ?_) (hcontent.values f.relPath ?_)).2 h <;>
        simp [Content.unescaped]
  | indexEntry e =>
      exact (sealed_indexEntry (hcontent.values e.memberAnchor (by simp [Content.unescaped]))).2 h
  | separator =>
      have hdescription : IsElementName (units "dd") := isElementName (by decide)
      unfold Rendering.shownLeaf
      dsimp only
      rw [sealed_layout (by decide), sealed_opening hdescription .nil, sealed_layout (by decide),
        sealed_closing hdescription]
      exact h
  | citation c =>
      unfold Rendering.shownLeaf
      dsimp only
      split
      next =>
        have hbold : IsElementName (units "b") := isElementName (by decide)
        rw [sealed_closing hbold, sealed_layout (by decide), sealed_text, sealed_layout (by decide),
          sealed_opening hbold .nil]
        exact h
      next hfile =>
        have htarget : Page.LinkTarget.AreValues
            { ref := c.ref, file := c.file, relPath := c.relPath, anchor := c.anchor } := by
          constructor <;> exact hcontent.values _ (by simp [Content.unescaped, hfile])
        exact Page.sealed_endLink.2 ((sealed_text _).2 (h.startLink htarget tagFree_nil))
  | _ => exact h

theorem IsSealed.leaf (h : r.IsSealed) {content : Content} (hcontent : content.IsSealed) :
    (r.leaf context way content).IsSealed := by
  unfold Rendering.leaf
  split
  · exact h
  · exact h.shownLeaf htools hcontent

end Leaf

/-! ### Composite nodes -/

theorem IsSealed.xrefItemStart (h : r.IsSealed) {x : XRefItem}
    (hextension : IsValue context.settings.fileExtension) (hx : (Content.xrefItem x).IsSealed)
    (htitle : x.title.isEmpty = false) : (r.xrefItemStart context x).IsSealed := by
  have hvalue {t : Text} (ht : t ∈ [x.key, x.file, x.relPath, x.anchor]) : IsValue t :=
    hx.values t (by simpa [Content.unescaped, htitle] using ht)
  have hkey : AreAttributes (units " class=\"" ++ x.key ++ units "\"") :=
    areAttributes_named "class" _ (by decide) (by decide) (hvalue (by simp))
  have haddress : IsValue (x.relPath ++ x.file ++ context.settings.fileExtension ++ units "#" ++
      x.anchor) := by
    simp [hvalue, hextension, (by decide : IsValue (units "#"))]
  have hlink : AreAttributes (units " class=\"el\" href=\"" ++ x.relPath ++ x.file ++
      context.settings.fileExtension ++ units "#" ++ x.anchor ++ units "\"") := by
    have hclass : AreAttributes (units " class=\"el\"") :=
      areAttributes_whole "class" "el" (by decide) (by decide) (by decide)
    have hsplit : units " class=\"el\" href=\"" = units " class=\"el\"" ++ units " href=\"" := by
      decide
    have hwhole := hclass.snoc "href" (units " href=\"") (by decide) (by decide) haddress
    rw [hsplit]
    simpa only [List.append_assoc] using hwhole
  have htags : IsElementName (units "dl") ∧ IsElementName (units "dt") ∧ IsElementName (units "b") ∧
      IsElementName (units "a") ∧ IsElementName (units "dd") :=
    ⟨isElementName (by decide), isElementName (by decide), isElementName (by decide),
      isElementName (by decide), isElementName (by decide)⟩
  unfold Rendering.xrefItemStart
  dsimp only
  split
  all_goals
    simpa [htags, hkey, hlink, AreAttributes.nil, (by decide : TagFree (units ":")),
      -List.append_assoc] using h

/-- A size that is written if there is one. -/
theorem areAttributes_size (key : String) (hkey : IsAttributeName (units key)) {value : Text}
    (hvalue : IsValue value) : AreAttributes
      (if value.isEmpty then [] else units (" " ++ key ++ "=\"") ++ value ++ units "\"") := by
  split
  · exact .nil
  · refine areAttributes_named key _ ?_ hkey hvalue
    rw [units_append, units_append]

/-- The name of a picture is what follows its last slash, of either kind. -/
theorem isValue_shownName {name : Text} (hname : IsValue name) :
    IsValue (Path.baseName (name.map fun u => if u == unit '\\' then unit '/' else u)) := by
  refine Path.isValue_baseName ⟨?_, ?_⟩
  · intro u hu
    obtain ⟨v, hv, rfl⟩ := List.mem_map.1 hu
    split
    · decide
    · exact hname.tagFree v hv
  · intro hquote
    obtain ⟨v, hv, hsame⟩ := List.mem_map.1 hquote
    split at hsame
    · exact absurd hsame (by decide)
    · exact hname.unquoted (hsame ▸ hv)

/-- A drawing is an object with its name inside. -/
theorem IsSealed.drawing (h : r.IsSealed) {source shown more : Text} (hsource : IsValue source)
    (hshown : TagFree shown) (hmore : AreAttributes more) :
    ((((r.opening "object" (units " type=\"image/svg+xml\" data=\"" ++ source ++ units "\"" ++
      more)).piece (.text shown)).closing "object").layout "\n").IsSealed := by
  have hobject : IsElementName (units "object") := isElementName (by decide)
  have hsplit : units " type=\"image/svg+xml\" data=\"" =
      units " type=\"image/svg+xml\"" ++ units " data=\"" := by decide
  have hattributes : AreAttributes (units " type=\"image/svg+xml\" data=\"" ++ source ++
      units "\"" ++ more) := by
    rw [hsplit]
    exact ((areAttributes_whole "type" "image/svg+xml" (by decide) (by decide)
      (by decide)).snoc "data" _ (by decide) (by decide) hsource).append hmore
  rw [sealed_layout (by decide), sealed_closing hobject, sealed_escaped hshown,
    sealed_opening hobject hattributes]
  exact h

theorem IsSealed.imageTag (h : r.IsSealed) {i : Image} (htype : i.type = .html)
    (hi : (Content.image i).IsSealed) : (r.imageTag i).IsSealed := by
  have hvalue {t : Text} (ht : t ∈ [i.name, i.url, i.relPath, i.width, i.height]) : IsValue t :=
    hi.values t (by
      simp only [Content.unescaped, htype, if_true]
      exact List.mem_append_left _ ht)
  have hnames : ∀ name ∈ writtenNames i.attributes, IsAttributeName name := by
    simpa [Content.attributes, htype] using hi.names
  have hshown := isValue_shownName (hvalue (t := i.name) (by simp))
  have haddress : IsValue (Path.relativeTo i.relPath i.url) :=
    Path.isValue_relativeTo (hvalue (by simp)) (hvalue (by simp))
  have hmore : AreAttributes
      ((if i.width.isEmpty then [] else units (" " ++ "width" ++ "=\"") ++ i.width ++ units "\"") ++
        (if i.height.isEmpty then [] else units (" " ++ "height" ++ "=\"") ++ i.height ++
          units "\"") ++ writeAttributes i.attributes) :=
    ((areAttributes_size "width" (by decide) (hvalue (by simp))).append
      (areAttributes_size "height" (by decide) (hvalue (by simp)))).append
        (areAttributes_writeAttributes hnames)
  unfold Rendering.imageTag
  dsimp only
  generalize (if i.width.isEmpty then [] else _) ++ _ ++ writeAttributes i.attributes = more
    at hmore ⊢
  generalize Path.baseName _ = name at hshown ⊢
  generalize Path.relativeTo _ _ = address at haddress ⊢
  have hlocal : IsValue (i.relPath ++ i.name) :=
    isValue_append.2 ⟨hvalue (by simp), hvalue (by simp)⟩
  -- a drawing is an object and a picture an image, from either address
  have hpicture (source : Text) (hsource : IsValue source) :
      AreAttributes (units " src=\"" ++ source ++ units "\"") :=
    areAttributes_named "src" _ (by decide) (by decide) hsource
  have himage (attributes : Text) (hattributes : AreAttributes attributes) :
      ((r.piece (.single "img" attributes)).layout "\n").IsSealed := by
    rw [sealed_layout (by decide), sealed_single (isElementName (by decide)) hattributes]
    exact h
  split
  · split
    · exact h.drawing hlocal hshown.tagFree hmore
    · refine himage _ ?_
      have hsplit : units "\" alt=\"" = units "\"" ++ units " alt=\"" := by decide
      have hnamed := ((hpicture _ hlocal).snoc "alt" (units " alt=\"") (by decide)
        (by decide) hshown).append hmore
      rw [hsplit]
      simpa only [List.append_assoc] using hnamed
  · split
    · exact h.drawing haddress tagFree_nil hmore
    · exact himage _ ((hpicture _ haddress).append hmore)

theorem sealed_captionStart (hasCaption : Bool) :
    (r.captionStart hasCaption).IsSealed ↔ r.IsSealed := by
  have hclass : AreAttributes (units " class=\"caption\"") :=
    areAttributes_whole "class" "caption" (by decide) (by decide) (by decide)
  rw [captionStart, sealed_ite, sealed_layout (by decide),
    sealed_opening (isElementName (by decide)) hclass, ite_self]

section Branch

variable (htools : context.tools.AreSealed)
include htools

theorem IsSealed.diagramStart (h : r.IsSealed) {d : DiagramFile}
    (hd : (Content.diagramFile d).IsSealed) : (r.diagramStart context d).IsSealed := by
  have hname : IsValue (Path.stem d.file) := hd.values _ (by simp [Content.unescaped])
  have hrelPath : IsValue d.relPath := hd.values d.relPath (by simp [Content.unescaped])
  have hdrawing : IsValue (units d.type.drawing.2.1) ∧ IsValue (units d.type.drawing.2.2) := by
    cases d.type <;> decide
  have hopened : ((r.opening "div" (units (" class=\"" ++ d.type.drawing.2.2 ++ "\""))).layout
      "\n").IsSealed := by
    rw [sealed_layout (by decide), sealed_opening (isElementName (by decide))
      (areAttributes_class hdrawing.2)]
    exact h
  unfold Rendering.diagramStart
  dsimp only
  split
  · exact hopened
  · exact hopened.writeDiagram htools _ (isValue_append.2 ⟨hdrawing.1, hname⟩) _ hrelPath

theorem IsSealed.simpleSectionStart (h : r.IsSealed) (type : SimpleSectionType)
    (hasTitle : Bool) : (r.simpleSectionStart context type hasTitle).IsSealed := by
  have hclass : AreAttributes (units (" class=\"section " ++ type.className ++ "\"")) := by
    have hsplit : units " class=\"section " = units " class=\"" ++ units "section " := by decide
    have hvalue : IsValue (units "section " ++ units type.className) := by
      refine isValue_append.2 ⟨by decide, ?_⟩
      cases type <;> decide
    rw [units_append, units_append, hsplit, List.append_assoc (units " class=\"")]
    exact areAttributes_named "class" _ (by decide) (by decide) hvalue
  have htags : IsElementName (units "dl") ∧ IsElementName (units "dt") ∧
      IsElementName (units "dd") :=
    ⟨isElementName (by decide), isElementName (by decide), isElementName (by decide)⟩
  have hopened : ((r.opening "dl" (units (" class=\"section " ++ type.className ++ "\""))).opening
      "dt" []).IsSealed := by
    simpa [htags, hclass, AreAttributes.nil] using h
  have hlabelled (label : Label) : (((r.opening "dl" (units (" class=\"section " ++
      type.className ++ "\""))).opening "dt" []).piece
        (.raw (context.tools.translate label))).IsSealed :=
    (sealed_raw (htools.labels label)).2 hopened
  have hclosed {s : Rendering} (hs : s.IsSealed) :
      ((s.closing "dt").opening "dd" []).IsSealed := by
    rwa [sealed_opening htags.2.2 .nil, sealed_closing htags.2.1]
  unfold Rendering.simpleSectionStart
  dsimp only
  cases Label.ofSimpleSection? type with
  | none =>
      dsimp only
      split
      · exact hopened
      · exact hclosed hopened
  | some label =>
      dsimp only
      split
      · exact hlabelled label
      · exact hclosed (hlabelled label)

theorem IsSealed.paramSectionStart (h : r.IsSealed) (type : ParamSectionType) :
    (r.paramSectionStart context type).IsSealed := by
  have hclass : AreAttributes (units (" class=\"" ++ type.className ++ "\"")) := by
    refine areAttributes_class ?_
    cases type <;> decide
  have htags : IsElementName (units "dl") ∧ IsElementName (units "dt") ∧
      IsElementName (units "dd") ∧ IsElementName (units "table") :=
    ⟨isElementName (by decide), isElementName (by decide), isElementName (by decide),
      isElementName (by decide)⟩
  have hlabel := htools.labels (Label.ofParamSection type)
  unfold Rendering.paramSectionStart
  dsimp only
  rw [sealed_layout (by decide), sealed_opening htags.2.2.2 hclass, sealed_layout (by decide),
    sealed_opening htags.2.2.1 .nil, sealed_closing htags.2.1, sealed_raw hlabel,
    sealed_opening htags.2.1 .nil, sealed_opening htags.1 hclass]
  exact h

theorem IsSealed.nameCell (h : r.IsSealed) {className separator : String}
    (hclass : IsValue (units className)) (hseparator : TagFree (units separator))
    {names : List Node} (hnames : ∀ name ∈ names, name.content.IsSealed) :
    (r.nameCell context way className separator names).IsSealed := by
  have hcell : IsElementName (units "td") := isElementName (by decide)
  unfold Rendering.nameCell
  refine (sealed_closing hcell).2
    (List.foldlRecOn (motive := fun r : Rendering => r.IsSealed) _ _ ?_ ?_)
  · exact (sealed_opening hcell (areAttributes_class hclass)).2 h
  · rintro r h ⟨name, index⟩ hmem
    have hname := hnames name (List.fst_mem_of_mem_zipIdx hmem)
    refine IsSealed.leaf htools ?_ hname
    simpa [hseparator] using h

theorem IsSealed.paramListStart (h : r.IsSealed) (list : ParamList) {types names : List Node}
    (htypes : ∀ type ∈ types, type.content.IsSealed)
    (hnames : ∀ name ∈ names, name.content.IsSealed) :
    (r.paramListStart context way list types names).IsSealed := by
  have hdirection : TagFree (units list.direction.label) := by
    cases list.direction <;> decide
  have hclass : AreAttributes (units " class=\"paramdir\"") :=
    areAttributes_whole "class" "paramdir" (by decide) (by decide) (by decide)
  have htags : IsElementName (units "tr") ∧ IsElementName (units "td") :=
    ⟨isElementName (by decide), isElementName (by decide)⟩
  have hspace : TagFree (units "    ") := by decide
  unfold Rendering.paramListStart
  refine (sealed_opening htags.2 .nil).2 ?_
  refine IsSealed.nameCell htools ?_ (by decide) (by decide) hnames
  split
  all_goals
    split
    · refine IsSealed.nameCell htools ?_ (by decide) (by decide) htypes
      simpa [htags, hclass, hdirection, hspace, AreAttributes.nil] using h
    · simpa [htags, hclass, hdirection, hspace, AreAttributes.nil] using h

end Branch

/-! ### In front of the nodes below -/

/-- The tags of lists, tables and the other composite nodes. -/
def compositeTags : List String :=
  ["ol", "ul", "li", "div", "a", "dl", "dt", "dd", "tr", "td", "th", "caption", "table",
    "blockquote"]

theorem isElementName_composite {tag : String} (h : tag ∈ compositeTags) :
    IsElementName (units tag) := by
  have hall : ∀ tag ∈ compositeTags, tag ∈ elements ++ otherElements := by decide
  exact isElementName (hall tag h)

theorem isElementName_list (type : ListType) : IsElementName (units type.tag) := by
  cases type <;> exact isElementName_composite (by decide)

theorem isElementName_cell (isHeading : Bool) :
    IsElementName (units (if isHeading then "th" else "td")) := by
  split <;> exact isElementName_composite (by decide)

theorem areAttributes_edge (edge : EdgeClass) : AreAttributes (units edge.attributes) := by
  have hedge {written : Text} (className : String)
      (hwritten : written = units " " ++ units "class" ++ units "=\"" ++ units className ++ units "\"")
      (hclass : IsValue (units className)) : AreAttributes written :=
    areAttributes_whole "class" className hwritten (by decide) hclass
  cases edge with
  | none => exact .nil
  | startItem => exact hedge "startli" (by decide) (by decide)
  | startDesc => exact hedge "startdd" (by decide) (by decide)
  | endItem => exact hedge "endli" (by decide) (by decide)
  | endDesc => exact hedge "enddd" (by decide) (by decide)
  | startCell => exact hedge "starttd" (by decide) (by decide)
  | endCell => exact hedge "endtd" (by decide) (by decide)

variable {n : Node}

theorem IsSealed.enterAutoList (h : r.IsSealed) {list : AutoList}
    (hcontent : n.content = .autoList list) : (r.enter context way n).IsSealed := by
  have htype : AreAttributes (units (" type=\"" ++ list.numbering ++ "\"")) := by
    rw [units_append, units_append]
    refine areAttributes_named "type" _ (by decide) (by decide) ?_
    unfold AutoList.numbering
    split <;> decide
  unfold Rendering.enter
  rw [hcontent]
  dsimp only
  rw [sealed_breakUnless, sealed_ite, sealed_opening (isElementName_composite (by decide)) htype,
    sealed_opening (isElementName_composite (by decide)) .nil, ite_self, sealed_closeParagraph]
  exact h

theorem IsSealed.enterImage (h : r.IsSealed) {i : Image} (hcontent : n.content = .image i)
    (hsealed : n.content.IsSealed) : (r.enter context way n).IsSealed := by
  have hclass : AreAttributes (units " class=\"image\"") :=
    areAttributes_whole "class" "image" (by decide) (by decide) (by decide)
  have hopened : (((r.closeParagraph way).opening "div" (units " class=\"image\"")).layout
      "\n").IsSealed := by
    rw [sealed_layout (by decide), sealed_opening (isElementName_composite (by decide)) hclass,
      sealed_closeParagraph]
    exact h
  rw [hcontent] at hsealed
  unfold Rendering.enter
  rw [hcontent]
  dsimp only
  split
  · exact Page.sealed_hide.2 h
  · next htype =>
    rw [sealed_captionStart]
    exact hopened.imageTag (by simpa using htype) hsealed

theorem IsSealed.enterHyperlink (h : r.IsSealed) {l : Hyperlink}
    (hcontent : n.content = .hyperlink l) (hsealed : n.content.IsSealed) :
    (r.enter context way n).IsSealed := by
  rw [hcontent] at hsealed
  unfold Rendering.enter
  rw [hcontent]
  refine (sealed_opening (isElementName_composite (by decide)) (AreAttributes.append ?_ ?_)).2 h
  · exact areAttributes_named "href" _ (by decide) (by decide) (isValue_escapeAttribute _)
  · exact areAttributes_writeAttributes hsealed.names

theorem IsSealed.enterReference (h : r.IsSealed) {l : Reference}
    (hcontent : n.content = .reference l) (hsealed : n.content.IsSealed) :
    (r.enter context way n).IsSealed := by
  rw [hcontent] at hsealed
  have hlinked : (if l.file.isEmpty then r
      else r.onPage (·.startLink
        { ref := l.ref, file := l.file, relPath := l.relPath
          anchor := if l.isSubPage then [] else l.anchor })).IsSealed := by
    split
    next => exact h
    next hfile =>
        refine h.startLink ?_ tagFree_nil
        constructor
        case anchor =>
          dsimp only
          split
          · exact isValue_nil
          · exact hsealed.values l.anchor (by simp [Content.unescaped, hfile])
        all_goals exact hsealed.values _ (by simp [Content.unescaped, hfile])
  unfold Rendering.enter
  rw [hcontent]
  dsimp only
  split
  · exact (sealed_text _).2 hlinked
  · exact hlinked

theorem IsSealed.enterRefItem (h : r.IsSealed) {i : RefItem}
    (hextension : IsValue context.settings.fileExtension) (hcontent : n.content = .refItem i)
    (hsealed : n.content.IsSealed) : (r.enter context way n).IsSealed := by
  rw [hcontent] at hsealed
  have hvalue {t : Text} (ht : t ∈ [i.file, i.relPath, i.anchor]) : IsValue t := hsealed.values t ht
  have hpage : IsValue (if Text.endsWith context.settings.fileExtension i.file then i.file
      else i.file ++ context.settings.fileExtension) := by
    split
    · exact hvalue (by simp)
    · exact isValue_append.2 ⟨hvalue (by simp), hextension⟩
  unfold Rendering.enter
  rw [hcontent]
  dsimp only
  generalize (if Text.endsWith context.settings.fileExtension i.file then i.file
      else i.file ++ context.settings.fileExtension) = file at hpage ⊢
  have haddress : IsValue (i.relPath ++ file ++ units "#" ++ i.anchor) := by
    simp [hvalue, hpage, (by decide : IsValue (units "#"))]
  have hattributes : AreAttributes (units " href=\"" ++ i.relPath ++ file ++ units "#" ++
      i.anchor ++ units "\"") := by
    have hwhole := areAttributes_named "href" (units " href=\"") (by decide) (by decide)
      haddress
    simpa only [List.append_assoc] using hwhole
  rw [sealed_opening (isElementName_composite (by decide)) hattributes,
    sealed_opening (isElementName_composite (by decide)) .nil]
  exact h

/-- What is written in front of the nodes below a node. -/
theorem IsSealed.enter (htools : context.tools.AreSealed)
    (hextension : IsValue context.settings.fileExtension) (h : r.IsSealed)
    (hn : n.Everywhere (·.content.IsSealed)) : (r.enter context way n).IsSealed := by
  have hsealed := hn.here
  have hclosed : (r.closeParagraph way).IsSealed := sealed_closeParagraph.2 h
  have hline {s : Rendering} (hs : s.IsSealed) : (s.layout "\n").IsSealed :=
    (sealed_layout (by decide)).2 hs
  have htag {s : Rendering} (hs : s.IsSealed) {tag : String} {attributes : Attributes}
      (htag : IsElementName (units tag))
      (hnames : ∀ name ∈ writtenNames attributes, IsAttributeName name) :
      (s.tagged tag attributes).IsSealed :=
    (sealed_tagged htag hnames).2 hs
  cases hcontent : n.content
  case autoList list => exact h.enterAutoList hcontent
  case image i => exact h.enterImage hcontent hsealed
  case hyperlink l => exact h.enterHyperlink hcontent hsealed
  case reference l => exact h.enterReference hcontent hsealed
  case refItem i => exact h.enterRefItem hextension hcontent hsealed
  all_goals
    rw [hcontent] at hsealed
    unfold Rendering.enter
    rw [hcontent]
    dsimp only
    try exact h
  case internal =>
    split
    · exact h
    · exact Page.sealed_hide.2 h
  case paragraph paragraph =>
    split
    · exact (Page.sealed_startParagraph (areAttributes_edge _)).2 h
    · exact h
  case autoListItem i => exact (sealed_opening (isElementName_composite (by decide)) .nil).2 h
  case simpleListItem => exact (sealed_opening (isElementName_composite (by decide)) .nil).2 h
  case xrefItem x =>
    split
    · exact h
    · next htitle => exact hclosed.xrefItemStart hextension hsealed (by simpa using htitle)
  case diagramFile d => exact (sealed_captionStart _).2 (hclosed.diagramStart htools hsealed)
  case link l =>
    have htarget : Page.LinkTarget.AreValues
        { ref := l.ref, file := l.file, relPath := l.relPath, anchor := l.anchor
          tooltip := l.tooltip } := by
      constructor <;> exact hsealed.values _ (by simp [Content.unescaped])
    exact h.startLink htarget (hsealed.values l.tooltip (by simp [Content.unescaped])).tagFree
  case internalReference l =>
    refine h.startLink ?_ tagFree_nil
    constructor
    case ref => exact isValue_nil
    all_goals exact hsealed.values _ (by simp [Content.unescaped])
  case list l => exact hline (htag hclosed (isElementName_list l.type) hsealed.names)
  case listItem i =>
    exact (sealed_breakUnless _).2 (htag h (isElementName_composite (by decide)) hsealed.names)
  case descList attributes =>
    exact hline (htag hclosed (isElementName_composite (by decide)) hsealed.names)
  case descTitle attributes => exact htag h (isElementName_composite (by decide)) hsealed.names
  case descData attributes => exact htag h (isElementName_composite (by decide)) hsealed.names
  case table t =>
    refine hline ((sealed_taggedOr (isElementName_composite (by decide)) (by decide) ?_).2 hclosed)
    exact hsealed.names
  case row t => exact hline (htag h (isElementName_composite (by decide)) hsealed.names)
  case cell c => exact htag h (isElementName_cell c.isHeading) hsealed.names
  case caption attributes => exact htag h (isElementName_composite (by decide)) hsealed.names
  case blockQuote attributes =>
    refine hline ((sealed_taggedOr (isElementName_composite (by decide)) (by decide) ?_).2 hclosed)
    exact hsealed.names
  case header header => exact htag hclosed (isElementName_headingTag header.level) hsealed.names
  case sect s =>
    refine (Page.sealed_endSection _).2 ((sealed_text _).2 ?_)
    exact (Page.sealed_startSection (hsealed.values s.anchor (by simp [Content.unescaped])) _).2
      hclosed
  case refList =>
    have hclass : AreAttributes (units " class=\"multicol\"") :=
      areAttributes_whole "class" "multicol" (by decide) (by decide) (by decide)
    refine hline ((sealed_opening (isElementName_composite (by decide)) .nil).2 (hline ?_))
    exact (sealed_opening (isElementName_composite (by decide)) hclass).2 hclosed
  case simpleList =>
    refine (sealed_breakUnless _).2 ?_
    exact (sealed_opening (isElementName_composite (by decide)) .nil).2 hclosed
  case simpleSection type => exact hclosed.simpleSectionStart htools type _
  case paramSection s => exact hclosed.paramSectionStart htools s.type
  case paramList list =>
    exact h.paramListStart htools list (fun type htype => (hn.type htype).here)
      fun name hname => (hn.head hname).here

/-- What is written behind the nodes below a node. -/
theorem IsSealed.leave (h : r.IsSealed) : (r.leave context way n).IsSealed := by
  have hline {s : Rendering} (hs : s.IsSealed) : (s.layout "\n").IsSealed :=
    (sealed_layout (by decide)).2 hs
  have hclosed {s : Rendering} (hs : s.IsSealed) {tag : String} (htag : tag ∈ compositeTags) :
      (s.closing tag).IsSealed :=
    (sealed_closing (isElementName_composite htag)).2 hs
  unfold Rendering.leave
  cases n.content <;> dsimp only <;> first
    | exact h
    | skip
  case internal =>
    split
    · exact h
    · exact Page.sealed_unhide.2 h
  case paragraph =>
    split
    · exact Page.sealed_endParagraph.2 h
    · exact h
  case title =>
    exact (sealed_opening (isElementName_composite (by decide)) .nil).2 (hclosed h (by decide))
  case autoList list =>
    rw [sealed_reopenParagraph, sealed_breakUnless]
    split <;> exact hclosed h (by decide)
  case autoListItem => exact (sealed_breakUnless _).2 (hclosed h (by decide))
  case simpleListItem => exact (sealed_breakUnless _).2 (hclosed h (by decide))
  case xrefItem x =>
    split
    · exact h
    · exact sealed_reopenParagraph.2 (hline (hclosed (hclosed h (by decide)) (by decide)))
  case image i =>
    split
    · exact Page.sealed_unhide.2 h
    · refine sealed_reopenParagraph.2 (hline (hclosed ?_ (by decide)))
      split
      · exact h
      · exact hclosed h (by decide)
  case diagramFile =>
    refine sealed_reopenParagraph.2 (hline (hclosed ?_ (by decide)))
    split
    · exact h
    · exact hline (hclosed h (by decide))
  case hyperlink => exact hclosed h (by decide)
  case link => exact Page.sealed_endLink.2 h
  case reference l =>
    split
    · exact h
    · exact Page.sealed_endLink.2 h
  case internalReference => exact (sealed_layout (by decide)).2 (Page.sealed_endLink.2 h)
  case list l =>
    refine sealed_reopenParagraph.2 ((sealed_breakUnless _).2 ?_)
    exact (sealed_closing (isElementName_list l.type)).2 h
  case cell c => exact (sealed_closing (isElementName_cell c.isHeading)).2 h
  case header header =>
    refine sealed_reopenParagraph.2 (hline ?_)
    exact (sealed_closing (isElementName_headingTag header.level)).2 h
  case sect => exact sealed_reopenParagraph.2 h
  case refList =>
    exact sealed_reopenParagraph.2
      (hline (hclosed (hline (hclosed h (by decide))) (by decide)))
  case simpleList =>
    exact sealed_reopenParagraph.2 ((sealed_breakUnless _).2 (hclosed h (by decide)))
  case simpleSection =>
    exact sealed_reopenParagraph.2 (hline (hclosed (hclosed h (by decide)) (by decide)))
  case paramSection =>
    refine sealed_reopenParagraph.2 (hline (hclosed (hline (hclosed ?_ (by decide))) (by decide)))
    refine (sealed_layout (by decide)).2 (hclosed ?_ (by decide))
    exact (sealed_layout (by decide)).2 h
  case listItem => exact hline (hclosed h (by decide))
  case descTitle => exact hline (hclosed h (by decide))
  case descData => exact hline (hclosed h (by decide))
  case row => exact hline (hclosed h (by decide))
  case caption => exact hline (hclosed h (by decide))
  case descList => exact sealed_reopenParagraph.2 (hline (hclosed h (by decide)))
  case table => exact sealed_reopenParagraph.2 (hline (hclosed h (by decide)))
  case blockQuote => exact sealed_reopenParagraph.2 (hline (hclosed h (by decide)))
  case refItem => exact hline (hclosed (hclosed h (by decide)) (by decide))
  case paramList => exact hline (hclosed (hclosed h (by decide)) (by decide))

/-! ### Documents -/

theorem sealed_start (hsettings : context.settings.AreSealed) {relPath : Text}
    (hrelPath : IsValue relPath) (diagramCounts : DiagramCounts) :
    (start context relPath diagramCounts).IsSealed :=
  ⟨⟨hsettings.fileExtension, hsettings.tagFiles, hrelPath⟩, nofun⟩

/-- Nothing breaks out of the document of a tree from whose nodes nothing does. -/
theorem document_sealed (hsettings : context.settings.AreSealed)
    (htools : context.tools.AreSealed) {relPath : Text} (hrelPath : IsValue relPath)
    (diagramCounts : DiagramCounts) (way : Way) (hn : n.Everywhere (·.content.IsSealed)) :
    (document context relPath diagramCounts way n).IsSealed := by
  refine node_preserves (P := IsSealed) ?_ ?_ ?_ hn way _
    (sealed_start hsettings hrelPath diagramCounts)
  · exact fun way r n hn h => h.leaf htools hn
  · exact fun way r n hn h => IsSealed.enter htools hsettings.fileExtension h hn
  · exact fun way r n _ h => h.leave

end Rendering

/-! ### Tools -/

theorem RenderTools.areSealed_default : ({} : RenderTools).AreSealed where
  labels := Label.tagFree_english
  images := nofun
  code := by
    intro request action haction
    rw [CodeRequest.unescaped_plain haction]
    nofun

end DocMarkup
