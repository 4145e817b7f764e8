import DocMarkup.Proofs.Html.Elements
import DocMarkup.Render.Document

/-!
The elements of a page.  Every node closes the elements that it opens, but for the changes of a
division, which nest among the children of a node, the title of a section, which turns the term into
its description, and a separator, which begins the description anew.
-/

namespace DocMarkup

open Html

/-! ### What is written as it is -/

/-- What a highlighter has written as it is. -/
def CodeAction.unescaped : CodeAction → List Text
  | .startFontClass name => [name]
  | .link target _ => [target.ref, target.file, target.anchor]
  | .anchor name => [name]
  | _ => []

/-- The structural tag that an action writes. -/
def CodeAction.tag? : CodeAction → Option Tag
  | .startLine => some { name := units "div", opens := true }
  | .endLine => some { name := units "div", opens := false }
  | _ => none

/-- Code without highlighting is all escaped. -/
theorem CodeRequest.unescaped_plain {request : CodeRequest} {action : CodeAction}
    (haction : action ∈ request.plain) : action.unescaped = [] := by
  obtain ⟨⟨line, index⟩, -, haction⟩ := List.mem_flatMap.1 haction
  have hcases : action = .startLine ∨
      (request.showLineNumbers ∧ action = .lineNumber (index + 1 : Nat)) ∨
        action = .code line ∨ action = .endLine := by
    simpa using haction
  rcases hcases with rfl | ⟨-, rfl⟩ | rfl | rfl <;> rfl

theorem Label.tagFree_english (label : Label) : TagFree label.english := by
  cases label <;> decide

/-- There are no brackets in what the tools have written as it is, and a highlighter ends the lines
that it starts. -/
structure RenderTools.KeepTags (tools : RenderTools) : Prop where
  labels : ∀ label, TagFree (tools.translate label)
  images : ∀ request imageFile, tools.drawDiagram request = .ok imageFile → TagFree imageFile
  code : ∀ request, ∀ action ∈ tools.highlight request, ∀ t ∈ action.unescaped, TagFree t
  lines : ∀ request, WellNested ((tools.highlight request).filterMap CodeAction.tag?)

/-- Nor are there any in what the settings have written as it is. -/
structure Settings.KeepTags (settings : Settings) : Prop where
  fileExtension : TagFree settings.fileExtension
  tagFiles : ∀ entry ∈ settings.tagFiles, TagFree entry.2

/-- What is written of a node as it is, markup for the page included. -/
def Content.unescaped : Content → List Text
  | .linkedWord l => [l.ref, l.file, l.relPath, l.anchor, l.tooltip]
  | .whiteSpace written => [written]
  | .url address isEmail => if isEmail then [] else [address]
  | .anchor name _ => [name]
  | .styleChange change => if change.enable then writtenNames change.attributes else []
  | .verbatim v => if v.type = .htmlOnly then [v.text] else []
  | .inclusion i => if i.type = .html then [i.text] else []
  | .formula f => [f.name, f.relPath]
  | .indexEntry e => [e.memberAnchor]
  | .citation c => if c.file.isEmpty then [] else [c.ref, c.file, c.relPath, c.anchor]
  | .xrefItem x => if x.title.isEmpty then [] else [x.key, x.file, x.relPath, x.anchor]
  | .image i =>
    if i.type = .html then
      [i.name, i.url, i.relPath, i.width, i.height] ++ writtenNames i.attributes
    else []
  | .diagramFile d => [Path.stem d.file, d.relPath]
  | .hyperlink h => writtenNames h.attributes
  | .link l => [l.ref, l.file, l.relPath, l.anchor, l.tooltip]
  | .reference l => if l.file.isEmpty then [] else [l.ref, l.file, l.relPath, l.anchor]
  | .internalReference l => [l.file, l.relPath, l.anchor]
  | .list l => writtenNames l.attributes
  | .listItem i => writtenNames i.attributes
  | .descList attributes | .descTitle attributes | .descData attributes | .caption attributes
  | .blockQuote attributes => writtenNames attributes
  | .table t => writtenNames t.attributes
  | .row t => writtenNames t.attributes
  | .cell c => writtenNames c.attributes
  | .header h => writtenNames h.attributes
  | .sect s => [s.anchor]
  | .refItem i => [i.file, i.relPath, i.anchor]
  | _ => []

/-- Nothing with a bracket in it is written as it is. -/
def Content.IsTagFree (c : Content) : Prop := ∀ t ∈ c.unescaped, TagFree t

instance : DecidablePred Content.IsTagFree := fun c =>
  inferInstanceAs (Decidable (∀ t ∈ c.unescaped, TagFree t))

/-! ### What nodes leave open -/

/-- The structural tags by which a node changes what is open. -/
def Content.tags : Content → List Tag
  | .styleChange change =>
    if change.style = .division then [{ name := units "div", opens := change.enable }] else []
  | .title => [{ name := units "dt", opens := false }, { name := units "dd", opens := true }]
  | .separator => [{ name := units "dd", opens := false }, { name := units "dd", opens := true }]
  | _ => []

namespace Rendering

/-- Output is shown, and its tags nest but for the elements that are open, the innermost first. -/
def Nests (r : Rendering) (opened : List Text) : Prop := r.page.Nests opened

variable {r : Rendering} {context : RenderContext} {way : Way} {opened before after : List Text}

/-! ### Writing -/

@[simp]
theorem nests_page : r.page.Nests opened ↔ r.Nests opened := Iff.rfl

@[simp]
theorem nests_onPage (f : Page → Page) :
    (r.onPage f).Nests opened ↔ (f r.page).Nests opened := Iff.rfl

@[simp]
theorem nests_opening (tag : String) (attributes : Text) :
    (r.opening tag attributes).Nests opened ↔ (r.page.putOpening tag attributes).Nests opened :=
  Iff.rfl

@[simp]
theorem nests_closing (tag : String) :
    (r.closing tag).Nests opened ↔ (r.page.putClosing tag).Nests opened := Iff.rfl

@[simp]
theorem nests_layout (s : String) :
    (r.layout s).Nests opened ↔ (r.page.putLayout s).Nests opened := Iff.rfl

@[simp]
theorem nests_raw (t : Text) : (r.raw t).Nests opened ↔ (r.page.putRaw t).Nests opened := Iff.rfl

@[simp]
theorem nests_text (t : Text) : (r.text t).Nests opened ↔ r.Nests opened :=
  Page.nests_putText t

@[simp]
theorem nests_piece (piece : Piece) :
    (r.piece piece).Nests opened ↔ (r.page.put piece).Nests opened := Iff.rfl

@[simp]
theorem nests_insidePre (insidePre : Bool) :
    ({ r with insidePre } : Rendering).Nests opened ↔ r.Nests opened := Iff.rfl

@[simp]
theorem nests_diagramCounts (diagramCounts : DiagramCounts) :
    ({ r with diagramCounts } : Rendering).Nests opened ↔ r.Nests opened := Iff.rfl

@[simp]
theorem nests_diagrams (diagrams : List DiagramRequest) :
    ({ r with diagrams } : Rendering).Nests opened ↔ r.Nests opened := Iff.rfl

@[simp]
theorem nests_report (problem : Problem) (subject : Option Text) :
    (r.report context problem subject).Nests opened ↔ r.Nests opened := Iff.rfl

@[simp]
theorem nests_ite (c : Prop) [Decidable c] (first second : Rendering) :
    (if c then first else second).Nests opened ↔
      if c then first.Nests opened else second.Nests opened := by
  split <;> rfl

@[simp]
theorem nests_closeParagraph (way : Way) :
    (r.closeParagraph way).Nests opened ↔ r.Nests opened := by
  simp (disch := decide) [closeParagraph]

@[simp]
theorem nests_reopenParagraph (way : Way) :
    (r.reopenParagraph way).Nests opened ↔ r.Nests opened := by
  simp (disch := decide) [reopenParagraph, isAttributes_nil]

@[simp]
theorem nests_block (write : Rendering → Rendering) :
    (r.block way write).Nests opened ↔ (write (r.closeParagraph way)).Nests opened :=
  nests_reopenParagraph way

@[simp]
theorem nests_breakUnless (preformatted : Bool) :
    (r.breakUnless preformatted).Nests opened ↔ r.Nests opened := by
  simp (disch := decide) [breakUnless]

@[simp]
theorem nests_tagged (tag : String) (attributes : Attributes) :
    (r.tagged tag attributes).Nests opened ↔
      (r.page.putOpening tag (writeAttributes attributes)).Nests opened := Iff.rfl

theorem Nests.taggedOr (h : r.Nests opened) {tag className : String} {attributes : Attributes}
    (htag : tag ∈ Html.elements) (hclass : IsAttributes (units (" class=\"" ++ className ++ "\"")))
    (hattributes : ∀ name ∈ writtenNames attributes, TagFree name) :
    (r.taggedOr tag className attributes).Nests (units tag :: opened) := by
  refine (Page.nests_putOpening_element htag _).2 ⟨?_, h⟩
  split
  · exact hclass
  · exact isAttributes_writeAttributes hattributes

/-! ### Tools -/

/-- An action that writes nothing with brackets opens or closes what its tag does. -/
theorem Nests.writeAction {p : Page} {action : CodeAction}
    (hfree : ∀ t ∈ action.unescaped, TagFree t)
    (htag : action.tag?.toList.foldlM Tag.next before = some after) (h : p.Nests before) :
    (Rendering.writeAction p action).Nests after := by
  cases action with
  | startLine =>
      obtain rfl : units "div" :: before = after := by simpa [CodeAction.tag?] using htag
      exact Page.nests_startCodeLine.2 h
  | endLine =>
      obtain rfl : before = units "div" :: after := by simpa [CodeAction.tag?] using htag
      exact Page.nests_endCodeLine.2 h
  | lineNumber number =>
      obtain rfl := Option.some.inj htag
      exact (Page.nests_writeLineNumber number).2 h
  | code t =>
      obtain rfl := Option.some.inj htag
      exact (Page.nests_putCode t).2 h
  | startFontClass name =>
      obtain rfl := Option.some.inj htag
      exact h.startFontClass (hfree name (by simp [CodeAction.unescaped]))
  | endFontClass =>
      obtain rfl := Option.some.inj htag
      exact Page.nests_endFontClass.2 h
  | link target name =>
      obtain rfl := Option.some.inj htag
      obtain ⟨href, hfile, hanchor⟩ : _ ∧ _ ∧ _ := by
        simpa [CodeAction.unescaped] using hfree
      exact h.writeCodeLink href hfile hanchor name
  | anchor name =>
      obtain rfl := Option.some.inj htag
      exact h.writeNamedAnchor (hfree name (by simp [CodeAction.unescaped]))

theorem Nests.writeActions {p : Page} {actions : List CodeAction}
    (hfree : ∀ action ∈ actions, ∀ t ∈ action.unescaped, TagFree t)
    (htags : (actions.filterMap CodeAction.tag?).foldlM Tag.next before = some after)
    (h : p.Nests before) : (actions.foldl Rendering.writeAction p).Nests after := by
  induction actions generalizing p before with
  | nil =>
      obtain rfl := Option.some.inj htags
      exact h
  | cons action actions ih =>
      obtain ⟨hfirst, hrest⟩ := List.forall_mem_cons.1 hfree
      have hsplit : (action :: actions).filterMap CodeAction.tag? =
          action.tag?.toList ++ actions.filterMap CodeAction.tag? := by
        rw [List.filterMap_cons]
        cases action.tag? <;> rfl
      rw [hsplit, List.foldlM_append] at htags
      obtain ⟨between, htag, htags⟩ := Option.bind_eq_some_iff.1 htags
      exact ih hrest htags (Nests.writeAction hfirst htag h)

section Tools

variable (htools : context.tools.KeepTags)
include htools

theorem Nests.writeCode (h : r.Nests opened) (request : CodeRequest) :
    (r.writeCode context request).Nests opened :=
  Nests.writeActions (htools.code request) ((htools.lines request).foldlM opened) h

theorem Nests.writeDiagram (h : r.Nests opened) (kind : DiagramKind) {name : Text}
    (hname : TagFree name) (input : DiagramInput) {relPath : Text} (hrelPath : TagFree relPath) :
    (r.writeDiagram context kind name input relPath).Nests opened := by
  unfold Rendering.writeDiagram
  dsimp only
  split
  · exact h
  · next imageFile himage =>
    have hfile : TagFree imageFile := htools.images _ _ himage
    have hobject : IsAttributes (units " type=\"image/svg+xml\" data=\"" ++ relPath ++ imageFile ++
        units "\"") := by
      rw [List.append_assoc (units _)]
      exact isAttributes_quoted (by decide) (by decide) (tagFree_append.2 ⟨hrelPath, hfile⟩)
    have himage : IsAttributes (units " src=\"" ++ relPath ++ imageFile ++ units "\" alt=\"" ++
        name ++ units "\"") := by
      rw [List.append_assoc (units _), List.append_assoc (units _), List.append_assoc (units _)]
      refine isAttributes_quoted (by decide) (by decide) ?_
      simp [hrelPath, hfile, hname, (by decide : TagFree (units "\" alt=\""))]
    simpa (disch := decide) [hobject, himage, -List.append_assoc] using h

theorem Nests.codeFragment (h : r.Nests opened) (request : CodeRequest) :
    (r.codeFragment context request).Nests opened := by
  have hstarted : (r.onPage (·.startCodeFragment)).Nests (units "div" :: opened) :=
    Page.nests_startCodeFragment.2 h
  exact Page.nests_endCodeFragment.2 (hstarted.writeCode htools request)

theorem Nests.inlineDiagram (h : r.Nests opened) (kind : DiagramKind) {series className : String}
    (hseries : TagFree (units series)) (hclass : TagFree (units className)) (source : Text) :
    (r.inlineDiagram context way kind series className source).Nests opened := by
  have hattributes : IsAttributes (units (" class=\"" ++ className ++ "\"")) := by
    rw [units_append, units_append]
    exact isAttributes_quoted (by decide) (by decide) hclass
  have hname (counts : DiagramCounts) : TagFree (counts.next (units series)).1 :=
    tagFree_append.2 ⟨hseries, tagFree_unitsOfNat _⟩
  have hwritten (r : Rendering) (h : r.Nests (units "div" :: opened)) (counts : DiagramCounts)
      (name : Text) (hname : TagFree name) :
      ({ r with diagramCounts := counts }.writeDiagram context kind name (.source source)
        []).Nests (units "div" :: opened) :=
    Nests.writeDiagram htools ((nests_diagramCounts counts).2 h) kind hname _ tagFree_nil
  unfold Rendering.inlineDiagram
  simp (disch := decide) only [nests_block, nests_layout, Page.nests_putLayout, nests_page,
    nests_closing, Page.nests_putClosing_element]
  refine hwritten _ ?_ _ _ (hname _)
  simpa (disch := decide) [hattributes] using h

end Tools

/-! ### Leaves -/

theorem Nests.startLink (h : r.Nests opened) {target : Page.LinkTarget}
    (htarget : target.IsTagFree) (htooltip : TagFree target.tooltip) :
    (r.onPage (·.startLink target)).Nests opened :=
  Page.Nests.startLink h htarget htooltip

theorem Nests.fragment (h : r.Nests opened) (t : Text) : (r.fragment t).Nests opened := by
  have hattributes : IsAttributes (units " class=\"fragment\"") :=
    (isAttributes_of_head? (by decide)).2 (by decide)
  simpa (disch := decide) [Rendering.fragment, hattributes] using h

theorem Nests.formulaBody (h : r.Nests opened) {f : Formula} (hname : TagFree f.name)
    (hrelPath : TagFree f.relPath) : (r.formulaBody context f).Nests opened := by
  unfold Rendering.formulaBody
  split
  · split
    · refine (Page.nests_put_text ?_).2 h
      simp [(by decide : TagFree (units "\\(")), (by decide : TagFree (units "\\)"))]
    · exact (Page.nests_put_text (tagFree_escapePage _)).2 h
  · refine (Page.nests_put_single (by decide) _).2 ⟨?_, h⟩
    have hclass : TagFree (units (if f.isInline then "formulaInl" else "formulaDsp")) := by
      split <;> decide
    simp only [units_append, List.append_assoc]
    rw [isAttributes_append (by decide)]
    simp [hclass, hname, hrelPath, (by decide : TagFree (units " class=\"")),
      (by decide : TagFree (units "\" alt=\"")), (by decide : TagFree (units "\" src=\"")),
      (by decide : TagFree (units ".png\""))]

theorem Nests.formula (h : r.Nests opened) {f : Formula} (hname : TagFree f.name)
    (hrelPath : TagFree f.relPath) : (r.formula context way f).Nests opened := by
  unfold Rendering.formula
  split
  · exact h.formulaBody hname hrelPath
  · have hattributes : IsAttributes (units " class=\"formulaDsp\"") :=
      (isAttributes_of_head? (by decide)).2 (by decide)
    simp (disch := decide) only [nests_block, nests_layout, Page.nests_putLayout, nests_page,
      nests_closing, Page.nests_putClosing_other]
    refine Nests.formulaBody ?_ hname hrelPath
    simpa (disch := decide) [hattributes] using h

theorem Nests.indexEntry (h : r.Nests opened) {e : IndexEntry} (hanchor : TagFree e.memberAnchor) :
    (r.indexEntry e).Nests opened := by
  unfold Rendering.indexEntry
  refine (Page.nests_addIndexItem _).2 (Page.Nests.writeNamedAnchor h ?_)
  split
  · exact tagFree_indexAnchor _
  · simp [hanchor, tagFree_indexAnchor, (by decide : TagFree (units "_"))]

/-- Of the styles, only a division is an element of the page. -/
theorem Style.tag_mem {style : Style} (h : style ≠ .division) : style.tag ∈ otherElements := by
  cases style <;> first
    | exact absurd rfl h
    | decide

theorem Nests.styleChange {change : StyleChange}
    (hfree : (Content.styleChange change).IsTagFree)
    (htags : (Content.styleChange change).tags.foldlM Tag.next before = some after)
    (h : r.Nests before) : (r.styleChange way change).Nests after := by
  obtain ⟨style, enable, position, attributes⟩ := change
  unfold Rendering.styleChange
  by_cases hdivision : style = .division
  · subst hdivision
    cases enable with
    | true =>
        have hwritten := isAttributes_writeAttributes hfree
        obtain rfl : units "div" :: before = after := by simpa [Content.tags] using htags
        simpa (disch := decide) [Style.tag, hwritten] using h
    | false =>
        obtain rfl : before = units "div" :: after := by simpa [Content.tags] using htags
        simpa (disch := decide) [Style.tag] using h
  · obtain rfl : before = after := by simpa [Content.tags, hdivision] using htags
    have htag : style.tag ∈ otherElements := Style.tag_mem hdivision
    cases enable with
    | true =>
        have hwritten := isAttributes_writeAttributes hfree
        simpa [htag, hwritten] using h
    | false => simpa [htag] using h

section Leaf

variable (htools : context.tools.KeepTags)
include htools

theorem Nests.verbatim (h : r.Nests opened) {v : Verbatim}
    (hfree : (Content.verbatim v).IsTagFree) :
    (r.verbatim context way v).Nests opened := by
  have hclosed : (r.closeParagraph way).Nests opened := (nests_closeParagraph way).2 h
  unfold Rendering.verbatim
  split
  case h_1 => exact (nests_block _).2 (hclosed.codeFragment htools _)
  case h_2 => exact (nests_block _).2 (hclosed.fragment _)
  case h_3 htype =>
    have hfree : TagFree v.text := hfree v.text (by simp [Content.unescaped, htype])
    split
    · exact (nests_block _).2 ((Page.nests_put_raw hfree).2 hclosed)
    · exact (Page.nests_put_raw hfree).2 h
  case h_9 | h_10 | h_11 => exact h.inlineDiagram htools _ (by decide) (by decide) _
  all_goals exact h

theorem Nests.inclusion (h : r.Nests opened) {i : Inclusion}
    (hfree : (Content.inclusion i).IsTagFree) :
    (r.inclusion context way i).Nests opened := by
  have hclosed : (r.closeParagraph way).Nests opened := (nests_closeParagraph way).2 h
  unfold Rendering.inclusion
  dsimp only
  split
  case h_4 | h_5 => exact h
  case h_6 htype =>
    exact (Page.nests_put_raw (hfree i.text (by simp [Content.unescaped, htype]))).2 h
  case h_7 => exact (nests_block _).2 (hclosed.fragment _)
  all_goals exact (nests_block _).2 (hclosed.codeFragment htools _)

/-- Leaves other than changes of style and separators close what they open. -/
theorem Nests.shownText {content : Content} (hstep : content.kind ≠ .includeStep)
    (hstyle : content.kind ≠ .styleChange) (hseparator : content.kind ≠ .separator)
    (hfree : content.IsTagFree) (h : r.Nests opened) :
    (r.shownLeaf context way content).Nests opened := by
  cases content with
  | includeStep step => exact absurd rfl hstep
  | styleChange change => exact absurd rfl hstyle
  | separator => exact absurd rfl hseparator
  | word word => exact (nests_text word).2 h
  | linkedWord l =>
      have htarget : Page.LinkTarget.IsTagFree
          { ref := l.ref, file := l.file, relPath := l.relPath, anchor := l.anchor
            tooltip := l.tooltip } := by
        constructor <;> exact hfree _ (by simp [Content.unescaped])
      have hlinked := h.startLink htarget (hfree l.tooltip (by simp [Content.unescaped]))
      simpa [Rendering.shownLeaf] using hlinked
  | whiteSpace written =>
      refine (Page.nests_put_text ?_).2 h
      split
      · exact hfree written (by simp [Content.unescaped])
      · decide
  | symbol name =>
      unfold Rendering.shownLeaf
      dsimp only
      split
      next symbol hfound => exact (Page.nests_put_text (tagFree_markup hfound)).2 h
      next => exact h
  | url address isEmail =>
      have haddress : TagFree
          (if isEmail then escapeAttribute (units "mailto:" ++ address) else address) := by
        split
        next => exact tagFree_escapeAttribute _
        next hother => exact hfree address (by simp [Content.unescaped, hother])
      have hattributes : IsAttributes (units " href=\"" ++
          (if isEmail then escapeAttribute (units "mailto:" ++ address) else address) ++
            units "\"") :=
        isAttributes_quoted (by decide) (by decide) haddress
      simpa (disch := decide) [Rendering.shownLeaf, hattributes, -List.append_assoc] using h
  | anchor name file => exact Page.Nests.writeAnchor h (hfree name (by simp [Content.unescaped]))
  | verbatim v => exact h.verbatim htools hfree
  | inclusion i => exact h.inclusion htools hfree
  | formula f =>
      exact h.formula (hfree f.name (by simp [Content.unescaped]))
        (hfree f.relPath (by simp [Content.unescaped]))
  | indexEntry e => exact h.indexEntry (hfree e.memberAnchor (by simp [Content.unescaped]))
  | citation c =>
      unfold Rendering.shownLeaf
      dsimp only
      split
      next => simpa (disch := decide) [isAttributes_nil] using h
      next hfile =>
        have htarget : Page.LinkTarget.IsTagFree
            { ref := c.ref, file := c.file, relPath := c.relPath, anchor := c.anchor } := by
          constructor <;> exact hfree _ (by simp [Content.unescaped, hfile])
        simpa using h.startLink htarget tagFree_nil
  | lineBreak => exact Page.nests_lineBreak.2 h
  | ruler => exact (nests_block _).2 (Page.nests_writeRuler.2 ((nests_closeParagraph way).2 h))
  | _ => exact h

/-- A leaf opens or closes what its tags do. -/
theorem Nests.leaf {content : Content} (hleaf : content.kind.isComposite = false)
    (hstep : content.kind ≠ .includeStep) (hfree : content.IsTagFree)
    (htags : content.tags.foldlM Tag.next before = some after) (h : r.Nests before) :
    (r.leaf context way content).Nests after := by
  have hshown : r.leaf context way content = r.shownLeaf context way content := by
    rw [Rendering.leaf, h.shown, Bool.false_and, if_neg Bool.false_ne_true]
  rw [hshown]
  cases content with
  | styleChange change => exact h.styleChange hfree htags
  | separator =>
      obtain ⟨outer, rfl, rfl⟩ := foldlM_next_turn.1 htags
      simpa (disch := decide) [Rendering.shownLeaf, isAttributes_nil] using h
  | title => cases hleaf
  | _ =>
      obtain rfl := Option.some.inj htags
      exact h.shownText htools hstep nofun nofun hfree

end Leaf

end Rendering

end DocMarkup
