import DocMarkup.Proofs.Doc.Balance
import DocMarkup.Proofs.Render.Hiding

/-!
The paragraph tags of a page.  Besides the tags of paragraphs there are displayed formulas, which
have a paragraph of their own, and the blocks that a paragraph is closed before and opened again
after; nothing else writes a paragraph tag.
-/

namespace DocMarkup

namespace Html

/-- The paragraph tag that a piece is. -/
def Piece.paragraphTag? : Piece → Option Balance.Tag
  | opening tag _ => if tag = "p" then some .opening else none
  | closing tag => if tag = "p" then some .closing else none
  | _ => none

namespace Page

/-- The paragraph tags of a page in order. -/
def paragraphTags (p : Page) : List Balance.Tag := p.pieces.reverse.filterMap Piece.paragraphTag?

variable (p : Page)

theorem paragraphTags_put {piece : Piece} (h : piece.paragraphTag? = none) :
    (p.put piece).paragraphTags = p.paragraphTags := by
  unfold put
  split
  · rfl
  · simp [paragraphTags, h]

theorem paragraphTags_put_of_hidden (piece : Piece) (h : p.hidden = true) :
    (p.put piece).paragraphTags = p.paragraphTags := by
  rw [put, if_pos h]

theorem paragraphTags_put_of_shown {piece : Piece} {tag : Balance.Tag} (h : p.hidden = false)
    (hpiece : piece.paragraphTag? = some tag) :
    (p.put piece).paragraphTags = p.paragraphTags ++ [tag] := by
  rw [put, if_neg (by simp [h])]
  simp [paragraphTags, hpiece]

@[simp]
theorem paragraphTags_putOpening {tag : String} (h : tag ≠ "p") (attributes : Text) :
    (p.putOpening tag attributes).paragraphTags = p.paragraphTags :=
  p.paragraphTags_put (if_neg h)

@[simp]
theorem paragraphTags_putClosing {tag : String} (h : tag ≠ "p") :
    (p.putClosing tag).paragraphTags = p.paragraphTags :=
  p.paragraphTags_put (if_neg h)

@[simp]
theorem paragraphTags_put_text (t : Text) : (p.put (.text t)).paragraphTags = p.paragraphTags :=
  p.paragraphTags_put rfl

@[simp]
theorem paragraphTags_put_single (tag : String) (attributes : Text) :
    (p.put (.single tag attributes)).paragraphTags = p.paragraphTags :=
  p.paragraphTags_put rfl

@[simp]
theorem paragraphTags_putRaw (t : Text) : (p.putRaw t).paragraphTags = p.paragraphTags :=
  p.paragraphTags_put rfl

@[simp]
theorem paragraphTags_putLayout (s : String) : (p.putLayout s).paragraphTags = p.paragraphTags :=
  p.paragraphTags_put rfl

@[simp]
theorem paragraphTags_putText (t : Text) : (p.putText t).paragraphTags = p.paragraphTags :=
  p.paragraphTags_put rfl

@[simp]
theorem paragraphTags_hide : p.hide.paragraphTags = p.paragraphTags := by
  simp [paragraphTags, hide]

@[simp]
theorem paragraphTags_unhide : p.unhide.paragraphTags = p.paragraphTags := by
  unfold unhide
  split <;> rfl

@[simp]
theorem paragraphTags_addIndexItem (item : IndexItem) :
    (p.addIndexItem item).paragraphTags = p.paragraphTags := by
  simp [paragraphTags, addIndexItem]

@[simp]
theorem headingTag_ne (level : Number) : headingTag level ≠ "p" := by
  intro h
  have hfirst := congrArg (·.toList.head?) h
  simp [headingTag] at hfirst

@[simp]
theorem paragraphTags_writeAction (action : CodeAction) :
    (Rendering.writeAction p action).paragraphTags = p.paragraphTags := by
  cases action with
  | startLine => exact paragraphTags_putOpening { p with column := 0 } (by decide) _
  | code text => exact paragraphTags_put _ rfl
  | lineNumber | endLine | startFontClass | endFontClass | link | anchor =>
      simp [Rendering.writeAction, endCodeLine, writeLineNumber, startFontClass, endFontClass,
        writeCodeLink, writeNamedAnchor]

end Page

end Html

@[simp]
theorem Style.tag_ne (style : Style) : style.tag ≠ "p" := by
  cases style <;> decide

@[simp]
theorem ListType.tag_ne (type : ListType) : type.tag ≠ "p" := by
  cases type <;> decide

namespace Content

/-- Blocks that the paragraph around them is closed before and opened again after.  A change of
style does one of the two. -/
def partsParagraph : Content → Bool
  | .list _ | .simpleList | .autoList _ | .simpleSection _ | .paramSection _ | .descList _
  | .table _ | .sect _ | .header _ | .diagramFile _ | .refList | .ruler | .blockQuote _ => true
  | .xrefItem x => !x.title.isEmpty
  | .image i => i.type == .html
  | .verbatim v =>
    match v.type with
    | .code | .verbatim | .dot | .msc | .plantUML => true
    | .htmlOnly => v.isBlock
    | .manOnly | .latexOnly | .rtfOnly | .xmlOnly | .docbookOnly => false
  | .inclusion i =>
    match i.type with
    | .shown | .snippet | .numbered | .verbatim => true
    | .hidden | .html | .latex => false
  | .styleChange change => change.style.isBlock
  | .formula f => !f.isInline
  | _ => false

/-- Only blocks part a paragraph. -/
theorem isBlock_of_partsParagraph {c : Content} (h : c.partsParagraph) : c.isBlock := by
  cases c with
  | verbatim v =>
      obtain ⟨type, _, _, _, _⟩ := v
      cases type <;> first
        | rfl
        | exact h
  | inclusion i =>
      obtain ⟨type, _, _, _, _⟩ := i
      cases type <;> first
        | rfl
        | cases h
  | _ => first
      | rfl
      | exact h

end Content

namespace Rendering

/-- The paragraph tags written so far. -/
def paragraphTags (r : Rendering) : List Balance.Tag := r.page.paragraphTags

variable {r : Rendering} {context : RenderContext} {way : Way}

@[simp]
theorem paragraphTags_onPage {f : Html.Page → Html.Page}
    (hf : ∀ p, (f p).paragraphTags = p.paragraphTags) :
    (r.onPage f).paragraphTags = r.paragraphTags :=
  hf r.page

@[simp]
theorem paragraphTags_ite (c : Prop) [Decidable c] (r r' : Rendering) :
    (if c then r else r').paragraphTags = if c then r.paragraphTags else r'.paragraphTags := by
  split <;> rfl

@[simp]
theorem paragraphTags_opening {tag : String} (h : tag ≠ "p") (attributes : Text) :
    (r.opening tag attributes).paragraphTags = r.paragraphTags := by
  simp [opening, h]

@[simp]
theorem paragraphTags_closing {tag : String} (h : tag ≠ "p") :
    (r.closing tag).paragraphTags = r.paragraphTags := by
  simp [closing, h]

@[simp]
theorem paragraphTags_layout (s : String) : (r.layout s).paragraphTags = r.paragraphTags := by
  simp [layout]

@[simp]
theorem paragraphTags_raw (t : Text) : (r.raw t).paragraphTags = r.paragraphTags := by
  simp [raw]

@[simp]
theorem paragraphTags_text (t : Text) : (r.text t).paragraphTags = r.paragraphTags := by
  simp [text]

@[simp]
theorem paragraphTags_piece_text (t : Text) : (r.piece (.text t)).paragraphTags = r.paragraphTags :=
  r.page.paragraphTags_put rfl

@[simp]
theorem paragraphTags_piece_raw (t : Text) : (r.piece (.raw t)).paragraphTags = r.paragraphTags :=
  r.page.paragraphTags_put rfl

@[simp]
theorem paragraphTags_piece_single (tag : String) (attributes : Text) :
    (r.piece (.single tag attributes)).paragraphTags = r.paragraphTags :=
  r.page.paragraphTags_put rfl

@[simp]
theorem paragraphTags_insidePre (insidePre : Bool) :
    ({ r with insidePre } : Rendering).paragraphTags = r.paragraphTags := rfl

@[simp]
theorem paragraphTags_diagramCounts (diagramCounts : DiagramCounts) :
    ({ r with diagramCounts } : Rendering).paragraphTags = r.paragraphTags := rfl

@[simp]
theorem paragraphTags_diagrams (diagrams : List DiagramRequest) :
    ({ r with diagrams } : Rendering).paragraphTags = r.paragraphTags := rfl

@[simp]
theorem paragraphTags_writeCode (request : CodeRequest) :
    (r.writeCode context request).paragraphTags = r.paragraphTags := by
  have htags (actions : List CodeAction) (page : Html.Page) :
      (actions.foldl writeAction page).paragraphTags = page.paragraphTags := by
    induction actions generalizing page with
    | nil => rfl
    | cons action actions ih => rw [List.foldl_cons, ih, Html.Page.paragraphTags_writeAction]
  exact htags _ _

@[simp]
theorem paragraphTags_writeDiagram (kind : DiagramKind) (name : Text) (input : DiagramInput)
    (relPath : Text) :
    (r.writeDiagram context kind name input relPath).paragraphTags = r.paragraphTags := by
  unfold writeDiagram
  dsimp only
  split
  · rfl
  · simp

/-! ### Around blocks -/

theorem closeParagraph_of_none (h : Balance.paragraph? way = none) : r.closeParagraph way = r := by
  simp [closeParagraph, Balance.closesBefore, h]

theorem reopenParagraph_of_none (h : Balance.paragraph? way = none) :
    r.reopenParagraph way = r := by
  simp [reopenParagraph, Balance.reopensAfter, h]

theorem paragraphTags_closeParagraph_of_hidden (h : r.page.hidden = true) :
    (r.closeParagraph way).paragraphTags = r.paragraphTags := by
  unfold closeParagraph
  split
  · exact r.page.paragraphTags_put_of_hidden _ h
  · rfl

theorem paragraphTags_reopenParagraph_of_hidden (h : r.page.hidden = true) :
    (r.reopenParagraph way).paragraphTags = r.paragraphTags := by
  unfold reopenParagraph
  split
  · exact r.page.paragraphTags_put_of_hidden _ h
  · rfl

/-- Output is shown, and the paragraph tags written so far alternate. -/
structure Alternates (r : Rendering) (isOpen : Bool) : Prop where
  steady : r.Steady 0
  tags : Balance.Alternates isOpen r.paragraphTags

namespace Alternates

variable {isOpen isOpen' : Bool}

theorem hidden_eq (h : r.Alternates isOpen) : r.page.hidden = false :=
  congrArg Prod.fst h.steady.shade

/-- What writes no paragraph tag keeps a paragraph open or closed. -/
theorem keep {r' : Rendering} (h : r.Alternates isOpen) (hsteady : r'.Steady 0)
    (htags : r'.paragraphTags = r.paragraphTags) : r'.Alternates isOpen :=
  ⟨hsteady, htags ▸ h.tags⟩

theorem opening (h : r.Alternates false) (attributes : Text) :
    (r.opening "p" attributes).Alternates true := by
  refine ⟨(steady_opening ..).2 h.steady, ?_⟩
  have htags : (r.opening "p" attributes).paragraphTags = r.paragraphTags ++ [.opening] :=
    r.page.paragraphTags_put_of_shown h.hidden_eq rfl
  rw [htags]
  exact h.tags.opening

theorem closing (h : r.Alternates true) : (r.closing "p").Alternates false := by
  refine ⟨(steady_closing _).2 h.steady, ?_⟩
  have htags : (r.closing "p").paragraphTags = r.paragraphTags ++ [.closing] :=
    r.page.paragraphTags_put_of_shown h.hidden_eq rfl
  rw [htags]
  exact h.tags.closing

theorem closeParagraph (h : r.Alternates (Balance.closesBefore way)) :
    (r.closeParagraph way).Alternates false := by
  unfold Rendering.closeParagraph
  split
  · next hcloses => exact (hcloses ▸ h).closing
  · next hcloses => exact Bool.eq_false_iff.2 hcloses ▸ h

theorem reopenParagraph (h : r.Alternates false) :
    (r.reopenParagraph way).Alternates (Balance.reopensAfter way) := by
  unfold Rendering.reopenParagraph
  split
  · next hreopens => exact hreopens ▸ h.opening []
  · next hreopens => exact Bool.eq_false_iff.2 hreopens ▸ h

/-- A block that has whole paragraphs at most stands between the tags around it. -/
theorem block (h : r.Alternates (Balance.closesBefore way)) {write : Rendering → Rendering}
    (hwrite : ∀ r : Rendering, r.Alternates false → (write r).Alternates false) :
    (r.block way write).Alternates (Balance.reopensAfter way) :=
  (hwrite _ h.closeParagraph).reopenParagraph

/-! ### Leaves -/

theorem codeFragment (h : r.Alternates isOpen) (request : CodeRequest) :
    (r.codeFragment context request).Alternates isOpen := by
  refine h.keep (h.steady.codeFragment request) ?_
  simp [Rendering.codeFragment, Html.Page.startCodeFragment, Html.Page.endCodeFragment]

theorem fragment (h : r.Alternates isOpen) (t : Text) : (r.fragment t).Alternates isOpen := by
  refine h.keep (h.steady.fragment t) ?_
  simp [Rendering.fragment]

theorem inlineDiagram (h : r.Alternates (Balance.closesBefore way)) (kind : DiagramKind)
    (series className : String) (source : Text) :
    (r.inlineDiagram context way kind series className source).Alternates
      (Balance.reopensAfter way) := by
  refine h.block fun r h => h.keep ?_ ?_
  · simp only [steady_layout, steady_closing]
    apply Steady.writeDiagram
    simpa using h.steady
  · simp

end Alternates

@[simp]
theorem paragraphTags_formulaBody (f : Formula) :
    (r.formulaBody context f).paragraphTags = r.paragraphTags := by
  simp [formulaBody]

theorem paragraphTags_styleChange {change : StyleChange}
    (h : change.style.isBlock = false ∨ Balance.paragraph? way = none) :
    (r.styleChange way change).paragraphTags = r.paragraphTags := by
  unfold styleChange
  rcases h with h | h
  · cases change.enable <;> simp [h]
  · cases change.enable <;> simp [closeParagraph_of_none h, reopenParagraph_of_none h]

namespace Alternates

variable {isOpen isOpen' : Bool}

theorem formula (h : r.Alternates (Balance.closesBefore way)) {f : Formula}
    (hf : f.isInline = false) :
    (r.formula context way f).Alternates (Balance.reopensAfter way) := by
  unfold Rendering.formula
  rw [if_neg (by simp [hf])]
  refine h.block fun r h => ?_
  have hopened := h.opening (units " class=\"formulaDsp\"")
  have hbody : (((r.opening "p" (units " class=\"formulaDsp\"")).layout "\n").formulaBody context
      f).Alternates true :=
    hopened.keep (((steady_layout _).2 hopened.steady).formulaBody f) (by simp)
  have hclosed := (hbody.keep ((steady_layout "\n").2 hbody.steady) (by simp)).closing
  exact hclosed.keep ((steady_layout _).2 hclosed.steady) (by simp)

/-- The change to a block style closes the paragraph, and the change back opens it again. -/
theorem styleChange {change : StyleChange} (hblock : change.style.isBlock)
    (h : r.Alternates
      (!Balance.disables (.styleChange change) && Balance.closesBefore way)) :
    (r.styleChange way change).Alternates
      (!Balance.enables (.styleChange change) && Balance.reopensAfter way) := by
  have hsteady : (r.styleChange way change).Steady 0 := h.steady.styleChange change
  unfold Rendering.styleChange at hsteady ⊢
  cases henable : change.enable with
  | true =>
      simp only [Balance.disables, Balance.enables, henable, Bool.not_true, Bool.not_false,
        Bool.true_and, Bool.false_and, hblock, if_true] at h hsteady ⊢
      exact h.closeParagraph.keep hsteady (by simp)
  | false =>
      simp only [Balance.disables, Balance.enables, henable, Bool.not_true, Bool.not_false,
        Bool.true_and, Bool.false_and, hblock, if_true, Bool.false_eq_true, if_false] at h hsteady ⊢
      refine Alternates.reopenParagraph (h.keep ((steady_reopenParagraph way).1 hsteady) ?_)
      simp

end Alternates

theorem paragraphTags_includeStep (step : IncludeStep) :
    (r.includeStep context step).paragraphTags = r.paragraphTags := by
  have hbegun : (if step.isFirst then (r.onPage (·.startCodeFragment)).onPage (·.hide)
      else r).paragraphTags = r.paragraphTags := by
    simp [Html.Page.startCodeFragment]
  unfold includeStep
  dsimp only
  generalize (if step.isFirst then _ else r : Rendering) = r' at hbegun ⊢
  have hshown : (if (r'.onPage (·.unhide)).page.hidden then r'.onPage (·.unhide)
      else (r'.onPage (·.unhide)).writeCode context
        { language := context.language
          code := step.text
          origin := step.origin
          showLineNumbers := false }).paragraphTags = r'.paragraphTags := by
    split <;> simp
  simp [hshown, hbegun, Html.Page.endCodeFragment]

/-- What does not part a paragraph writes no paragraph tag. -/
theorem paragraphTags_shownLeaf {content : Content} (h : content.partsParagraph = false) :
    (r.shownLeaf context way content).paragraphTags = r.paragraphTags := by
  cases content with
  | includeStep step => exact paragraphTags_includeStep step
  | styleChange change => exact paragraphTags_styleChange (.inl h)
  | symbol name =>
      unfold shownLeaf
      dsimp only
      split
      · simp
      · rfl
  | verbatim v =>
      obtain ⟨type, _, _, isBlock, _⟩ := v
      cases type with
      | htmlOnly =>
          obtain rfl : isBlock = false := h
          exact paragraphTags_raw _
      | manOnly | latexOnly | rtfOnly | xmlOnly | docbookOnly => rfl
      | code | verbatim | dot | msc | plantUML => cases h
  | inclusion i =>
      obtain ⟨type, _, _, _, _⟩ := i
      cases type with
      | html => exact paragraphTags_raw _
      | hidden | latex => rfl
      | shown | snippet | numbered | verbatim => cases h
  | formula f =>
      have hinline : f.isInline = true := by simpa [Content.partsParagraph] using h
      simp [shownLeaf, formula, hinline]
  | ruler => cases h
  | _ =>
      simp [shownLeaf, Html.Page.startLink, Html.Page.endLink, Html.Page.lineBreak,
        Html.Page.writeAnchor, Html.Page.writeNamedAnchor, indexEntry]

/-- Text within a line writes no paragraph tag outside a paragraph of its own. -/
theorem paragraphTags_leaf_inline {content : Content} (h : content.kind.isInline)
    (hway : Balance.paragraph? way = none) :
    (r.leaf context way content).paragraphTags = r.paragraphTags := by
  unfold leaf
  split
  · rfl
  · cases content with
    | styleChange change => exact paragraphTags_styleChange (.inr hway)
    | _ => first
        | exact paragraphTags_shownLeaf rfl
        | cases h

theorem paragraphTags_leaf {content : Content} (h : content.partsParagraph = false) :
    (r.leaf context way content).paragraphTags = r.paragraphTags := by
  unfold leaf
  split
  · rfl
  · exact paragraphTags_shownLeaf h

/-- What parts a paragraph closes it and opens it again. -/
theorem Alternates.shownLeaf {content : Content} (hparts : content.partsParagraph)
    (hleaf : content.kind.isComposite = false)
    (h : r.Alternates (!Balance.disables content && Balance.closesBefore way)) :
    (r.shownLeaf context way content).Alternates
      (!Balance.enables content && Balance.reopensAfter way) := by
  cases content with
  | styleChange change => exact h.styleChange hparts
  | ruler =>
      have hruled : (r.block way (·.onPage (·.writeRuler))).Alternates
          (Balance.reopensAfter way) := by
        refine Alternates.block h fun r h => h.keep ?_ ?_
        · simpa [Html.Page.writeRuler] using h.steady
        · simp [Html.Page.writeRuler]
      exact hruled
  | formula f => exact Alternates.formula h (by simpa [Content.partsParagraph] using hparts)
  | verbatim v =>
      obtain ⟨type, _, _, isBlock, _⟩ := v
      cases type with
      | code => exact Alternates.block h fun _ h => h.codeFragment _
      | verbatim => exact Alternates.block h fun _ h => h.fragment _
      | htmlOnly =>
          obtain rfl : isBlock = true := hparts
          exact Alternates.block h fun _ h =>
            h.keep ((steady_raw _).2 h.steady) (paragraphTags_raw _)
      | dot | msc | plantUML => exact Alternates.inlineDiagram h ..
      | manOnly | latexOnly | rtfOnly | xmlOnly | docbookOnly => cases hparts
  | inclusion i =>
      obtain ⟨type, _, _, _, _⟩ := i
      cases type with
      | shown | snippet | numbered => exact Alternates.block h fun _ h => h.codeFragment _
      | verbatim => exact Alternates.block h fun _ h => h.fragment _
      | hidden | html | latex => cases hparts
  | _ => first
      | exact Bool.noConfusion hparts
      | exact Bool.noConfusion hleaf

/-! ### Composite nodes -/

@[simp]
theorem paragraphTags_breakUnless (preformatted : Bool) :
    (r.breakUnless preformatted).paragraphTags = r.paragraphTags := by
  simp [breakUnless]

@[simp]
theorem paragraphTags_tagged {tag : String} (h : tag ≠ "p") (attributes : Attributes) :
    (r.tagged tag attributes).paragraphTags = r.paragraphTags :=
  paragraphTags_opening h _

@[simp]
theorem paragraphTags_taggedOr {tag : String} (h : tag ≠ "p") (className : String)
    (attributes : Attributes) :
    (r.taggedOr tag className attributes).paragraphTags = r.paragraphTags :=
  paragraphTags_opening h _

@[simp]
theorem paragraphTags_xrefItemStart (x : XRefItem) :
    (r.xrefItemStart context x).paragraphTags = r.paragraphTags := by
  simp [xrefItemStart]

@[simp]
theorem paragraphTags_imageTag (i : Image) : (r.imageTag i).paragraphTags = r.paragraphTags := by
  simp [imageTag]

@[simp]
theorem paragraphTags_captionStart (hasCaption : Bool) :
    (r.captionStart hasCaption).paragraphTags = r.paragraphTags := by
  simp [captionStart]

@[simp]
theorem paragraphTags_diagramStart (d : DiagramFile) :
    (r.diagramStart context d).paragraphTags = r.paragraphTags := by
  simp [diagramStart]

@[simp]
theorem paragraphTags_simpleSectionStart (type : SimpleSectionType) (hasTitle : Bool) :
    (r.simpleSectionStart context type hasTitle).paragraphTags = r.paragraphTags := by
  unfold simpleSectionStart
  cases Label.ofSimpleSection? type <;> simp

@[simp]
theorem paragraphTags_paramSectionStart (type : ParamSectionType) :
    (r.paramSectionStart context type).paragraphTags = r.paragraphTags := by
  simp [paramSectionStart]

theorem partsParagraph_of_isName {content : Content} (h : content.kind.isName) :
    content.partsParagraph = false := by
  cases content <;> first
    | rfl
    | cases h

theorem paragraphTags_nameCell (className separator : String) {names : List Node}
    (hnames : ∀ name ∈ names, name.kind.isName) :
    (r.nameCell context way className separator names).paragraphTags = r.paragraphTags := by
  unfold nameCell
  rw [paragraphTags_closing (by decide)]
  refine List.foldlRecOn (motive := fun r' : Rendering => r'.paragraphTags = r.paragraphTags) _ _
    (by simp) ?_
  rintro r' h ⟨name, index⟩ hmem
  have hname : name.kind.isName := hnames name (List.fst_mem_of_mem_zipIdx hmem)
  rw [paragraphTags_leaf (partsParagraph_of_isName hname)]
  simpa using h

theorem paragraphTags_paramListStart (list : ParamList) {types names : List Node}
    (htypes : ∀ type ∈ types, type.kind.isName) (hnames : ∀ name ∈ names, name.kind.isName) :
    (r.paramListStart context way list types names).paragraphTags = r.paragraphTags := by
  unfold paramListStart
  dsimp only
  rw [paragraphTags_opening (by decide), paragraphTags_nameCell _ _ hnames, paragraphTags_ite,
    paragraphTags_nameCell _ _ htypes, ite_self]
  simp

/-- Before the nodes below a composite node that is no paragraph itself, a paragraph is closed if
the node parts it. -/
theorem paragraphTags_enter {n : Node} (hn : n.Conforms) (hcomposite : n.kind.isComposite)
    (hparagraph : n.kind ≠ .paragraph) :
    (r.enter context way n).paragraphTags =
      if n.content.partsParagraph then (r.closeParagraph way).paragraphTags
      else r.paragraphTags := by
  obtain ⟨content, flags, types, heads, children⟩ := n
  unfold enter
  dsimp only [Node.content, Node.children, Node.heads, Node.types]
  cases content with
  | paragraph => exact absurd rfl hparagraph
  | paramList list =>
      refine paragraphTags_paramListStart list (fun type htype => (hn.types type htype).2) ?_
      exact fun name hname => hn.heads name hname
  | xrefItem x =>
      cases htitle : x.title.isEmpty <;> simp [Content.partsParagraph, htitle]
  | image i =>
      cases htype : i.type <;> simp [Content.partsParagraph, htype]
  | sect s =>
      simp [Content.partsParagraph, Html.Page.startSection, Html.Page.endSection,
        Html.Page.writeAnchor]
  | cell c =>
      have htag : (if c.isHeading then "th" else "td") ≠ "p" := by split <;> decide
      exact paragraphTags_tagged htag c.attributes
  | ruler | styleChange | verbatim | inclusion | formula => cases hcomposite
  | _ => simp [Content.partsParagraph, Html.Page.startLink]

/-- Behind the nodes below, a paragraph is opened again by a node that parts it. -/
theorem exists_leave_eq {n : Node} (hcomposite : n.kind.isComposite)
    (hparts : n.content.partsParagraph) :
    ∃ r' : Rendering, r.leave context way n = r'.reopenParagraph way ∧
      r'.paragraphTags = r.paragraphTags := by
  obtain ⟨content, flags, types, heads, children⟩ := n
  unfold leave
  dsimp only [Node.content, Node.children] at hparts ⊢
  cases content with
  | xrefItem x =>
      have htitle : ¬x.title.isEmpty := by simpa [Content.partsParagraph] using hparts
      exact ⟨_, if_neg htitle, by simp⟩
  | image i =>
      have htype : ¬i.type != .html := by simpa [Content.partsParagraph] using hparts
      exact ⟨_, if_neg htype, by simp⟩
  | ruler | styleChange | verbatim | inclusion | formula => cases hcomposite
  | autoList list =>
      have htag : (if list.isNumbered then "ol" else "ul") ≠ "p" := by split <;> decide
      exact ⟨_, rfl, by simp [htag]⟩
  | diagramFile | list | descList | table | blockQuote | header | sect | refList | simpleList
  | simpleSection | paramSection => exact ⟨_, rfl, by simp⟩
  | _ => cases hparts

theorem paragraphTags_leave {n : Node} (hparagraph : n.kind ≠ .paragraph)
    (hparts : n.content.partsParagraph = false) :
    (r.leave context way n).paragraphTags = r.paragraphTags := by
  obtain ⟨content, flags, types, heads, children⟩ := n
  unfold leave
  dsimp only [Node.content, Node.children] at hparts ⊢
  cases content with
  | paragraph => exact absurd rfl hparagraph
  | xrefItem x =>
      have htitle : x.title.isEmpty := by simpa [Content.partsParagraph] using hparts
      exact congrArg paragraphTags (if_pos htitle)
  | image i =>
      have htype : i.type != .html := by simpa [Content.partsParagraph] using hparts
      exact (congrArg paragraphTags (if_pos htype)).trans (by simp)
  | cell c =>
      have htag : (if c.isHeading then "th" else "td") ≠ "p" := by split <;> decide
      exact paragraphTags_closing htag
  | autoList | diagramFile | list | descList | table | blockQuote | header | sect | refList
  | simpleList | simpleSection | paramSection => cases hparts
  | _ => simp [Html.Page.endLink]

end Rendering

end DocMarkup
