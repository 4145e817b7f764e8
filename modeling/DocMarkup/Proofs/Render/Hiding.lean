import DocMarkup.Proofs.Doc.Marks
import DocMarkup.Proofs.Parser.Reading
import DocMarkup.Render.Document

/-!
Hidden output.  Internal blocks, images for other formats and the steps through an included text
hide output and show it again; all else leaves the page as hidden as it was.
-/

namespace DocMarkup

namespace Html.Page

/-- Whether output is hidden, and what is to be undone. -/
def shade (p : Page) : Bool × List Bool := (p.hidden, p.hideStack)

@[simp]
theorem shade_put (p : Page) (piece : Piece) : (p.put piece).shade = p.shade := by
  unfold put
  split <;> rfl

@[simp]
theorem shade_putOpening (p : Page) (tag : String) (attributes : Text) :
    (p.putOpening tag attributes).shade = p.shade := shade_put ..

@[simp]
theorem shade_putClosing (p : Page) (tag : String) : (p.putClosing tag).shade = p.shade :=
  shade_put ..

@[simp] theorem shade_putRaw (p : Page) (t : Text) : (p.putRaw t).shade = p.shade := shade_put ..

@[simp]
theorem shade_putLayout (p : Page) (s : String) : (p.putLayout s).shade = p.shade := shade_put ..

@[simp] theorem shade_putText (p : Page) (t : Text) : (p.putText t).shade = p.shade := shade_put ..

@[simp]
theorem shade_writeNamedAnchor (p : Page) (name : Text) :
    (p.writeNamedAnchor name).shade = p.shade := by
  simp [writeNamedAnchor]

@[simp]
theorem shade_writeAnchor (p : Page) (name : Text) : (p.writeAnchor name).shade = p.shade := by
  simp [writeAnchor]

@[simp]
theorem shade_startLink (p : Page) (target : LinkTarget) : (p.startLink target).shade = p.shade :=
  shade_put ..

@[simp] theorem shade_endLink (p : Page) : p.endLink.shade = p.shade := shade_put ..

@[simp]
theorem shade_startParagraph (p : Page) (attributes : Text) :
    (p.startParagraph attributes).shade = p.shade := shade_put ..

@[simp]
theorem shade_endParagraph (p : Page) : p.endParagraph.shade = p.shade := by
  simp [endParagraph]

@[simp]
theorem shade_startSection (p : Page) (anchor : Text) (level : Number) :
    (p.startSection anchor level).shade = p.shade := by
  simp [startSection]

@[simp]
theorem shade_endSection (p : Page) (level : Number) : (p.endSection level).shade = p.shade := by
  simp [endSection]

@[simp]
theorem shade_startCodeFragment (p : Page) : p.startCodeFragment.shade = p.shade := shade_put ..

@[simp]
theorem shade_endCodeFragment (p : Page) : p.endCodeFragment.shade = p.shade := by
  simp [endCodeFragment]

@[simp]
theorem shade_writeAction (p : Page) (action : CodeAction) :
    (Rendering.writeAction p action).shade = p.shade := by
  cases action with
  | startLine => exact shade_putOpening ..
  | code text => exact shade_put ..
  | lineNumber | endLine | startFontClass | endFontClass | link | anchor =>
      simp [Rendering.writeAction, endCodeLine, writeLineNumber, startFontClass, endFontClass,
        writeCodeLink]

/-- How deep output is hidden.  It is shown at depth zero, where nothing is to be undone. -/
def shadeAt : Nat → Bool × List Bool
  | 0 => (false, [])
  | depth + 1 => (true, (shadeAt depth).1 :: (shadeAt depth).2)

theorem shade_hide {p : Page} {depth : Nat} (h : p.shade = shadeAt depth) :
    p.hide.shade = shadeAt (depth + 1) := by
  rw [shadeAt, ← h]
  rfl

theorem shade_unhide {p : Page} {depth : Nat} (h : p.shade = shadeAt depth) :
    p.unhide.shade = shadeAt (depth - 1) := by
  have hstack : p.hideStack = (shadeAt depth).2 := congrArg Prod.snd h
  unfold unhide
  cases depth with
  | zero =>
      have hstack : p.hideStack = [] := hstack
      simp [hstack, shade, shadeAt]
  | succ depth =>
      have hstack : p.hideStack = (shadeAt depth).1 :: (shadeAt depth).2 := hstack
      simp [hstack, shade]

end Html.Page

namespace Rendering

/-- The rendering hides output to some depth and has reported no internal problem. -/
structure Steady (r : Rendering) (depth : Nat) : Prop where
  shade : r.page.shade = Html.Page.shadeAt depth
  isClean : ∀ diagnostic ∈ r.diagnostics, diagnostic.code.isInternal = false

variable {r : Rendering} {depth : Nat} {context : RenderContext} {way : Way}

@[simp]
theorem steady_onPage {f : Html.Page → Html.Page} (hf : ∀ p, (f p).shade = p.shade) :
    (r.onPage f).Steady depth ↔ r.Steady depth := by
  constructor
  · exact fun h => ⟨(hf r.page).symm.trans h.shade, h.isClean⟩
  · exact fun h => ⟨(hf r.page).trans h.shade, h.isClean⟩

@[simp]
theorem steady_ite (c : Prop) [Decidable c] (r r' : Rendering) :
    (if c then r else r').Steady depth ↔ if c then r.Steady depth else r'.Steady depth := by
  split <;> rfl

@[simp]
theorem steady_opening (tag : String) (attributes : Text) :
    (r.opening tag attributes).Steady depth ↔ r.Steady depth := by
  simp [opening]

@[simp]
theorem steady_closing (tag : String) : (r.closing tag).Steady depth ↔ r.Steady depth := by
  simp [closing]

@[simp]
theorem steady_layout (s : String) : (r.layout s).Steady depth ↔ r.Steady depth := by
  simp [layout]

@[simp]
theorem steady_raw (t : Text) : (r.raw t).Steady depth ↔ r.Steady depth := by
  simp [raw]

@[simp]
theorem steady_text (t : Text) : (r.text t).Steady depth ↔ r.Steady depth := by
  simp [text]

@[simp]
theorem steady_piece (piece : Html.Piece) : (r.piece piece).Steady depth ↔ r.Steady depth := by
  simp [Rendering.piece]

@[simp]
theorem steady_insidePre (insidePre : Bool) :
    ({ r with insidePre } : Rendering).Steady depth ↔ r.Steady depth :=
  ⟨fun h => ⟨h.shade, h.isClean⟩, fun h => ⟨h.shade, h.isClean⟩⟩

@[simp]
theorem steady_diagramCounts (diagramCounts : DiagramCounts) :
    ({ r with diagramCounts } : Rendering).Steady depth ↔ r.Steady depth :=
  ⟨fun h => ⟨h.shade, h.isClean⟩, fun h => ⟨h.shade, h.isClean⟩⟩

@[simp]
theorem steady_diagrams (diagrams : List DiagramRequest) :
    ({ r with diagrams } : Rendering).Steady depth ↔ r.Steady depth :=
  ⟨fun h => ⟨h.shade, h.isClean⟩, fun h => ⟨h.shade, h.isClean⟩⟩

@[simp]
theorem steady_closeParagraph (way : Way) :
    (r.closeParagraph way).Steady depth ↔ r.Steady depth := by
  simp [closeParagraph]

@[simp]
theorem steady_reopenParagraph (way : Way) :
    (r.reopenParagraph way).Steady depth ↔ r.Steady depth := by
  simp [reopenParagraph]

@[simp]
theorem steady_writeCode (request : CodeRequest) :
    (r.writeCode context request).Steady depth ↔ r.Steady depth := by
  have hshade (actions : List CodeAction) (page : Html.Page) :
      (actions.foldl writeAction page).shade = page.shade := by
    induction actions generalizing page with
    | nil => rfl
    | cons action actions ih => rw [List.foldl_cons, ih, Html.Page.shade_writeAction]
  constructor
  · exact fun h => ⟨(hshade _ _).symm.trans h.shade, h.isClean⟩
  · exact fun h => ⟨(hshade _ _).trans h.shade, h.isClean⟩

namespace Steady

theorem report (h : r.Steady depth) {problem : Problem} (subject : Option Text)
    (hproblem : problem.code.isInternal = false) :
    (r.report context problem subject).Steady depth :=
  ⟨h.shade, List.forall_mem_cons.2 ⟨hproblem, h.isClean⟩⟩

theorem hide (h : r.Steady depth) : (r.onPage (·.hide)).Steady (depth + 1) :=
  ⟨Html.Page.shade_hide h.shade, h.isClean⟩

theorem unhide (h : r.Steady depth) : (r.onPage (·.unhide)).Steady (depth - 1) :=
  ⟨Html.Page.shade_unhide h.shade, h.isClean⟩

/-! ### Leaves -/

theorem writeDiagram (h : r.Steady depth) (kind : DiagramKind) (name : Text)
    (input : DiagramInput) (relPath : Text) :
    (r.writeDiagram context kind name input relPath).Steady depth := by
  unfold Rendering.writeDiagram
  dsimp only
  split
  · exact Steady.report ((steady_diagrams _).2 h) _ rfl
  · simpa using h

theorem block (h : r.Steady depth) {write : Rendering → Rendering}
    (hwrite : ∀ r : Rendering, r.Steady depth → (write r).Steady depth) :
    (r.block way write).Steady depth :=
  (steady_reopenParagraph way).2 (hwrite _ ((steady_closeParagraph way).2 h))

theorem codeFragment (h : r.Steady depth) (request : CodeRequest) :
    (r.codeFragment context request).Steady depth := by
  simpa [Rendering.codeFragment] using h

theorem fragment (h : r.Steady depth) (t : Text) : (r.fragment t).Steady depth := by
  simpa [Rendering.fragment] using h

theorem styleChange (h : r.Steady depth) (change : StyleChange) :
    (r.styleChange way change).Steady depth := by
  unfold Rendering.styleChange
  split <;> simpa using h

theorem inlineDiagram (h : r.Steady depth) (kind : DiagramKind) (series className : String)
    (source : Text) : (r.inlineDiagram context way kind series className source).Steady depth := by
  refine h.block fun r h => ?_
  simp only [steady_layout, steady_closing]
  apply writeDiagram
  simpa using h

theorem verbatim (h : r.Steady depth) (v : Verbatim) :
    (r.verbatim context way v).Steady depth := by
  unfold Rendering.verbatim
  split
  case h_1 => exact h.block fun _ h => h.codeFragment _
  case h_2 => exact h.block fun _ h => h.fragment _
  case h_3 =>
    split
    · exact h.block fun _ h => (steady_raw _).2 h
    · exact (steady_raw _).2 h
  case h_9 | h_10 | h_11 => exact h.inlineDiagram ..
  all_goals exact h

theorem inclusion (h : r.Steady depth) (i : Inclusion) :
    (r.inclusion context way i).Steady depth := by
  unfold Rendering.inclusion
  dsimp only
  split
  case h_4 | h_5 => exact h
  case h_6 => exact (steady_raw _).2 h
  case h_7 => exact h.block fun _ h => h.fragment _
  all_goals exact h.block fun _ h => h.codeFragment _

theorem formulaBody (h : r.Steady depth) (f : Formula) : (r.formulaBody context f).Steady depth := by
  simpa [Rendering.formulaBody] using h

theorem formula (h : r.Steady depth) (f : Formula) : (r.formula context way f).Steady depth := by
  unfold Rendering.formula
  split
  · exact h.formulaBody f
  · refine h.block fun r h => ?_
    simp only [steady_layout, steady_closing]
    apply formulaBody
    simpa using h

theorem indexEntry (h : r.Steady depth) (e : IndexEntry) : (r.indexEntry e).Steady depth := by
  have hshade (p : Html.Page) (item : Html.IndexItem) : (p.addIndexItem item).shade = p.shade := rfl
  simpa [Rendering.indexEntry, hshade] using h

/-- A leaf that is no include step leaves the page as hidden as it was. -/
theorem shownLeaf (h : r.Steady depth) {content : Content} (hstep : content.kind ≠ .includeStep)
    (hsymbol : ∀ name, content = .symbol name → Symbol.isKnown name) :
    (r.shownLeaf context way content).Steady depth := by
  cases content with
  | includeStep step => exact absurd rfl hstep
  | symbol name =>
      obtain ⟨symbol, hfound⟩ := Option.isSome_iff_exists.1 (hsymbol name rfl)
      simp only [Rendering.shownLeaf, hfound]
      exact (steady_piece _).2 h
  | verbatim v => exact h.verbatim v
  | inclusion i => exact h.inclusion i
  | formula f => exact h.formula f
  | styleChange change => exact h.styleChange change
  | indexEntry e => exact h.indexEntry e
  | ruler =>
      refine h.block fun r h => (steady_onPage fun p => ?_).2 h
      simp [Html.Page.writeRuler]
  | word | linkedWord | whiteSpace | url | anchor | separator | lineBreak | citation =>
      simpa [Rendering.shownLeaf, Html.Page.lineBreak]
        using h
  | _ => exact h

theorem leaf (h : r.Steady depth) {content : Content} (hstep : content.kind ≠ .includeStep)
    (hsymbol : ∀ name, content = .symbol name → Symbol.isKnown name) :
    (r.leaf context way content).Steady depth := by
  unfold Rendering.leaf
  split
  · exact h
  · exact h.shownLeaf hstep hsymbol

end Steady

/-! ### Steps through an included text -/

/-- Output is hidden no deeper than to some depth. -/
def Within (r : Rendering) (shown : Nat) : Prop := ∃ depth ≤ shown, r.Steady depth

theorem Within.steady {r : Rendering} (h : r.Within 0) : r.Steady 0 := by
  obtain ⟨depth, hdepth, h⟩ := h
  rwa [Nat.le_zero.1 hdepth] at h

theorem Within.beginSteps {shown : Nat} {isOpen : Bool} (h : r.Within (shown + isOpen.toNat))
    (step : IncludeStep) (hfirst : isOpen → step.isFirst = false) :
    (if step.isFirst then (r.onPage (·.startCodeFragment)).onPage (·.hide) else r).Within
      (shown + 1) := by
  obtain ⟨depth, hdepth, h⟩ := h
  split
  next hisFirst =>
      have hclosed : isOpen = false := by
        by_contra hopen
        simp [hfirst (by simpa using hopen)] at hisFirst
      rw [hclosed, Bool.toNat_false] at hdepth
      refine ⟨depth + 1, by omega, Steady.hide ?_⟩
      simpa using h
  next =>
      have := isOpen.toNat_le
      exact ⟨depth, by omega, h⟩

/-- A run of steps stays hidden behind a step that shows its text. -/
theorem Within.showStep {shown : Nat} (h : r.Within (shown + 1)) (request : CodeRequest) :
    ((if (r.onPage (·.unhide)).page.hidden then r.onPage (·.unhide)
      else (r.onPage (·.unhide)).writeCode context request).onPage (·.hide)).Within
      (shown + 1) := by
  obtain ⟨depth, hdepth, h⟩ := h
  refine ⟨depth - 1 + 1, by omega, Steady.hide ?_⟩
  simpa using h.unhide

/-- A step through an included text hides output no deeper than a run of steps may. -/
theorem Within.includeStep {shown : Nat} {isOpen : Bool} (h : r.Within (shown + isOpen.toNat))
    (step : IncludeStep) (hfirst : isOpen → step.isFirst = false) :
    (r.includeStep context step).Within (shown + (!step.isLast).toNat) := by
  have hbegun := h.beginSteps step hfirst
  unfold Rendering.includeStep
  dsimp only
  generalize (if step.isFirst then _ else r : Rendering) = r at hbegun ⊢
  have hwritten : (if step.operator == .skip then r
        else (if (r.onPage (·.unhide)).page.hidden then r.onPage (·.unhide)
          else (r.onPage (·.unhide)).writeCode context
            { language := context.language
              code := step.text
              origin := step.origin
              showLineNumbers := false }).onPage (·.hide)).Within (shown + 1) := by
    split
    · exact hbegun
    · exact hbegun.showStep _
  obtain ⟨depth, hdepth, h⟩ := hwritten
  cases hlast : step.isLast with
  | true =>
      refine ⟨depth - 1, by simp; omega, ?_⟩
      simpa using h.unhide
  | false => exact ⟨depth, hdepth, by simpa using h⟩

/-! ### Composite nodes -/

@[simp]
theorem steady_breakUnless (preformatted : Bool) :
    (r.breakUnless preformatted).Steady depth ↔ r.Steady depth := by
  simp [breakUnless]

@[simp]
theorem steady_tagged (tag : String) (attributes : Attributes) :
    (r.tagged tag attributes).Steady depth ↔ r.Steady depth := steady_opening ..

@[simp]
theorem steady_taggedOr (tag className : String) (attributes : Attributes) :
    (r.taggedOr tag className attributes).Steady depth ↔ r.Steady depth := steady_opening ..

@[simp]
theorem steady_xrefItemStart (x : XRefItem) :
    (r.xrefItemStart context x).Steady depth ↔ r.Steady depth := by
  simp [xrefItemStart]

@[simp]
theorem steady_imageTag (i : Image) : (r.imageTag i).Steady depth ↔ r.Steady depth := by
  simp [imageTag]

@[simp]
theorem steady_captionStart (hasCaption : Bool) :
    (r.captionStart hasCaption).Steady depth ↔ r.Steady depth := by
  simp [captionStart]

@[simp]
theorem steady_simpleSectionStart (type : SimpleSectionType) (hasTitle : Bool) :
    (r.simpleSectionStart context type hasTitle).Steady depth ↔ r.Steady depth := by
  unfold simpleSectionStart
  cases Label.ofSimpleSection? type <;> simp

@[simp]
theorem steady_paramSectionStart (type : ParamSectionType) :
    (r.paramSectionStart context type).Steady depth ↔ r.Steady depth := by
  simp [paramSectionStart]

theorem Steady.diagramStart (h : r.Steady depth) (d : DiagramFile) :
    (r.diagramStart context d).Steady depth := by
  unfold Rendering.diagramStart
  dsimp only
  split
  · simpa using h
  · apply writeDiagram
    simpa using h

theorem Steady.name (h : r.Steady depth) {name : Node} (hname : name.kind.isName) :
    (r.leaf context way name.content).Steady depth := by
  refine h.leaf ?_ ?_
  · intro hstep
    rw [Node.kind, hstep] at hname
    cases hname
  · intro symbol hsymbol
    rw [Node.kind, hsymbol] at hname
    cases hname

theorem Steady.nameCell (h : r.Steady depth) (className separator : String) {names : List Node}
    (hnames : ∀ name ∈ names, name.kind.isName) :
    (r.nameCell context way className separator names).Steady depth := by
  unfold Rendering.nameCell
  refine (steady_closing _).2 (List.foldlRecOn (motive := (Steady · depth)) _ _ ?_ ?_)
  · simpa using h
  · rintro r h ⟨name, index⟩ hmem
    refine Steady.name ?_ (hnames name (List.fst_mem_of_mem_zipIdx hmem))
    simpa using h

theorem Steady.paramListStart (h : r.Steady depth) (list : ParamList) {types names : List Node}
    (htypes : ∀ type ∈ types, type.kind.isName) (hnames : ∀ name ∈ names, name.kind.isName) :
    (r.paramListStart context way list types names).Steady depth := by
  unfold Rendering.paramListStart
  refine (steady_opening ..).2 (Steady.nameCell ?_ _ _ hnames)
  split
  all_goals
    split
    · refine Steady.nameCell ?_ _ _ htypes
      simpa using h
    · simpa using h

/-- Nodes that hide what is below them. -/
def hidesBelow (context : RenderContext) : Content → Bool
  | .internal => !context.settings.internalDocs
  | .image i => i.type != .html
  | _ => false

theorem Steady.enter {n : Node} (h : r.Steady depth) (hn : n.Conforms) :
    (r.enter context way n).Steady (depth + (hidesBelow context n.content).toNat) := by
  unfold Rendering.enter
  obtain ⟨content, flags, types, heads, children⟩ := n
  dsimp only [Node.content, Node.children, Node.heads, Node.types]
  cases content with
  | internal =>
      cases hinternal : context.settings.internalDocs with
      | true => simpa [hidesBelow, hinternal] using h
      | false => simpa [hidesBelow, hinternal] using h.hide
  | image i =>
      cases hother : i.type != .html with
      | true => simpa [hidesBelow, hother] using h.hide
      | false => simpa [hidesBelow, hother] using h
  | diagramFile d =>
      simp only [hidesBelow, Bool.toNat_false, Nat.add_zero, steady_captionStart]
      exact Steady.diagramStart ((steady_closeParagraph way).2 h) d
  | paramList list =>
      refine h.paramListStart list (fun type htype => (hn.types type htype).2) ?_
      exact fun name hname => hn.heads name hname
  | _ => simpa [hidesBelow] using h

theorem Steady.leave {n : Node} (h : r.Steady depth) :
    (r.leave context way n).Steady (depth - (hidesBelow context n.content).toNat) := by
  unfold Rendering.leave
  obtain ⟨content, flags, types, heads, children⟩ := n
  dsimp only [Node.content, Node.children]
  cases content with
  | internal =>
      cases hinternal : context.settings.internalDocs with
      | true => simpa [hidesBelow, hinternal] using h
      | false => simpa [hidesBelow, hinternal] using h.unhide
  | image i =>
      cases hother : i.type != .html with
      | true => simpa [hidesBelow, hother] using h.unhide
      | false => simpa [hidesBelow, hother] using h
  | _ => simpa [hidesBelow] using h

/-! ### Trees -/

theorem Within.enter (context : RenderContext) (way : Way) {n : Node} {shown : Nat}
    (h : r.Within shown) (hn : n.Conforms) :
    (r.enter context way n).Within (shown + (hidesBelow context n.content).toNat) := by
  obtain ⟨depth, hdepth, h⟩ := h
  exact ⟨depth + _, by omega, h.enter hn⟩

theorem Within.leave {n : Node} {shown : Nat}
    (h : r.Within (shown + (hidesBelow context n.content).toNat)) :
    (r.leave context way n).Within shown := by
  obtain ⟨depth, hdepth, h⟩ := h
  exact ⟨depth - _, by omega, h.leave⟩

theorem node_leaf {n : Node} (hn : n.kind.isComposite = false) :
    node context way r n = r.leaf context way n.content := by
  obtain ⟨content, flags, types, heads, children⟩ := n
  rw [Rendering.node, if_pos]
  · rfl
  · simpa [Node.kind, Node.content] using hn

theorem node_includeStep {n : Node} {step : IncludeStep} (hn : n.content = .includeStep step) :
    node context way r n = r.includeStep context step := by
  rw [node_leaf (by rw [Node.kind, hn]; rfl), hn]
  simp [Content.kind, leaf, shownLeaf]

/-- The place of a node below another. -/
def placeBelow (n : Node) (index : Option Nat) : Place where
  above := n.content
  siblings := n.children.map Node.content
  index := index

/-- What is written between the two parts of a composite node. -/
def below (context : RenderContext) (way : Way) (r : Rendering) (n : Node) : Rendering :=
  let r :=
    if n.kind == .paramList then r
    else nodes context (fun _ => placeBelow n none :: way) 0 r n.heads
  nodes context (fun index => placeBelow n (some index) :: way) 0 r n.children

theorem node_composite {n : Node} (hn : n.kind.isComposite) :
    node context way r n =
      (below context way (r.enter context way n) n).leave context way n := by
  obtain ⟨content, flags, types, heads, children⟩ := n
  rw [Rendering.node, if_neg]
  · rfl
  · simpa [Node.kind, Node.content] using hn

/-- The tree does not leave output hidden deeper than it was in front of it. -/
def ShowsAgain (context : RenderContext) (n : Node) : Prop :=
  ∀ {way : Way} {r : Rendering} {shown : Nat}, r.Within shown → (node context way r n).Within shown

/-- Some nodes hide output no deeper than a run of include steps may that is open behind them. -/
theorem Within.nodes {shown : Nat} {before nodes : List Node} {isOpen : Bool} {place : Nat → Way}
    {index : Nat} (h : r.Within (shown + isOpen.toNat)) (hbefore : runOpen? before = some isOpen)
    (hruns : runOpen? (nodes.reverse ++ before) = some false)
    (hnodes : ∀ n ∈ nodes, n.kind ≠ .includeStep → ShowsAgain context n) :
    (Rendering.nodes context place index r nodes).Within shown := by
  induction nodes generalizing r before isOpen index with
  | nil =>
      obtain rfl : isOpen = false := Option.some.inj (hbefore.symm.trans hruns)
      exact h
  | cons n rest ih =>
      obtain ⟨hn, hrest⟩ := List.forall_mem_cons.1 hnodes
      rw [List.reverse_cons, List.append_assoc, List.singleton_append] at hruns
      obtain ⟨isOpen', hopen⟩ := Node.exists_runOpen?_of_append hruns
      refine ih ?_ hopen hruns hrest
      by_cases hstep : n.kind = .includeStep
      · obtain ⟨step, hcontent⟩ := Node.exists_includeStep hstep
        rw [Node.runOpen?_includeStep hcontent, hbefore, Option.bind_some] at hopen
        rw [node_includeStep hcontent]
        split at hopen
        next => cases hopen
        next hfirst =>
            obtain rfl := Option.some.inj hopen
            exact h.includeStep step (by simpa using hfirst)
      · rw [Node.runOpen?_same hstep hbefore hopen]
        exact hn hstep h

theorem Within.heads {shown : Nat} {n : Node} {place : Nat → Way} {index : Nat}
    (h : r.Within shown) (hn : n.Conforms)
    (hheads : ∀ head ∈ n.heads, head.kind ≠ .includeStep → ShowsAgain context head) :
    (Rendering.nodes context place index r n.heads).Within shown := by
  have hnone : runOpen? [] = some false := rfl
  have h : r.Within (shown + false.toNat) := h
  refine Within.nodes h hnone (Node.runOpen?_append ?_ hnone) hheads
  exact fun head hhead => (hn.head_kind (List.mem_reverse.1 hhead)).2

/-- The trees below a node leave output hidden no deeper than it was in front of them. -/
theorem Within.below {shown : Nat} {n : Node} (h : r.Within shown) (hn : n.Proper)
    (hparts : ∀ part ∈ n.parts, part.kind ≠ .includeStep → ShowsAgain context part) :
    (below context way r n).Within shown := by
  have hnone : runOpen? [] = some false := rfl
  have hruns : runOpen? (n.children.reverse ++ []) = some false :=
    (List.append_nil _).symm ▸ hn.runs
  refine Within.nodes ?_ hnone hruns ?_
  · split
    · exact h
    · exact h.heads hn.toConforms fun head hhead =>
        hparts head (Node.mem_parts.2 (.inr (.inl hhead)))
  · exact fun child hchild => hparts child (Node.mem_parts.2 (.inr (.inr hchild)))

/-- A tree leaves output hidden no deeper than it was in front of it. -/
theorem showsAgain {n : Node} (hn : n.Everywhere Node.Proper) (hstep : n.kind ≠ .includeStep) :
    ShowsAgain context n := by
  induction n using Node.part_induct with
  | node n ih =>
      intro way r shown h
      cases hcomposite : n.kind.isComposite with
      | false =>
          obtain ⟨depth, hdepth, h⟩ := h
          rw [node_leaf hcomposite]
          exact ⟨depth, hdepth, h.leaf hstep hn.here.symbol⟩
      | true =>
          rw [node_composite hcomposite]
          have hentered := h.enter context way hn.here.toConforms
          exact (hentered.below hn.here fun part hpart => ih part hpart (hn.part hpart)).leave

theorem Steady.hideStack (h : r.Steady 0) : r.page.hideStack = [] := congrArg Prod.snd h.shade

theorem Steady.html (h : r.Steady 0) : r.html = .ok r.page.contents := by
  have hshown : r.page.hidden = false := congrArg Prod.fst h.shade
  rw [Rendering.html, hshown]
  rfl

/-- The whole of a document is shown. -/
theorem document_steady (context : RenderContext) (relPath : Text) (diagramCounts : DiagramCounts)
    (way : Way) {n : Node} (hn : n.Everywhere Node.Proper) (hstep : n.kind ≠ .includeStep) :
    (document context relPath diagramCounts way n).Steady 0 :=
  (showsAgain hn hstep ⟨0, le_rfl, rfl, by simp [start]⟩).steady

end Rendering

end DocMarkup
