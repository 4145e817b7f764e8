import DocMarkup.Proofs.Doc.Linking
import DocMarkup.Proofs.Doc.Runs
import DocMarkup.Proofs.Render.Hiding
import DocMarkup.Render.Linked

/-!
Hidden output is inert.  A tree leaves the page as hidden as it was, and while output is hidden
nothing happens at all: nothing is written, asked for, counted or reported.  What is below a node
that hides it therefore makes no difference to a document.
-/

namespace DocMarkup

namespace Node

/-- Steps through an included text stand among the children of paragraphs only, in bracketed
runs. -/
structure Bracketed (n : Node) : Prop where
  runs : n.kind = .paragraph → InRuns false n.children
  elsewhere : n.kind ≠ .paragraph → ∀ child ∈ n.children, child.kind ≠ .includeStep
  heads : ∀ head ∈ n.heads, head.kind ≠ .includeStep
  types : ∀ type ∈ n.types, type.kind ≠ .includeStep

instance : DecidablePred Bracketed := fun n =>
  decidable_of_iff
    ((n.kind = .paragraph → InRuns false n.children) ∧
      (n.kind ≠ .paragraph → ∀ child ∈ n.children, child.kind ≠ .includeStep) ∧
      (∀ head ∈ n.heads, head.kind ≠ .includeStep) ∧
      ∀ type ∈ n.types, type.kind ≠ .includeStep)
    ⟨fun ⟨runs, elsewhere, heads, types⟩ => ⟨runs, elsewhere, heads, types⟩,
      fun h => ⟨h.runs, h.elsewhere, h.heads, h.types⟩⟩

/-- The grammar lets steps stand in paragraphs only. -/
theorem Conforms.bracketed {n : Node} (h : n.Conforms)
    (hruns : n.kind = .paragraph → InRuns false n.children) : n.Bracketed where
  runs := hruns
  elsewhere := fun hkind _ hchild => h.child_kind hchild hkind
  heads := fun _ hhead => (h.head_kind hhead).2
  types := by
    intro type htype hstep
    have hname := (h.types type htype).2
    rw [hstep] at hname
    cases hname

theorem Bracketed.inRuns {n : Node} (h : n.Bracketed) : InRuns false n.children := by
  by_cases hkind : n.kind = .paragraph
  · exact h.runs hkind
  · exact inRuns_of_no_step (h.elsewhere hkind)

end Node

namespace Html.Page

variable {p : Page}

theorem put_of_hidden (h : p.hidden) (piece : Piece) : p.put piece = p := if_pos h

@[simp]
theorem unhide_hide (p : Page) : p.hide.unhide = p := rfl

theorem startSection_of_hidden (h : p.hidden) (anchor : Text) (level : Number) :
    p.startSection anchor level = p := by
  simp [startSection, putOpening, writeAnchor, putClosing, putLayout, put_of_hidden h]

theorem endSection_of_hidden (h : p.hidden) (level : Number) : p.endSection level = p := by
  simp [endSection, putClosing, putLayout, put_of_hidden h]

theorem endParagraph_of_hidden (h : p.hidden) : p.endParagraph = p := by
  simp [endParagraph, putClosing, putLayout, put_of_hidden h]

end Html.Page

namespace Rendering

variable {context : RenderContext} {way : Way} {r r' r'' : Rendering}

/-- From one rendering to another: output is as hidden as before, and if it is hidden nothing
happened. -/
structure Quiet (r r' : Rendering) : Prop where
  shade : r'.page.shade = r.page.shade
  inert : r.page.hidden → r' = r

namespace Quiet

theorem refl (r : Rendering) : r.Quiet r := ⟨rfl, fun _ => rfl⟩

theorem hidden (h : r.Quiet r') : r'.page.hidden = r.page.hidden := congrArg Prod.fst h.shade

theorem trans (h : r.Quiet r') (h' : r'.Quiet r'') : r.Quiet r'' where
  shade := h'.shade.trans h.shade
  inert := by
    intro hhidden
    obtain rfl := h.inert hhidden
    exact h'.inert hhidden

theorem of_shown (hshown : r.page.hidden = false) (h : r'.page.shade = r.page.shade) :
    r.Quiet r' := by
  refine ⟨h, ?_⟩
  intro hhidden
  exact absurd (hshown.symm.trans hhidden) nofun

end Quiet

/-! ### Writing -/

theorem quiet_onPage {f : Html.Page → Html.Page} (hshade : ∀ p, (f p).shade = p.shade)
    (hhidden : ∀ p, p.hidden → f p = p) : r.Quiet (r'.onPage f) ↔ r.Quiet r' := by
  have hwrite : r'.Quiet (r'.onPage f) := by
    refine ⟨hshade r'.page, fun h => ?_⟩
    rw [onPage, hhidden r'.page h]
  constructor
  · intro h
    have hback : r.page.shade = r'.page.shade := h.shade.symm.trans hwrite.shade
    refine ⟨hback.symm, fun hhide => ?_⟩
    have hhide' : r'.page.hidden := (congrArg Prod.fst hback).symm.trans hhide
    exact (hwrite.inert hhide').symm.trans (h.inert hhide)
  · exact fun h => h.trans hwrite

@[simp]
theorem quiet_piece (piece : Html.Piece) : r.Quiet (r'.piece piece) ↔ r.Quiet r' :=
  quiet_onPage (fun p => p.shade_put piece) fun _ h => Html.Page.put_of_hidden h piece

@[simp]
theorem quiet_opening (tag : String) (attributes : Text) :
    r.Quiet (r'.opening tag attributes) ↔ r.Quiet r' := quiet_piece ..

@[simp]
theorem quiet_closing (tag : String) : r.Quiet (r'.closing tag) ↔ r.Quiet r' := quiet_piece ..

@[simp] theorem quiet_layout (s : String) : r.Quiet (r'.layout s) ↔ r.Quiet r' := quiet_piece ..

@[simp] theorem quiet_raw (t : Text) : r.Quiet (r'.raw t) ↔ r.Quiet r' := quiet_piece ..

@[simp] theorem quiet_text (t : Text) : r.Quiet (r'.text t) ↔ r.Quiet r' := quiet_piece ..

@[simp]
theorem quiet_startLink (target : Html.Page.LinkTarget) :
    r.Quiet (r'.onPage (·.startLink target)) ↔ r.Quiet r' :=
  quiet_onPage (fun p => p.shade_startLink target) fun _ h => Html.Page.put_of_hidden h _

@[simp]
theorem quiet_endLink : r.Quiet (r'.onPage (·.endLink)) ↔ r.Quiet r' := quiet_piece ..

@[simp]
theorem quiet_startParagraph (attributes : Text) :
    r.Quiet (r'.onPage (·.startParagraph attributes)) ↔ r.Quiet r' := quiet_piece ..

@[simp]
theorem quiet_endParagraph : r.Quiet (r'.onPage (·.endParagraph)) ↔ r.Quiet r' :=
  quiet_onPage Html.Page.shade_endParagraph fun _ => Html.Page.endParagraph_of_hidden

@[simp]
theorem quiet_startSection (anchor : Text) (level : Number) :
    r.Quiet (r'.onPage (·.startSection anchor level)) ↔ r.Quiet r' :=
  quiet_onPage (fun p => p.shade_startSection anchor level) fun _ h =>
    Html.Page.startSection_of_hidden h anchor level

@[simp]
theorem quiet_endSection (level : Number) :
    r.Quiet (r'.onPage (·.endSection level)) ↔ r.Quiet r' :=
  quiet_onPage (fun p => p.shade_endSection level) fun _ h =>
    Html.Page.endSection_of_hidden h level

@[simp]
theorem quiet_startCodeFragment : r.Quiet (r'.onPage (·.startCodeFragment)) ↔ r.Quiet r' :=
  quiet_piece ..

@[simp]
theorem quiet_ite (c : Prop) [Decidable c] (first second : Rendering) :
    r.Quiet (if c then first else second) ↔ if c then r.Quiet first else r.Quiet second := by
  split <;> rfl

@[simp]
theorem quiet_closeParagraph (way : Way) : r.Quiet (r'.closeParagraph way) ↔ r.Quiet r' := by
  simp [closeParagraph]

@[simp]
theorem quiet_reopenParagraph (way : Way) : r.Quiet (r'.reopenParagraph way) ↔ r.Quiet r' := by
  simp [reopenParagraph]

@[simp]
theorem quiet_breakUnless (preformatted : Bool) :
    r.Quiet (r'.breakUnless preformatted) ↔ r.Quiet r' := by
  simp [breakUnless]

@[simp]
theorem quiet_tagged (tag : String) (attributes : Attributes) :
    r.Quiet (r'.tagged tag attributes) ↔ r.Quiet r' := quiet_opening ..

@[simp]
theorem quiet_taggedOr (tag className : String) (attributes : Attributes) :
    r.Quiet (r'.taggedOr tag className attributes) ↔ r.Quiet r' := quiet_opening ..

/-! ### Leaves

Leaves may count, ask or report, but only while output is shown. -/

@[simp]
theorem shade_onPage {f : Html.Page → Html.Page} (hf : ∀ p, (f p).shade = p.shade) :
    (r.onPage f).page.shade = r.page.shade := hf r.page

@[simp]
theorem shade_opening (tag : String) (attributes : Text) :
    (r.opening tag attributes).page.shade = r.page.shade := Html.Page.shade_putOpening ..

@[simp]
theorem shade_closing (tag : String) : (r.closing tag).page.shade = r.page.shade :=
  Html.Page.shade_putClosing ..

@[simp] theorem shade_layout (s : String) : (r.layout s).page.shade = r.page.shade :=
  Html.Page.shade_putLayout ..

@[simp] theorem shade_raw (t : Text) : (r.raw t).page.shade = r.page.shade :=
  Html.Page.shade_putRaw ..

@[simp] theorem shade_text (t : Text) : (r.text t).page.shade = r.page.shade :=
  Html.Page.shade_putText ..

@[simp] theorem shade_piece (piece : Html.Piece) : (r.piece piece).page.shade = r.page.shade :=
  Html.Page.shade_put ..

@[simp]
theorem shade_report (problem : Problem) (subject : Option Text) :
    (r.report context problem subject).page.shade = r.page.shade := rfl

@[simp]
theorem shade_writeCode (request : CodeRequest) :
    (r.writeCode context request).page.shade = r.page.shade := by
  rw [writeCode]
  induction context.tools.highlight request generalizing r with
  | nil => rfl
  | cons action actions ih =>
      have hrest := ih (r := { r with page := writeAction r.page action })
      exact hrest.trans (Html.Page.shade_writeAction r.page action)

@[simp]
theorem shade_writeDiagram (kind : DiagramKind) (name : Text) (input : DiagramInput)
    (relPath : Text) :
    (r.writeDiagram context kind name input relPath).page.shade = r.page.shade := by
  unfold writeDiagram
  dsimp only
  split
  · rfl
  · repeat' split
    all_goals simp

@[simp]
theorem shade_block {write : Rendering → Rendering}
    (hwrite : ∀ r : Rendering, (write r).page.shade = r.page.shade) :
    (r.block way write).page.shade = r.page.shade := by
  unfold block reopenParagraph closeParagraph
  split <;> split <;> simp [hwrite]

@[simp]
theorem shade_codeFragment (request : CodeRequest) :
    (r.codeFragment context request).page.shade = r.page.shade := by
  simp [codeFragment]

@[simp]
theorem shade_fragment (t : Text) : (r.fragment t).page.shade = r.page.shade := by
  simp [fragment]

theorem shade_styleChange (change : StyleChange) :
    (r.styleChange way change).page.shade = r.page.shade := by
  unfold styleChange closeParagraph reopenParagraph
  dsimp only
  repeat' split
  all_goals simp

@[simp]
theorem shade_inlineDiagram (kind : DiagramKind) (series className : String) (source : Text) :
    (r.inlineDiagram context way kind series className source).page.shade = r.page.shade :=
  shade_block fun r => by simp

theorem shade_verbatim (v : Verbatim) :
    (r.verbatim context way v).page.shade = r.page.shade := by
  unfold verbatim
  split
  case h_3 => split <;> simp
  all_goals simp

theorem shade_inclusion (i : Inclusion) :
    (r.inclusion context way i).page.shade = r.page.shade := by
  unfold inclusion
  dsimp only
  split <;> simp

@[simp]
theorem shade_formulaBody (f : Formula) : (r.formulaBody context f).page.shade = r.page.shade := by
  unfold formulaBody
  split
  · split <;> simp
  · simp

theorem shade_formula (f : Formula) : (r.formula context way f).page.shade = r.page.shade := by
  unfold formula
  split <;> simp

/-- A leaf that is no include step leaves the page as hidden as it was. -/
theorem shade_shownLeaf {content : Content} (hstep : content.kind ≠ .includeStep) :
    (r.shownLeaf context way content).page.shade = r.page.shade := by
  cases content with
  | includeStep step => exact absurd rfl hstep
  | symbol name =>
      simp only [shownLeaf]
      split <;> simp
  | verbatim v => exact shade_verbatim v
  | inclusion i => exact shade_inclusion i
  | formula f => exact shade_formula f
  | styleChange change => exact shade_styleChange change
  | indexEntry e => exact Html.Page.shade_writeNamedAnchor ..
  | ruler => exact shade_block fun r => by simp [Html.Page.writeRuler]
  | citation c =>
      simp only [shownLeaf]
      split <;> simp
  | word | linkedWord | whiteSpace | url | anchor | separator | lineBreak =>
      simp [shownLeaf, Html.Page.lineBreak]
  | _ => rfl

/-- A leaf that is no include step is quiet. -/
theorem quiet_leaf {content : Content} (hstep : content.kind ≠ .includeStep) :
    r.Quiet (r.leaf context way content) := by
  unfold leaf
  split
  next => exact .refl r
  next hshown =>
      have hshown : r.page.hidden = false := by simpa [hstep] using hshown
      exact .of_shown hshown (shade_shownLeaf hstep)

/-! ### Runs of include steps -/

/-- A rendering behind some nodes, with a run of steps open or not: all is quiet, but for what an
open run hides. -/
def Behind (isOpen : Bool) (r r' : Rendering) : Prop :=
  ∃ r'', r.Quiet r'' ∧ r' = if isOpen then r''.onPage (·.hide) else r''

theorem Behind.hidden (h : Behind true r r') : r'.page.hidden := by
  obtain ⟨r'', -, rfl⟩ := h
  rfl

theorem onPage_unhide_hide (r : Rendering) : (r.onPage (·.hide)).onPage (·.unhide) = r := rfl

/-- A step closes the run it is the last of and leaves any other open. -/
theorem Behind.includeStep {isOpen : Bool} (h : Behind isOpen r r') {step : IncludeStep}
    (hfirst : step.isFirst = !isOpen) :
    Behind (!step.isLast) r (r'.includeStep context step) := by
  -- a step that is the first of its run opens the block before it is shown
  have hbegun : Behind true r
      (if step.isFirst then (r'.onPage (·.startCodeFragment)).onPage (·.hide) else r') := by
    cases isOpen with
    | true =>
        rw [if_neg (by simp [hfirst])]
        exact h
    | false =>
        rw [if_pos (by simp [hfirst])]
        obtain ⟨r'', hquiet, rfl⟩ := h
        exact ⟨_, (quiet_startCodeFragment ..).2 hquiet, rfl⟩
  obtain ⟨begun, hquiet, hbegun⟩ := hbegun
  have hshown (request : CodeRequest) :
      r.Quiet (if begun.page.hidden then begun else begun.writeCode context request) := by
    split
    next => exact hquiet
    next hhidden =>
        have hhidden : begun.page.hidden = false := by simpa using hhidden
        exact hquiet.trans (.of_shown hhidden (shade_writeCode request))
  unfold Rendering.includeStep
  simp only [hbegun, if_true, onPage_unhide_hide]
  have hwritten (request : CodeRequest) : ∃ written, r.Quiet written ∧
      (if step.operator == .skip then begun.onPage (·.hide)
        else (if begun.page.hidden then begun else begun.writeCode context request).onPage
          (·.hide)) = written.onPage (·.hide) := by
    split
    · exact ⟨begun, hquiet, rfl⟩
    · exact ⟨_, hshown request, rfl⟩
  obtain ⟨written, hquiet, hwritten⟩ := hwritten _
  rw [hwritten]
  cases step.isLast with
  | true =>
      refine ⟨written.onPage (·.endCodeFragment), ?_, rfl⟩
      refine (quiet_onPage Html.Page.shade_endCodeFragment fun p hp => ?_).2 hquiet
      simp [Html.Page.endCodeFragment, Html.Page.putClosing, Html.Page.putLayout,
        Html.Page.put_of_hidden hp]
  | false => exact ⟨written, hquiet, rfl⟩

/-- Nodes with their runs bracketed are quiet if each of them is. -/
theorem Behind.nodes {nodes : List Node} {isOpen : Bool} (hruns : InRuns isOpen nodes)
    {place : Nat → Way} {index : Nat} (h : Behind isOpen r r')
    (hnodes : ∀ n ∈ nodes, n.kind ≠ .includeStep →
      ∀ (way : Way) (r : Rendering), r.Quiet (node context way r n)) :
    r.Quiet (Rendering.nodes context place index r' nodes) := by
  induction hruns generalizing r' index with
  | nil =>
      obtain ⟨r'', hquiet, rfl⟩ := h
      exact hquiet
  | @step isOpen n rest step hn hfirst _ ih =>
      refine ih ?_ (List.forall_mem_cons.1 hnodes).2
      rw [node_includeStep hn]
      exact h.includeStep hfirst
  | @space isOpen n rest hn _ ih =>
      obtain ⟨hspace, hrest⟩ := List.forall_mem_cons.1 hnodes
      refine ih ?_ hrest
      have hquiet : r'.Quiet (node context (place index) r' n) := hspace (by simp [hn]) _ _
      cases isOpen with
      | true =>
          rw [hquiet.inert h.hidden]
          exact h
      | false =>
          obtain ⟨r'', hbefore, rfl⟩ := h
          exact ⟨_, hbefore.trans hquiet, rfl⟩
  | @other n rest hstep _ _ ih =>
      obtain ⟨hother, hrest⟩ := List.forall_mem_cons.1 hnodes
      obtain ⟨r'', hbefore, rfl⟩ := h
      exact ih ⟨_, hbefore.trans (hother hstep _ _), rfl⟩ hrest

/-! ### Composite nodes -/

theorem quiet_xrefItemStart (x : XRefItem) :
    r.Quiet (r'.xrefItemStart context x) ↔ r.Quiet r' := by
  simp [xrefItemStart]

theorem quiet_imageTag (i : Image) : r.Quiet (r'.imageTag i) ↔ r.Quiet r' := by
  simp [imageTag]

@[simp]
theorem quiet_captionStart (hasCaption : Bool) :
    r.Quiet (r'.captionStart hasCaption) ↔ r.Quiet r' := by
  simp [captionStart]

/-- A diagram kept in a file is drawn only if it is shown. -/
theorem quiet_diagramStart (d : DiagramFile) : r.Quiet (r.diagramStart context d) := by
  have hstart (className : String) : r.Quiet
      ((r.opening "div" (units (" class=\"" ++ className ++ "\""))).layout "\n") := by
    simpa using Quiet.refl r
  unfold diagramStart
  dsimp only
  split
  next => exact hstart _
  next hhidden => exact (hstart _).trans (.of_shown (by simpa using hhidden) (shade_writeDiagram ..))

theorem quiet_simpleSectionStart (type : SimpleSectionType) (hasTitle : Bool) :
    r.Quiet (r'.simpleSectionStart context type hasTitle) ↔ r.Quiet r' := by
  unfold simpleSectionStart
  cases Label.ofSimpleSection? type <;> simp

theorem quiet_paramSectionStart (type : ParamSectionType) :
    r.Quiet (r'.paramSectionStart context type) ↔ r.Quiet r' := by
  simp [paramSectionStart]

theorem Quiet.nameCell (h : r.Quiet r') (className separator : String) {names : List Node}
    (hnames : ∀ name ∈ names, name.kind ≠ .includeStep) :
    r.Quiet (r'.nameCell context way className separator names) := by
  unfold Rendering.nameCell
  refine (quiet_closing _).2 (List.foldlRecOn (motive := (r.Quiet ·)) _ _ ?_ ?_)
  · exact (quiet_opening ..).2 h
  · rintro r' h ⟨name, index⟩ hmem
    refine Quiet.trans ?_ (quiet_leaf (hnames name (List.fst_mem_of_mem_zipIdx hmem)))
    simpa using h

theorem quiet_paramListStart (list : ParamList) {types names : List Node}
    (htypes : ∀ type ∈ types, type.kind ≠ .includeStep)
    (hnames : ∀ name ∈ names, name.kind ≠ .includeStep) :
    r.Quiet (r.paramListStart context way list types names) := by
  unfold paramListStart
  refine (quiet_opening ..).2 (Quiet.nameCell ?_ _ _ hnames)
  split
  all_goals
    split
    · refine Quiet.nameCell ?_ _ _ htypes
      simpa using Quiet.refl r
    · simpa using Quiet.refl r

theorem enter_of_hidesBelow {n : Node} (h : hidesBelow context n.content) :
    r.enter context way n = r.onPage (·.hide) := by
  unfold enter
  cases hcontent : n.content <;> rw [hcontent] at h <;> simp_all [hidesBelow]

theorem leave_of_hidesBelow {n : Node} (h : hidesBelow context n.content) :
    r.leave context way n = r.onPage (·.unhide) := by
  unfold leave
  cases hcontent : n.content <;> rw [hcontent] at h <;> simp_all [hidesBelow]

theorem quiet_enter {n : Node} (hn : n.Bracketed)
    (hshown : hidesBelow context n.content = false) : r.Quiet (r.enter context way n) := by
  have hclosed : r.Quiet (r.closeParagraph way) := (quiet_closeParagraph way).2 (.refl r)
  unfold enter
  cases hcontent : n.content with
  | diagramFile d => exact (quiet_captionStart _).2 (hclosed.trans (quiet_diagramStart d))
  | paramList list => exact quiet_paramListStart list hn.types hn.heads
  | internal =>
      rw [hcontent] at hshown
      simp_all [hidesBelow, Quiet.refl]
  | image i =>
      rw [hcontent] at hshown
      simp_all [hidesBelow, quiet_imageTag]
  | _ =>
      simp [quiet_xrefItemStart, quiet_simpleSectionStart, quiet_paramSectionStart, Quiet.refl]

theorem quiet_leave {n : Node} (hshown : hidesBelow context n.content = false) :
    r.Quiet (r.leave context way n) := by
  unfold leave
  cases hcontent : n.content with
  | internal =>
      rw [hcontent] at hshown
      simp_all [hidesBelow, Quiet.refl]
  | image i =>
      rw [hcontent] at hshown
      simp_all [hidesBelow, Quiet.refl]
  | _ => simp [Quiet.refl]

/-! ### Trees -/

/-- What is below a node is quiet if every tree there is. -/
theorem quiet_below {n : Node} (hn : n.Bracketed)
    (hparts : ∀ part ∈ n.parts, part.kind ≠ .includeStep →
      ∀ (way : Way) (r : Rendering), r.Quiet (node context way r part)) : r.Quiet (below context way r n) := by
  have hheads : r.Quiet (if n.kind == .paramList then r
      else nodes context (fun _ => placeBelow n none :: way) 0 r n.heads) := by
    split
    · exact .refl r
    · refine Behind.nodes (Node.inRuns_of_no_step hn.heads) ⟨r, .refl r, rfl⟩ ?_
      exact fun head hhead => hparts head (Node.mem_parts.2 (.inr (.inl hhead)))
  refine Behind.nodes hn.inRuns ⟨_, hheads, rfl⟩ ?_
  exact fun child hchild => hparts child (Node.mem_parts.2 (.inr (.inr hchild)))

/-- A tree is quiet, whatever there is in it. -/
theorem quiet_node {n : Node} (hn : n.Everywhere Node.Bracketed) (hstep : n.kind ≠ .includeStep)
    (way : Way) (r : Rendering) : r.Quiet (node context way r n) := by
  induction n using Node.part_induct generalizing way r with
  | node n ih =>
      cases hcomposite : n.kind.isComposite with
      | false =>
          rw [node_leaf hcomposite]
          exact quiet_leaf hstep
      | true =>
          rw [node_composite hcomposite]
          have hbelow (r : Rendering) : r.Quiet (below context way r n) :=
            quiet_below hn.here fun part hpart hpartStep =>
              ih part hpart (hn.part hpart) hpartStep
          cases hhides : hidesBelow context n.content with
          | true =>
              rw [enter_of_hidesBelow hhides, leave_of_hidesBelow hhides,
                (hbelow _).inert rfl, onPage_unhide_hide]
              exact .refl r
          | false =>
              exact ((quiet_enter hn.here hhides).trans (hbelow _)).trans (quiet_leave hhides)

end Rendering

/-! ### What is seen of a tree -/

namespace Node

mutual
/-- A tree without what is below the nodes that hide it. -/
def shown (context : RenderContext) : Node → Node
  | .node content flags types heads children =>
    if Rendering.hidesBelow context content then .node content flags [] [] []
    else
      .node content flags (shownOf context types) (shownOf context heads)
        (shownOf context children)

/-- Some trees without what is below the nodes that hide it. -/
def shownOf (context : RenderContext) : List Node → List Node
  | [] => []
  | n :: rest => n.shown context :: shownOf context rest
end

variable {context : RenderContext}

theorem shownOf_eq_map (nodes : List Node) :
    shownOf context nodes = nodes.map (shown context) := by
  induction nodes with
  | nil => rfl
  | cons n rest ih => rw [shownOf, ih, List.map_cons]

theorem shown_of_hidesBelow {n : Node} (h : Rendering.hidesBelow context n.content) :
    n.shown context = .node n.content n.flags [] [] [] := by
  obtain ⟨content, flags, types, heads, children⟩ := n
  exact if_pos h

theorem shown_of_not_hidesBelow {n : Node} (h : Rendering.hidesBelow context n.content = false) :
    n.shown context = .node n.content n.flags (n.types.map (shown context))
      (n.heads.map (shown context)) (n.children.map (shown context)) := by
  obtain ⟨content, flags, types, heads, children⟩ := n
  have h : Rendering.hidesBelow context content = false := h
  rw [shown, if_neg (by simp [h]), shownOf_eq_map, shownOf_eq_map, shownOf_eq_map]
  rfl

@[simp]
theorem content_shown (n : Node) : (n.shown context).content = n.content := by
  cases hhides : Rendering.hidesBelow context n.content with
  | true => rw [shown_of_hidesBelow hhides, content]
  | false => rw [shown_of_not_hidesBelow hhides, content]

theorem map_content_shown (nodes : List Node) :
    (nodes.map (shown context)).map content = nodes.map content := by
  simp

/-- What is seen of a tree is a matter of the settings. -/
theorem shown_settings (context : RenderContext) (n : Node) :
    n.shown context = n.shown { settings := context.settings } := by
  have hhides (content : Content) :
      Rendering.hidesBelow { settings := context.settings } content =
        Rendering.hidesBelow context content := by
    cases content <;> rfl
  induction n using part_induct with
  | node n ih =>
      cases hbelow : Rendering.hidesBelow context n.content with
      | true =>
          rw [shown_of_hidesBelow hbelow, shown_of_hidesBelow ((hhides _).trans hbelow)]
      | false =>
          rw [shown_of_not_hidesBelow hbelow, shown_of_not_hidesBelow ((hhides _).trans hbelow)]
          congr 1 <;> refine List.map_congr_left fun part hpart => ih part (mem_parts.2 ?_)
          · exact .inl hpart
          · exact .inr (.inl hpart)
          · exact .inr (.inr hpart)

section Seen

variable {n : Node} (h : Rendering.hidesBelow context n.content = false)
include h

theorem flags_shown : (n.shown context).flags = n.flags := by
  rw [shown_of_not_hidesBelow h, flags]

theorem types_shown : (n.shown context).types = n.types.map (shown context) := by
  rw [shown_of_not_hidesBelow h, types]

theorem heads_shown : (n.shown context).heads = n.heads.map (shown context) := by
  rw [shown_of_not_hidesBelow h, heads]

theorem children_shown : (n.shown context).children = n.children.map (shown context) := by
  rw [shown_of_not_hidesBelow h, children]

end Seen

end Node

namespace Rendering

variable {context : RenderContext} {way : Way} {r : Rendering}

theorem nameCell_map_shown (className separator : String) (names : List Node) :
    r.nameCell context way className separator (names.map (Node.shown context)) =
      r.nameCell context way className separator names := by
  simp [nameCell, List.zipIdx_map, List.foldl_map]

/-- What is below the nodes that hide it makes no difference to what stands around a node's
parts. -/
theorem enter_shown {n : Node} (hshown : hidesBelow context n.content = false) :
    r.enter context way (n.shown context) = r.enter context way n := by
  simp only [enter, paramListStart, nameCell_map_shown, Node.content_shown, Node.flags_shown hshown,
    Node.types_shown hshown, Node.heads_shown hshown, Node.children_shown hshown,
    Node.map_content_shown, List.isEmpty_map]

theorem leave_shown {n : Node} (hshown : hidesBelow context n.content = false) :
    r.leave context way (n.shown context) = r.leave context way n := by
  simp only [leave, Node.content_shown, Node.flags_shown hshown, Node.children_shown hshown,
    Node.map_content_shown, List.isEmpty_map]

theorem nodes_map_shown {nodes : List Node} {place : Nat → Way} {index : Nat}
    (hnodes : ∀ n ∈ nodes, ∀ (way : Way) (r : Rendering),
      node context way r (n.shown context) = node context way r n) :
    Rendering.nodes context place index r (nodes.map (Node.shown context)) =
      Rendering.nodes context place index r nodes := by
  induction nodes generalizing r index with
  | nil => rfl
  | cons n rest ih =>
      obtain ⟨hn, hrest⟩ := List.forall_mem_cons.1 hnodes
      rw [List.map_cons, Rendering.nodes, Rendering.nodes, hn, ih hrest]

/-- A node that hides what is below it renders to nothing. -/
theorem node_of_hidesBelow {n : Node} (hn : n.Everywhere Node.Bracketed)
    (hhides : hidesBelow context n.content) : node context way r n = r := by
  have hcomposite : n.kind.isComposite := by
    unfold Node.kind
    cases hcontent : n.content <;> rw [hcontent] at hhides <;> first
      | rfl
      | cases hhides
  have hbelow : (r.onPage (·.hide)).Quiet (below context way (r.onPage (·.hide)) n) :=
    quiet_below hn.here fun part hpart hstep => quiet_node (hn.part hpart) hstep
  rw [node_composite hcomposite, enter_of_hidesBelow hhides, leave_of_hidesBelow hhides,
    hbelow.inert rfl, onPage_unhide_hide]

/-- A tree renders as what is seen of it does. -/
theorem node_shown {n : Node} (hn : n.Everywhere Node.Bracketed) (way : Way) (r : Rendering) :
    node context way r (n.shown context) = node context way r n := by
  induction n using Node.part_induct generalizing way r with
  | node n ih =>
      have hkind : (n.shown context).kind = n.kind := congrArg Content.kind (n.content_shown)
      cases hhides : hidesBelow context n.content with
      | true =>
          have hempty : (n.shown context).Everywhere Node.Bracketed := by
            rw [Node.shown_of_hidesBelow hhides, Node.everywhere_iff]
            refine ⟨⟨fun _ => .nil, ?_, ?_, ?_⟩, ?_⟩ <;> nofun
          have hshown : hidesBelow context (n.shown context).content := by
            rwa [Node.content_shown]
          rw [node_of_hidesBelow hn hhides, node_of_hidesBelow hempty hshown]
      | false =>
          cases hcomposite : n.kind.isComposite with
          | false =>
              rw [node_leaf hcomposite, node_leaf (hkind ▸ hcomposite), Node.content_shown]
          | true =>
              have hparts : ∀ part ∈ n.parts, ∀ (way : Way) (r : Rendering),
                  node context way r (part.shown context) = node context way r part :=
                fun part hpart => ih part hpart (hn.part hpart)
              have hbelow (r : Rendering) :
                  below context way r (n.shown context) = below context way r n := by
                unfold below placeBelow
                rw [hkind, Node.content_shown, Node.heads_shown hhides,
                  Node.children_shown hhides, Node.map_content_shown]
                rw [nodes_map_shown fun head hhead =>
                    hparts head (Node.mem_parts.2 (.inr (.inl hhead))),
                  nodes_map_shown fun child hchild =>
                    hparts child (Node.mem_parts.2 (.inr (.inr hchild)))]
              rw [node_composite hcomposite, node_composite (hkind ▸ hcomposite),
                enter_shown hhides, leave_shown hhides, hbelow]

/-- Hidden output is inert.  A tree that is no include step leaves the page as hidden as it was, and
nothing happens in it while output is hidden.  Trees without a fault that differ only below nodes
that hide what is below them are rendered alike. -/
theorem hidden_trees_are_inert (context : RenderContext) :
    (∀ n : Node, n.Everywhere Node.Bracketed → n.kind ≠ .includeStep →
      ∀ (way : Way) (r : Rendering),
        (node context way r n).page.hideStack = r.page.hideStack ∧
          (node context way r n).page.hidden = r.page.hidden ∧
          (r.page.hidden → node context way r n = r)) ∧
    ∀ (t t' : LinkedTree) (id id' : Nat), t.fault? id = none → t'.fault? id' = none →
      (t.toNode id).Everywhere Node.Bracketed → (t'.toNode id').Everywhere Node.Bracketed →
      t.way id = t'.way id' → (t.toNode id).shown context = (t'.toNode id').shown context →
      ∀ (relPath : Text) (diagramCounts : DiagramCounts),
        let result := t.renderAfter context relPath diagramCounts id
        let result' := t'.renderAfter context relPath diagramCounts id'
        result.1 = result'.1 ∧ result.2.1 = result'.2.1 ∧
          result.1.deliver context result.2.1 = result'.1.deliver context result'.2.1 := by
  constructor
  · intro n hn hstep way r
    have hquiet : r.Quiet (node context way r n) := quiet_node hn hstep way r
    exact ⟨congrArg Prod.snd hquiet.shade, hquiet.hidden, hquiet.inert⟩
  · intro t t' id id' hfault hfault' hn hn' hway hshown relPath diagramCounts
    have hsame : document context relPath diagramCounts (t.way id) (t.toNode id) =
        document context relPath diagramCounts (t'.way id') (t'.toNode id') := by
      unfold document
      rw [← node_shown hn, ← node_shown hn', hway, hshown]
    simp only [LinkedTree.renderAfter, hfault, hfault', hsame, and_self]

/-- A run of two steps with a space between them in an internal block, and a formula, a diagram and
an index entry there instead. -/
theorem hidden_run_is_inert :
    let step (isFirst isLast : Bool) : Node :=
      .leaf (.includeStep
        { operator := .line, pattern := units "a", text := units "a", origin := default
          isFirst, isLast })
    let around (nodes : List Node) : Node :=
      .branch (.root false) [.branch (.paragraph {})
        [.leaf (.word (units "seen")), .branch .internal [.branch (.paragraph {}) nodes]]]
    let n := around [step true false, .leaf (.whiteSpace [CodeUnit.space]), step false true]
    let n' := around
      [.leaf (.verbatim
          { type := .dot, text := units "digraph", origin := default, isBlock := false
            language := [] }),
        .leaf (.indexEntry { entry := units "secret", scope := [], memberAnchor := [] })]
    let t := LinkedTree.ofNode n
    let t' := LinkedTree.ofNode n'
    let hiddenAlready := (start {} [] []).onPage (·.hide)
    node {} [] hiddenAlready n = hiddenAlready ∧
      (t.renderAfter {} [] [] 0).1 = (t'.renderAfter {} [] [] 0).1 ∧
      (t.renderAfter {} [] [] 0).1.page.contents = units "<p>seen" := by
  intro step around n n' t t' hiddenAlready
  obtain ⟨hinert, hsame⟩ := hidden_trees_are_inert {}
  have hn : n.Everywhere Node.Bracketed := by decide +kernel
  have hshown : (t.toNode 0).shown {} = (t'.toNode 0).shown {} := by
    rw [LinkedTree.toNode_ofNode n, LinkedTree.toNode_ofNode n']
    rfl
  refine ⟨(hinert n hn (by decide) [] hiddenAlready).2.2 rfl, ?_, ?_⟩
  · exact (hsame t t' 0 0 (by decide +kernel) (by decide +kernel) (by decide +kernel)
      (by decide +kernel) (by decide +kernel) hshown [] []).1
  · decide +kernel

end Rendering

end DocMarkup
