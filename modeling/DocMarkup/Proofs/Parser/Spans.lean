import DocMarkup.Proofs.Parser.Soundness

/-!
The spans of styles in the paragraphs that are open.  `Machine.spans` is all that styles depend on:
what was entered in each open paragraph, the changes of style among its nodes, and what waits to be
opened again.  Most of what a step does is quiet: it leaves the spans as they are.
-/

namespace DocMarkup.Parser

/-! ### Open paragraphs -/

/-- A paragraph that is open: its number, the styles entered in it, and the changes of style among
its nodes; both lists have the last first. -/
structure OpenParagraph where
  id : Nat
  styles : List OpenStyle
  marks : List StyleMark

/-- A style that makes white space count. -/
def OpenStyle.isPreformatted (entered : OpenStyle) : Bool := entered.style == .preformatted

/-- The paragraph with one more change of style. -/
def OpenParagraph.mark (p : OpenParagraph) (style : Style) (enable : Bool) : OpenParagraph :=
  { p with marks := (style, enable) :: p.marks }

/-- The open paragraph, if the construct is one. -/
def Frame.paragraph? (f : Frame) : Option OpenParagraph :=
  match f.construct with
  | .paragraph _ styles =>
    some { id := f.id, styles, marks := f.children.filterMap Node.styleMark? }
  | _ => none

/-- What styles depend on: the open paragraphs, the innermost first, the styles to be opened again
in the next, and whether white space counts. -/
structure Spans where
  paragraphs : List OpenParagraph
  reopening : List OpenStyle
  insidePre : Bool

namespace Frame

theorem paragraph?_eq_none {f : Frame} (h : f.construct.kind ≠ .paragraph) :
    f.paragraph? = none := by
  unfold paragraph?
  split
  · next hconstruct => exact absurd (congrArg Construct.kind hconstruct) h
  · rfl

theorem paragraph?_eq {f : Frame} {attributes : Attributes} {styles : List OpenStyle}
    (h : f.construct = .paragraph attributes styles) :
    f.paragraph? = some { id := f.id, styles, marks := f.children.filterMap Node.styleMark? } := by
  unfold paragraph?
  rw [h]

/-- Only a paragraph is an open paragraph. -/
theorem exists_of_paragraph? {f : Frame} {p : OpenParagraph} (h : f.paragraph? = some p) :
    ∃ attributes, f.construct = .paragraph attributes p.styles ∧ f.id = p.id ∧
      f.children.filterMap Node.styleMark? = p.marks := by
  unfold paragraph? at h
  split at h
  · next attributes styles hconstruct =>
    cases h
    exact ⟨attributes, hconstruct, rfl, rfl⟩
  · cases h

/-- Only the changes of style among its nodes matter to an open paragraph. -/
theorem paragraph?_withChildren {f : Frame} {children : List Node}
    (h : children.filterMap Node.styleMark? = f.children.filterMap Node.styleMark?) :
    ({ f with children } : Frame).paragraph? = f.paragraph? := by
  unfold paragraph?
  split <;> simp_all

end Frame

theorem styleMarks_dropTrailingSpace (children : List Node) :
    (dropTrailingSpace children).filterMap Node.styleMark? =
      children.filterMap Node.styleMark? := by
  unfold dropTrailingSpace
  induction children with
  | nil => rfl
  | cons n rest ih =>
      rw [List.dropWhile_cons]
      split
      · next hspace =>
        have hkind : n.kind = .whiteSpace := by simpa [Node.isKind] using hspace
        rw [ih, List.filterMap_cons_none (Node.styleMark?_eq_none (by rw [hkind]; decide))]
      · rfl

theorem styleMarks_continueRun (children : List Node) :
    (Machine.continueRun children).filterMap Node.styleMark? =
      children.filterMap Node.styleMark? :=
  Node.Alike.styleMarks_eq (Machine.forall₂_continueRun children)

namespace Machine

def spans (m : Machine) : Spans where
  paragraphs := m.stack.filterMap Frame.paragraph?
  reopening := m.reopening
  insidePre := m.insidePre

/-- The machine with the styled word ended that is being read. -/
def settled (m : Machine) : Machine :=
  match m.phase with
  | .readWord style => m.changeStyle style false 0 []
  | _ => m

theorem styleMarks_append {m : Machine} {n : Node} (hn : n.styleMark? = none) :
    (m.append n).children.filterMap Node.styleMark? = m.children.filterMap Node.styleMark? := by
  unfold append modifyTop children
  split
  · rfl
  · next frame outer hstack => exact (List.filterMap_cons_none hn).trans (by rw [hstack]; rfl)

theorem settled_eq {m : Machine} (h : ∀ style, m.phase ≠ .readWord style) : m.settled = m := by
  unfold settled
  split
  · next style hphase => exact absurd hphase (h style)
  · rfl

/-- Ending a styled word touches neither the constructs that are open nor their numbers. -/
theorem frames_settled (m : Machine) :
    m.settled.stack.map (fun f => (f.construct, f.id)) =
      m.stack.map fun f => (f.construct, f.id) := by
  unfold settled
  split
  · unfold changeStyle append modifyTop
    split <;> next hstack => simp [hstack]
  · rfl

theorem IsWord.styleMark?_eq_none {n : Node} (h : IsWord n) : n.styleMark? = none := by
  cases h <;> rfl

/-! ### Quiet work -/

/-- Something was done that does not touch the spans. -/
structure Quiet (m m' : Machine) : Prop where
  spans : m'.spans = m.spans
  begun : m.begun ≤ m'.begun

variable {m m' m'' : Machine}

theorem ReadsOn.quiet (h : ReadsOn m m') : Quiet m m' where
  spans := by rw [Machine.spans, Machine.spans, h.stack, h.reopening, h.insidePre]
  begun := h.begun.ge

/-- Another frame of the same paragraph, or of none, may take the place of the innermost one. -/
theorem spans_top {f g : Frame} {outer : List Frame} (hm : m.stack = f :: outer)
    (h : g.paragraph? = f.paragraph?) :
    ({ m with stack := g :: outer } : Machine).spans = m.spans := by
  refine congrArg (Spans.mk · m.reopening m.insidePre) ?_
  rw [hm, List.filterMap_cons, List.filterMap_cons, h]

namespace Quiet

theorem refl (m : Machine) : Quiet m m := ⟨rfl, le_rfl⟩

theorem trans (h : Quiet m m') (h' : Quiet m' m'') : Quiet m m'' :=
  ⟨h'.spans.trans h.spans, h.begun.trans h'.begun⟩

theorem reads (h : Quiet m m') (h' : ReadsOn m' m'') : Quiet m m'' := h.trans h'.quiet

theorem memory (h : Quiet m m') (included : Option IncludeBuffer) (items : Nat)
    (formulas : List Text) : Quiet m { m' with included, items, formulas } :=
  ⟨h.spans, h.begun⟩

theorem scanner (h : Quiet m m') (scanner : Scanner)
    (hpre : scanner.insidePre = m'.scanner.insidePre) : Quiet m { m' with scanner } :=
  ⟨(congrArg (Spans.mk m'.spans.paragraphs m'.reopening) hpre).trans h.spans, h.begun⟩

theorem modifyTop (h : Quiet m m') {f : Frame → Frame}
    (hf : ∀ frame, (f frame).paragraph? = frame.paragraph?) : Quiet m (m'.modifyTop f) := by
  refine h.trans ?_
  unfold Machine.modifyTop
  split
  · exact .refl m'
  · next frame outer hstack => exact ⟨spans_top hstack (hf frame), le_rfl⟩

/-- A node that changes no style is added. -/
theorem append (h : Quiet m m') {n : Node} (hn : n.styleMark? = none) : Quiet m (m'.append n) :=
  h.modifyTop fun _ => Frame.paragraph?_withChildren (List.filterMap_cons_none hn)

theorem setChildren (h : Quiet m m') {children : List Node}
    (hchildren : children.filterMap Node.styleMark? = m'.children.filterMap Node.styleMark?) :
    Quiet m (m'.setChildren children) := by
  refine h.trans ?_
  unfold Machine.setChildren Machine.modifyTop
  unfold Machine.children at hchildren
  split
  · exact .refl m'
  · next frame outer hstack =>
    rw [hstack] at hchildren
    exact ⟨spans_top hstack (Frame.paragraph?_withChildren hchildren), le_rfl⟩

/-- White space at the end is dropped. -/
theorem trim (h : Quiet m m') : Quiet m (m'.setChildren (dropTrailingSpace m'.children)) :=
  h.setChildren (styleMarks_dropTrailingSpace _)

/-- A construct other than a paragraph is begun. -/
theorem push (h : Quiet m m') {c : Construct} (hc : c.kind ≠ .paragraph) : Quiet m (m'.push c) := by
  have hpush : Quiet m' (m'.push c) :=
    ⟨congrArg (Spans.mk · m'.reopening m'.insidePre)
      (List.filterMap_cons_none (Frame.paragraph?_eq_none hc)), Nat.le_succ _⟩
  exact h.trans hpush

/-- In a construct other than a paragraph any nodes may be added or replaced. -/
theorem inside (h : Quiet m m') (hkind : m'.innermost ≠ .paragraph) {f : Frame → Frame}
    (hf : ∀ frame, (f frame).construct.kind = frame.construct.kind) : Quiet m (m'.modifyTop f) := by
  refine h.trans ?_
  unfold Machine.modifyTop
  unfold innermost at hkind
  split
  · exact .refl m'
  · next frame outer hstack =>
    rw [hstack] at hkind
    refine ⟨spans_top hstack ?_, le_rfl⟩
    have hframe : frame.construct.kind ≠ .paragraph := hkind
    rw [Frame.paragraph?_eq_none hframe, Frame.paragraph?_eq_none (by rwa [hf])]

theorem replaceChildren (h : Quiet m m') (hkind : m'.innermost ≠ .paragraph)
    (children : List Node) : Quiet m (m'.setChildren children) :=
  h.inside hkind fun _ => rfl

theorem attach (h : Quiet m m') {frame : Frame} (hkind : frame.construct.kind ≠ .styleChange) :
    Quiet m (m'.attach frame) := by
  unfold Machine.attach
  split
  · exact h.append (Node.styleMark?_eq_none (by rwa [Frame.kind_toNode]))
  · exact ⟨h.spans, h.begun⟩

end Quiet

theorem Construct.kind_ne_styleChange (c : Construct) : c.kind ≠ .styleChange := by
  cases c <;> nofun

/-- The innermost construct is taken off, if it is no paragraph. -/
theorem quiet_pop (hkind : m.innermost ≠ .paragraph) : Quiet m m.pop := by
  unfold innermost at hkind
  refine ⟨congrArg (Spans.mk · m.reopening m.insidePre) ?_, le_rfl⟩
  rw [pop]
  cases hstack : m.stack with
  | nil => rfl
  | cons frame outer =>
      rw [hstack] at hkind
      exact (List.filterMap_cons_none (Frame.paragraph?_eq_none hkind)).symm

namespace Quiet

/-- A construct other than a paragraph ends. -/
theorem close (h : Quiet m m') (hkind : m'.innermost ≠ .paragraph) (outcome : Outcome) :
    Quiet m (m'.close outcome) := by
  have hpop := quiet_pop hkind
  unfold Machine.close
  split
  · exact ⟨h.spans, h.begun⟩
  · next frame outer hstack =>
    have hpop' : m'.pop = { m' with stack := outer } := by rw [Machine.pop, hstack]; rfl
    rw [hpop'] at hpop
    have hattach : Quiet m (({ m' with stack := outer } : Machine).attach frame) :=
      (h.trans hpop).attach (Construct.kind_ne_styleChange _)
    exact ⟨hattach.spans, hattach.begun⟩

end Quiet

/-! ### Work on an open paragraph -/

@[simp]
theorem reopening_modifyTop (m : Machine) (f : Frame → Frame) :
    (m.modifyTop f).reopening = m.reopening := by
  unfold modifyTop
  split <;> rfl

@[simp]
theorem begun_modifyTop (m : Machine) (f : Frame → Frame) :
    (m.modifyTop f).begun = m.begun := by
  unfold modifyTop
  split <;> rfl

@[simp]
theorem insidePre_modifyTop (m : Machine) (f : Frame → Frame) :
    (m.modifyTop f).insidePre = m.insidePre := by
  unfold modifyTop
  split <;> rfl

/-- The innermost construct is a paragraph; `rest` are the paragraphs around it. -/
structure Within (m : Machine) (p : OpenParagraph) (rest : List OpenParagraph) : Prop where
  kind : m.innermost = .paragraph
  paragraphs : m.spans.paragraphs = p :: rest

theorem within_iff {p : OpenParagraph} {rest : List OpenParagraph} :
    m.Within p rest ↔ ∃ f outer, m.stack = f :: outer ∧ f.paragraph? = some p ∧
      outer.filterMap Frame.paragraph? = rest := by
  constructor
  · rintro ⟨hkind, hparagraphs⟩
    unfold innermost at hkind
    unfold spans at hparagraphs
    cases hstack : m.stack with
    | nil =>
        rw [hstack] at hkind
        cases hkind
    | cons f outer =>
        rw [hstack] at hkind hparagraphs
        have hframe : f.construct.kind = .paragraph := hkind
        cases hconstruct : f.construct with
        | paragraph attributes styles =>
            rw [List.filterMap_cons_some (Frame.paragraph?_eq hconstruct)] at hparagraphs
            obtain ⟨rfl, rfl⟩ := List.cons.inj hparagraphs
            exact ⟨f, outer, rfl, Frame.paragraph?_eq hconstruct, rfl⟩
        | _ =>
            rw [hconstruct] at hframe
            cases hframe
  · rintro ⟨f, outer, hstack, hf, rfl⟩
    refine ⟨?_, ?_⟩
    · unfold innermost
      rw [hstack]
      by_contra hkind
      rw [Frame.paragraph?_eq_none hkind] at hf
      cases hf
    · rw [spans, hstack, List.filterMap_cons_some hf]

theorem exists_within (hkind : m.innermost = .paragraph) : ∃ p rest, m.Within p rest := by
  cases hstack : m.stack with
  | nil =>
      rw [innermost, hstack] at hkind
      cases hkind
  | cons f outer =>
      have hframe : f.construct.kind = .paragraph := by
        rw [innermost, hstack] at hkind
        exact hkind
      cases hconstruct : f.construct with
      | paragraph attributes styles =>
          exact ⟨_, _, within_iff.2 ⟨f, outer, hstack, Frame.paragraph?_eq hconstruct, rfl⟩⟩
      | _ =>
          rw [hconstruct] at hframe
          cases hframe

namespace Within

variable {p p' : OpenParagraph} {rest : List OpenParagraph}

theorem spans_eq (h : m.Within p rest) : m.spans = ⟨p :: rest, m.reopening, m.insidePre⟩ :=
  congrArg (Spans.mk · m.reopening m.insidePre) h.paragraphs

theorem quiet (h : m.Within p rest) (h' : Quiet m m') (hkind : m'.innermost = m.innermost) :
    m'.Within p rest :=
  ⟨hkind.trans h.kind, (congrArg Spans.paragraphs h'.spans).trans h.paragraphs⟩

theorem reads (h : m.Within p rest) (h' : ReadsOn m m') : m'.Within p rest :=
  h.quiet h'.quiet h'.fills.innermost

theorem modifyTop (h : m.Within p rest) {f : Frame → Frame}
    (hf : ∀ frame, frame.paragraph? = some p → (f frame).paragraph? = some p') :
    (m.modifyTop f).Within p' rest := by
  obtain ⟨frame, outer, hstack, hframe, hrest⟩ := within_iff.1 h
  refine within_iff.2 ⟨f frame, outer, ?_, hf frame hframe, hrest⟩
  unfold Machine.modifyTop
  rw [hstack]

theorem append (h : m.Within p rest) {n : Node} (hn : n.styleMark? = none) :
    (m.append n).Within p rest := by
  refine h.modifyTop fun frame hframe => ?_
  rwa [Frame.paragraph?_withChildren (List.filterMap_cons_none hn)]

theorem appendMark (h : m.Within p rest) {n : Node} {mark : StyleMark}
    (hn : n.styleMark? = some mark) :
    (m.append n).Within { p with marks := mark :: p.marks } rest := by
  refine h.modifyTop fun frame hframe => ?_
  obtain ⟨attributes, hconstruct, hid, hmarks⟩ := Frame.exists_of_paragraph? hframe
  rw [Frame.paragraph?_eq (f := { frame with children := n :: frame.children }) hconstruct,
    List.filterMap_cons_some hn, hmarks, ← hid]

theorem changeStyle (h : m.Within p rest) (style : Style) (enable : Bool) (position : Nat)
    (attributes : Attributes) :
    (m.changeStyle style enable position attributes).Within (p.mark style enable) rest :=
  h.appendMark rfl

/-- The styles that are entered in the paragraph change. -/
theorem setStyles (h : m.Within p rest)
    (change : Attributes → List OpenStyle → Attributes × List OpenStyle) {styles : List OpenStyle}
    (hchange : ∀ attributes, (change attributes p.styles).2 = styles) :
    (m.modifyTop fun frame =>
      match frame.construct with
      | .paragraph attributes styles =>
        let changed := change attributes styles
        { frame with construct := .paragraph changed.1 changed.2 }
      | _ => frame).Within { p with styles } rest := by
  refine h.modifyTop fun frame hframe => ?_
  obtain ⟨attributes, hconstruct, hid, hmarks⟩ := Frame.exists_of_paragraph? hframe
  rw [hconstruct]
  dsimp only
  rw [Frame.paragraph?_eq rfl, hchange attributes, hid, hmarks]

/-- Nodes that are added change nothing but the changes of style. -/
theorem appendAll (h : m.Within p rest) (nodes : List Node) :
    (m.appendAll nodes).Within
      { p with marks := (nodes.filterMap Node.styleMark?).reverse ++ p.marks } rest := by
  induction nodes generalizing m p with
  | nil => exact h
  | cons n nodes ih =>
      cases hmark : n.styleMark? with
      | none =>
          rw [List.filterMap_cons_none hmark]
          exact ih (h.append hmark)
      | some mark =>
          rw [List.filterMap_cons_some hmark, List.reverse_cons, List.append_assoc]
          exact ih (h.appendMark hmark)

theorem setInsidePre (h : m.Within p rest) (insidePre : Bool) :
    (m.setInsidePre insidePre).Within p rest := ⟨h.kind, h.paragraphs⟩

theorem enterStyle (h : m.Within p rest) (entered : OpenStyle) :
    (m.enterStyle entered).Within { p with styles := entered :: p.styles } rest := by
  have hstyles := h.setStyles (fun attributes styles => (attributes, entered :: styles))
    fun _ => rfl
  unfold Machine.enterStyle
  dsimp only
  split
  · exact hstyles.setInsidePre true
  · exact hstyles

theorem leaveStyle (h : m.Within p rest) :
    m.leaveStyle.Within { p with styles := p.styles.tail } rest :=
  h.setStyles (fun attributes styles => (attributes, styles.tail)) fun _ => rfl

theorem trim (h : m.Within p rest) :
    (m.setChildren (dropTrailingSpace m.children)).Within p rest :=
  h.quiet (.trim (.refl m)) (Fills.trim (.refl m)).innermost

/-- The style that can be left is the last one entered in the paragraph. -/
theorem ownStyle?_eq (h : m.Within p rest) : m.ownStyle? = p.styles.head? := by
  obtain ⟨frame, outer, hstack, hframe, -⟩ := within_iff.1 h
  unfold Frame.paragraph? at hframe
  split at hframe
  · next attributes styles hconstruct =>
    cases hframe
    rw [ownStyle?, hstack, List.head?_cons, Option.bind_some, hconstruct]
    rfl
  · cases hframe

end Within

@[simp]
theorem reopening_enterStyle (m : Machine) (entered : OpenStyle) :
    (m.enterStyle entered).reopening = m.reopening := by
  unfold enterStyle
  dsimp only
  split
  · exact reopening_modifyTop ..
  · exact reopening_modifyTop ..

@[simp]
theorem begun_enterStyle (m : Machine) (entered : OpenStyle) :
    (m.enterStyle entered).begun = m.begun := by
  unfold enterStyle
  dsimp only
  split
  · exact begun_modifyTop ..
  · exact begun_modifyTop ..

/-- White space counts once preformatted text is entered. -/
@[simp]
theorem insidePre_enterStyle (m : Machine) (entered : OpenStyle) :
    (m.enterStyle entered).insidePre = (entered.isPreformatted || m.insidePre) := by
  unfold enterStyle OpenStyle.isPreformatted
  dsimp only
  split
  · next hpre =>
    rw [hpre, Bool.true_or]
    rfl
  · next hpre =>
    rw [Bool.eq_false_iff.2 hpre, Bool.false_or]
    exact insidePre_modifyTop ..

@[simp]
theorem reopening_changeStyle (m : Machine) (style : Style) (enable : Bool) (position : Nat)
    (attributes : Attributes) :
    (m.changeStyle style enable position attributes).reopening = m.reopening :=
  reopening_modifyTop ..

@[simp]
theorem begun_changeStyle (m : Machine) (style : Style) (enable : Bool) (position : Nat)
    (attributes : Attributes) :
    (m.changeStyle style enable position attributes).begun = m.begun :=
  begun_modifyTop ..

@[simp]
theorem insidePre_changeStyle (m : Machine) (style : Style) (enable : Bool) (position : Nat)
    (attributes : Attributes) :
    (m.changeStyle style enable position attributes).insidePre = m.insidePre :=
  insidePre_modifyTop ..

@[simp]
theorem reopening_appendAll (m : Machine) (nodes : List Node) :
    (m.appendAll nodes).reopening = m.reopening := by
  induction nodes generalizing m with
  | nil => rfl
  | cons n nodes ih => exact (ih (m.append n)).trans (reopening_modifyTop ..)

@[simp]
theorem begun_appendAll (m : Machine) (nodes : List Node) :
    (m.appendAll nodes).begun = m.begun := by
  induction nodes generalizing m with
  | nil => rfl
  | cons n nodes ih => exact (ih (m.append n)).trans (begun_modifyTop ..)

@[simp]
theorem insidePre_appendAll (m : Machine) (nodes : List Node) :
    (m.appendAll nodes).insidePre = m.insidePre := by
  induction nodes generalizing m with
  | nil => rfl
  | cons n nodes ih => exact (ih (m.append n)).trans (insidePre_modifyTop ..)

/-! ### Beginning and end of a paragraph -/

/-- A paragraph begins with the styles that waited to be opened again. -/
theorem spans_openParagraph (m : Machine) :
    m.openParagraph.spans =
      ⟨{ id := m.begun
         styles := m.reopening.reverse
         marks := (m.reopening.map fun entered => (entered.style, true)).reverse } ::
        m.spans.paragraphs, [], m.reopening.any (·.isPreformatted) || m.insidePre⟩ ∧
      m.openParagraph.begun = m.begun + 1 := by
  unfold openParagraph
  generalize hopened : ({ m with reopening := [] } : Machine).push (.paragraph [] []) = opened
  have hwithin : opened.Within { id := m.begun, styles := [], marks := [] } m.spans.paragraphs := by
    subst hopened
    exact within_iff.2 ⟨_, m.stack, rfl, rfl, rfl⟩
  have hreopening : opened.reopening = [] := by
    subst hopened
    rfl
  have hpre : opened.insidePre = m.insidePre := by
    subst hopened
    rfl
  have hbegun : opened.begun = m.begun + 1 := by
    subst hopened
    rfl
  -- each style that is entered again stands before those entered so far
  suffices h : ∀ (styles : List OpenStyle) (m' : Machine) (p : OpenParagraph),
      m'.Within p m.spans.paragraphs → m'.reopening = [] → m'.begun = m.begun + 1 →
      let final := styles.foldl (fun m entered =>
        (m.append (syntheticChange entered.style true m.scanner.last.start entered.attributes))
          |>.enterStyle entered) m'
      final.Within
          { p with
            styles := styles.reverse ++ p.styles
            marks := (styles.map fun entered => (entered.style, true)).reverse ++ p.marks }
          m.spans.paragraphs ∧
        final.reopening = [] ∧
        final.insidePre = (styles.any (·.isPreformatted) || m'.insidePre) ∧
        final.begun = m.begun + 1 by
    obtain ⟨hfinal, hnone, hmode, hcount⟩ := h m.reopening opened _ hwithin hreopening hbegun
    refine ⟨?_, hcount⟩
    rw [hfinal.spans_eq, hnone, hmode, hpre]
    simp
  intro styles
  induction styles with
  | nil => exact fun m' p h hreopening hbegun => ⟨h, hreopening, rfl, hbegun⟩
  | cons entered styles ih =>
      intro m' p h hreopening hbegun
      have hnode : (m'.append (syntheticChange entered.style true m'.scanner.last.start
          entered.attributes)).Within (p.mark entered.style true) m.spans.paragraphs :=
        h.appendMark rfl
      have hmore := ih _ _ (hnode.enterStyle entered) (by simpa [Machine.append] using hreopening)
        (by simpa [Machine.append] using hbegun)
      simpa [OpenParagraph.mark, Machine.append, Bool.or_assoc, Bool.or_left_comm] using hmore

theorem settled_closeParagraph (m : Machine) (outcome : Outcome) :
    (m.closeParagraph outcome).settled = m.closeParagraph outcome := by
  refine settled_eq fun style => ?_
  unfold closeParagraph
  split <;> nofun

/-- What is entered in a paragraph waits to be opened again when the paragraph ends. -/
theorem spans_closeParagraph {p : OpenParagraph} {rest : List OpenParagraph}
    (hm : m.Within p rest) (outcome : Outcome) :
    (m.closeParagraph outcome).spans = ⟨rest, m.reopening ++ p.styles.reverse,
        !p.styles.any (·.isPreformatted) && m.insidePre⟩ ∧
      (m.closeParagraph outcome).begun = m.begun := by
  obtain ⟨frame, outer, hstack, hframe, hrest⟩ := within_iff.1 hm
  have hstyles : frame.construct.styles = p.styles := by
    obtain ⟨attributes, hconstruct, -⟩ := Frame.exists_of_paragraph? hframe
    rw [hconstruct]
    rfl
  unfold closeParagraph
  rw [hstack]
  dsimp only
  rw [hstyles]
  generalize hpre : (if p.styles.any (·.style == .preformatted) then
    m.setInsidePre false else m) = m₀
  have hm₀ : m₀.reopening = m.reopening ∧ m₀.begun = m.begun := by
    subst hpre
    split <;> exact ⟨rfl, rfl⟩
  have hmode : m₀.insidePre = (!p.styles.any (·.isPreformatted) && m.insidePre) := by
    subst hpre
    unfold OpenStyle.isPreformatted
    split
    · next hany => rw [hany]; rfl
    · next hany => rw [Bool.eq_false_iff.2 hany]; rfl
  -- with or without a node of its own, the paragraph leaves the same account
  have hquiet : ∀ m₁ m₂ : Machine, Quiet m₁ m₂ → m₂.begun = m₁.begun → m₁.stack = outer →
      m₁.reopening = m₀.reopening ++ p.styles.reverse → m₁.insidePre = m₀.insidePre →
      m₁.begun = m₀.begun →
      (m₂.ended outcome).spans = ⟨rest, m.reopening ++ p.styles.reverse,
          !p.styles.any (·.isPreformatted) && m.insidePre⟩ ∧
        (m₂.ended outcome).begun = m.begun := by
    intro m₁ m₂ h hbegun houter hreopening hkept hsame
    refine ⟨?_, hbegun.trans (hsame.trans hm₀.2)⟩
    show m₂.spans = _
    rw [h.spans, spans, houter, hreopening, hrest, hm₀.1, hkept, hmode]
  split
  · exact hquiet { m₀ with stack := outer, reopening := m₀.reopening ++ p.styles.reverse } _
      (.refl _) rfl rfl rfl rfl rfl
  · refine hquiet { m₀ with stack := outer, reopening := m₀.reopening ++ p.styles.reverse } _
      (.attach (.refl _) (Construct.kind_ne_styleChange _)) ?_ rfl rfl rfl rfl
    unfold attach
    split
    · exact begun_modifyTop ..
    · rfl

end Machine

end DocMarkup.Parser
