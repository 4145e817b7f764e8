import DocMarkup.Proofs.Parser.Frames
import DocMarkup.Proofs.Parser.Reading

/-!
Moves of the machine on its stack of open constructs: work on the innermost construct, the
beginning of another in it, and its end.
-/

namespace DocMarkup.Parser

/-! ### Stacks -/

/-- Open constructs, the innermost first: each was begun in the next, which may hold it, and the
last is the root. -/
inductive Stacked : List Frame → Prop
  | root (f : Frame) (hkind : f.construct.kind = .root) : Stacked [f]
  | cons (inner outer : Frame) (rest : List Frame) (hmade : inner.madeFor = some outer.id)
      (hkind : mayHold outer.construct.kind inner.construct.kind)
      (h : Stacked (outer :: rest)) : Stacked (inner :: outer :: rest)

/-- The innermost construct is worked on. -/
inductive FillsTop : List Frame → List Frame → Prop
  | nil : FillsTop [] []
  | cons (f g : Frame) (outer : List Frame) (h : f.Fills g) : FillsTop (f :: outer) (g :: outer)

/-- A construct is begun in the innermost one.  An internal block is not begun inside another. -/
inductive BeginsTop : List Frame → List Frame → Prop
  | intro (parent parent' : Frame) (outer : List Frame) (construct : Construct)
      (children : List Node) (id : Nat) (h : parent.Begins parent' construct children)
      (hinternal : construct.kind = .internal →
        ∀ f ∈ parent :: outer, f.construct.kind ≠ .internal) :
      BeginsTop (parent :: outer)
        ({ construct, children, id, madeFor := some parent.id } :: parent' :: outer)

/-- The innermost construct ends. -/
inductive LeavesTop : List Frame → List Frame → Prop
  | intro (inner outer outer' : Frame) (rest : List Frame) (h : outer.Receives inner outer') :
      LeavesTop (inner :: outer :: rest) (outer' :: rest)

theorem FillsTop.refl (stack : List Frame) : FillsTop stack stack := by
  cases stack with
  | nil => exact .nil
  | cons f outer => exact .cons f f outer .refl

theorem FillsTop.trans {s t u : List Frame} (h : FillsTop s t) (h' : FillsTop t u) :
    FillsTop s u := by
  cases h with
  | nil => exact h'
  | cons f g outer h =>
      cases h' with
      | cons _ k _ h' => exact .cons f k outer (Relation.ReflTransGen.trans h h')

theorem FillsTop.stacked {s t : List Frame} (h : FillsTop s t) (hs : Stacked s) : Stacked t := by
  cases h with
  | nil => exact hs
  | cons f g outer h =>
      obtain ⟨hkind, -, hmadeFor⟩ := h.keeps
      cases hs with
      | root _ hroot => exact .root g (hkind.trans hroot)
      | cons _ next rest hmade hholds hrest =>
          exact .cons g next rest (hmadeFor.trans hmade) (hkind ▸ hholds) hrest

theorem BeginsTop.stacked {s t : List Frame} (h : BeginsTop s t) (hs : Stacked s) : Stacked t := by
  cases h with
  | intro parent parent' outer construct children id h =>
      obtain ⟨hkind, hconstruct, hid, hmadeFor⟩ := h.keeps
      refine .cons _ parent' outer (congrArg some hid.symm) (hconstruct ▸ hkind) ?_
      cases hs with
      | root _ hroot => exact .root parent' (hconstruct ▸ hroot)
      | cons _ next rest hmade hholds hrest =>
          exact .cons parent' next rest (hmadeFor.trans hmade) (hconstruct ▸ hholds) hrest

theorem LeavesTop.stacked {s t : List Frame} (h : LeavesTop s t) (hs : Stacked s) : Stacked t := by
  cases h with
  | intro inner outer outer' rest h =>
      obtain ⟨hkind, hid, hmadeFor⟩ := h.keeps
      cases hs with
      | cons _ _ _ _ _ hs =>
          cases hs with
          | root _ hroot => exact .root outer' (hkind.trans hroot)
          | cons _ next rest hmade hholds hrest =>
              exact .cons outer' next rest (hmadeFor.trans hmade) (hkind ▸ hholds) hrest

theorem FillsTop.length_eq {s t : List Frame} (h : FillsTop s t) : t.length = s.length := by
  cases h <;> rfl

theorem LeavesTop.length_eq {s t : List Frame} (h : LeavesTop s t) : s.length = t.length + 1 := by
  cases h
  rfl

namespace Machine

/-- The kind of the innermost construct. -/
def innermost (m : Machine) : Kind := (m.stack.head?.map (·.construct.kind)).getD .text

/-- Text within a line may be added to the innermost construct. -/
def ListsText (m : Machine) : Prop := ∀ kind : Kind, kind.isInline → m.innermost.lists kind

theorem isAtTop_eq (m : Machine) : m.isAtTop = (m.innermost == .root) := by
  unfold isAtTop innermost
  cases m.stack with
  | nil => rfl
  | cons f outer =>
      obtain ⟨construct, children, id, madeFor⟩ := f
      cases construct <;> rfl

theorem isAtTop_eq_false {m : Machine} (h : m.innermost ≠ .root) : m.isAtTop = false := by
  simpa [isAtTop_eq] using h

@[simp]
theorem scanner_modifyTop (m : Machine) (f : Frame → Frame) :
    (m.modifyTop f).scanner = m.scanner := by
  unfold modifyTop
  split <;> rfl

@[simp]
theorem scanner_append (m : Machine) (n : Node) : (m.append n).scanner = m.scanner :=
  scanner_modifyTop ..

/-! ### Moves -/

/-- Something was done to the open constructs, and the scanner may have moved on. -/
structure Moves (change : List Frame → List Frame → Prop) (m m' : Machine) : Prop where
  setting : m'.setting = m.setting
  text : m'.scanner.text = m.scanner.text
  offset : m.scanner.offset ≤ m'.scanner.offset
  failure : m'.failure = m.failure
  journal : Continues m.isAtTop m.journal m'.journal
  stack : change m.stack m'.stack

/-- The innermost construct is worked on. -/
abbrev Fills : Machine → Machine → Prop := Moves FillsTop

/-- A construct is begun in the innermost one. -/
abbrev Begins : Machine → Machine → Prop := Moves BeginsTop

/-- The innermost construct ends. -/
abbrev Leaves : Machine → Machine → Prop := Moves LeavesTop

variable {change : List Frame → List Frame → Prop} {m m' m'' : Machine}

theorem Moves.phase (h : Moves change m m') (phase : Phase) :
    Moves change m { m' with phase := phase } :=
  ⟨h.setting, h.text, h.offset, h.failure, h.journal, h.stack⟩

/-- At the end of the text the scanner stays. -/
theorem Moves.offset_eq (h : Moves change m m')
    (hm : m.scanner.offset = m.scanner.text.length) :
    m'.scanner.offset = m'.scanner.text.length := by
  have hle := m'.scanner.offset_le
  have hge := h.offset
  rw [h.text] at hle ⊢
  omega

theorem Moves.memory (h : Moves change m m') (included : Option IncludeBuffer) (items : Nat)
    (formulas : List Text) : Moves change m { m' with included, items, formulas } :=
  ⟨h.setting, h.text, h.offset, h.failure, h.journal, h.stack⟩

/-! ### Work on the innermost construct -/

theorem ReadsOn.fills (h : ReadsOn m m') : Fills m m' :=
  ⟨h.setting, h.scanner.text, h.scanner.offset, h.failure, h.journal, h.stack ▸ .refl _⟩

namespace Fills

theorem refl (m : Machine) : Fills m m := (ReadsOn.refl m).fills

theorem innermost (h : Fills m m') : m'.innermost = m.innermost := by
  have hstack := h.stack
  unfold Machine.innermost
  generalize m.stack = stack, m'.stack = stack' at hstack
  cases hstack with
  | nil => rfl
  | cons f g outer h => exact h.keeps.1

theorem isAtTop (h : Fills m m') : m'.isAtTop = m.isAtTop := by
  rw [isAtTop_eq, isAtTop_eq, h.innermost]

theorem trans (h : Fills m m') (h' : Fills m' m'') : Fills m m'' where
  setting := h'.setting.trans h.setting
  text := h'.text.trans h.text
  offset := h.offset.trans h'.offset
  failure := h'.failure.trans h.failure
  journal := h.journal.trans (h.isAtTop ▸ h'.journal)
  stack := h.stack.trans h'.stack

theorem reads (h : Fills m m') (h' : ReadsOn m' m'') : Fills m m'' := h.trans h'.fills

theorem listsText (h : Fills m m') : m'.ListsText ↔ m.ListsText := by
  unfold ListsText
  rw [h.innermost]

theorem stacked (h : Fills m m') (hm : Stacked m.stack) : Stacked m'.stack := h.stack.stacked hm

end Fills

theorem fills_modifyTop (m : Machine) (f : Frame → Frame)
    (hf : ∀ frame ∈ m.stack.head?, frame.construct.kind = m.innermost → frame.Fills (f frame)) :
    Fills m (m.modifyTop f) := by
  unfold modifyTop
  unfold innermost at hf
  split
  · exact .refl m
  · next frame outer hstack =>
    rw [hstack] at hf
    exact ⟨rfl, rfl, le_rfl, rfl, .refl _ _, hstack ▸ .cons frame _ outer (hf frame rfl rfl)⟩

theorem modifyTop_modifyTop (m : Machine) (f g : Frame → Frame) :
    (m.modifyTop f).modifyTop g = m.modifyTop (g ∘ f) := by
  unfold modifyTop
  cases hstack : m.stack with
  | nil => simp only [hstack]
  | cons frame outer => rfl

theorem children_modifyTop (m : Machine) {f : Frame → Frame}
    (hf : ∀ frame, (f frame).children = frame.children) :
    (m.modifyTop f).children = m.children := by
  unfold modifyTop children
  split
  · rfl
  · next frame outer hstack =>
    rw [hstack]
    exact hf frame

theorem children_leaveStyle (m : Machine) : m.leaveStyle.children = m.children := by
  refine m.children_modifyTop fun frame => ?_
  split <;> rfl

/-- Whether a construct changes before or after a node is added to it makes no difference. -/
theorem modifyTop_append (m : Machine) (n : Node) {f : Frame → Frame}
    (hf : ∀ frame : Frame, f { frame with children := n :: frame.children } =
      { f frame with children := n :: (f frame).children }) :
    (m.append n).modifyTop f = (m.modifyTop f).append n := by
  unfold append
  rw [modifyTop_modifyTop, modifyTop_modifyTop]
  congr 1
  funext frame
  exact hf frame

theorem leaveStyle_append (m : Machine) (n : Node) :
    (m.append n).leaveStyle = m.leaveStyle.append n := by
  refine m.modifyTop_append n fun frame => ?_
  obtain ⟨construct, children, id, madeFor⟩ := frame
  cases construct <;> rfl

theorem enterStyle_append (m : Machine) (n : Node) (entered : OpenStyle) :
    (m.append n).enterStyle entered = (m.enterStyle entered).append n := by
  unfold enterStyle
  dsimp only
  rw [m.modifyTop_append n fun frame => ?_]
  · split
    · unfold append modifyTop setInsidePre
      dsimp only
      split <;> rfl
    · rfl
  · obtain ⟨construct, children, id, madeFor⟩ := frame
    cases construct <;> rfl

theorem trim_leaveStyle (m : Machine) :
    m.leaveStyle.setChildren (dropTrailingSpace m.leaveStyle.children) =
      (m.setChildren (dropTrailingSpace m.children)).leaveStyle := by
  rw [children_leaveStyle]
  unfold leaveStyle setChildren
  rw [modifyTop_modifyTop, modifyTop_modifyTop]
  congr 1
  funext frame
  obtain ⟨construct, children, id, madeFor⟩ := frame
  cases construct <;> rfl

theorem styles_enterStyle (hm : m.innermost = .paragraph) (entered : OpenStyle) :
    ∀ frame ∈ (m.enterStyle entered).stack.head?, frame.construct.styles ≠ [] := by
  intro frame hframe
  unfold innermost at hm
  cases hstack : m.stack with
  | nil =>
      rw [hstack] at hm
      cases hm
  | cons top outer =>
      obtain ⟨construct, children, id, madeFor⟩ := top
      rw [hstack] at hm
      cases construct with
      | paragraph attributes styles =>
          have hentered : (m.enterStyle entered).stack =
              ⟨.paragraph attributes (entered :: styles), children, id, madeFor⟩ :: outer := by
            unfold enterStyle modifyTop
            rw [hstack]
            dsimp only
            split <;> rfl
          rw [hentered] at hframe
          cases hframe
          exact List.cons_ne_nil _ _
      | _ => cases hm

theorem mem_children_append {n : Node} {frame : Frame} (h : frame ∈ (m.append n).stack.head?) :
    n ∈ frame.children := by
  unfold append modifyTop at h
  split at h
  · next hstack =>
    rw [hstack] at h
    cases h
  · cases h
    exact List.mem_cons_self

namespace Fills

/-- A node made whole is added. -/
theorem append (h : Fills m m') {n : Node} (hn : Made n) (hkind : m.innermost.lists n.kind) :
    Fills m (m'.append n) := by
  refine h.trans (fills_modifyTop m' _ fun frame _ hframe => .single (.adds n hn ?_))
  rwa [hframe, h.innermost]

theorem leaf (h : Fills m m') {content : Content} (hcontent : isWhole content)
    (hkind : m.innermost.lists content.kind) : Fills m (m'.append (.leaf content)) :=
  h.append (.leaf content {} hcontent rfl) hkind

/-- A change of style is added; only paragraphs have styles that no text within a line has. -/
theorem mark (h : Fills m m') (hkind : m.innermost.lists .styleChange) (change : StyleChange)
    (flags : NodeFlags) (hstyle : m.innermost = .paragraph ∨ isInlineStyle change.style)
    (hflags : flags.synthetic → ∀ frame ∈ m'.stack.head?, frame.construct.styles ≠ []) :
    Fills m (m'.append (.node (.styleChange change) flags [] [] [])) := by
  rw [← h.innermost] at hkind hstyle
  refine h.trans (fills_modifyTop m' _ fun frame hmem hframe =>
    .single (.marks change flags ?_ ?_ fun hsynthetic => hflags hsynthetic frame hmem))
  · rwa [hframe]
  · rwa [hframe]

theorem changeStyle (h : Fills m m') (hkind : m.innermost.lists .styleChange) (style : Style)
    (hstyle : m.innermost = .paragraph ∨ isInlineStyle style) (enable : Bool) (position : Nat)
    (attributes : Attributes) : Fills m (m'.changeStyle style enable position attributes) :=
  h.mark hkind _ {} hstyle (by rintro ⟨⟩)

/-- White space at the end is dropped. -/
theorem trim (h : Fills m m') : Fills m (m'.setChildren (dropTrailingSpace m'.children)) := by
  refine h.trans ?_
  unfold setChildren modifyTop Machine.children
  split
  · exact .refl m'
  · next frame outer hstack =>
    refine ⟨rfl, rfl, le_rfl, rfl, .refl _ _, ?_⟩
    rw [hstack]
    exact .cons frame _ outer (.single .trims)

/-- A step through an included text is added, and the step before it is no longer the last. -/
theorem step (h : Fills m m') (hkind : m.innermost = .paragraph) (step : IncludeStep)
    (hfirst : step.isFirst = beginsRun m'.children) (hlast : step.isLast) :
    Fills m ((m'.setChildren (continueRun m'.children)).append (.leaf (.includeStep step))) := by
  rw [← h.innermost] at hkind
  refine h.trans ?_
  unfold Machine.innermost at hkind
  unfold Machine.children at hfirst ⊢
  cases hstack : m'.stack with
  | nil =>
      rw [hstack] at hkind
      cases hkind
  | cons frame outer =>
      rw [hstack] at hkind hfirst
      simp only [setChildren, Machine.append, modifyTop, hstack]
      refine ⟨rfl, rfl, le_rfl, rfl, .refl _ _, ?_⟩
      rw [hstack]
      exact .cons frame _ outer (.single (.steps step hkind hfirst hlast))

theorem setInsidePre (h : Fills m m') (insidePre : Bool) : Fills m (m'.setInsidePre insidePre) :=
  ⟨h.setting, h.text, h.offset, h.failure, h.journal, h.stack⟩

/-- A paragraph gets other attributes. -/
theorem attributes (h : Fills m m') (attributes : Attributes) :
    Fills m (m'.modifyTop fun frame =>
      match frame.construct with
      | .paragraph _ styles => { frame with construct := .paragraph attributes styles }
      | _ => frame) := by
  refine h.trans (fills_modifyTop m' _ fun frame _ _ => ?_)
  split
  · next given styles hconstruct =>
    rw [Frame.Fills]
    refine .single (.construct _ (hconstruct ▸ .paragraph ..) fun hnone => .inl ?_)
    rw [hconstruct]
    exact hnone
  · exact .refl

theorem enterStyle (h : Fills m m') (entered : OpenStyle) : Fills m (m'.enterStyle entered) := by
  have hfills : Fills m (m'.modifyTop fun frame =>
      match frame.construct with
      | .paragraph attributes styles =>
        { frame with construct := .paragraph attributes (entered :: styles) }
      | _ => frame) := by
    refine h.trans (fills_modifyTop m' _ fun frame _ _ => ?_)
    split
    · next attributes styles hconstruct =>
      exact .single (.construct _ (hconstruct ▸ .paragraph ..)
        fun hnone => absurd hnone (List.cons_ne_nil _ _))
    · exact .refl
  unfold Machine.enterStyle
  dsimp only
  split
  · exact hfills.setInsidePre true
  · exact hfills

/-- A style that was open where the last paragraph ended is entered again. -/
theorem reopenStyle (h : Fills m m') (hkind : m.innermost = .paragraph) (entered : OpenStyle)
    (position : Nat) :
    Fills m ((m'.append (syntheticChange entered.style true position entered.attributes)).enterStyle
      entered) := by
  rw [enterStyle_append]
  refine (h.enterStyle entered).mark (by rw [hkind]; rfl) _ _ (.inl hkind) fun _ frame hframe => ?_
  exact styles_enterStyle (h.innermost.trans hkind) entered frame hframe

/-- A style is left, and the node for its end is added. -/
theorem endStyle (h : Fills m m') (hkind : m.innermost = .paragraph) (style : Style)
    (position : Nat) : Fills m (m'.leaveStyle.changeStyle style false position []) := by
  have hmarked := h.changeStyle (by rw [hkind]; rfl) style (.inl hkind) false position []
  have hleft : (m'.changeStyle style false position []).leaveStyle =
      m'.leaveStyle.changeStyle style false position [] := leaveStyle_append ..
  rw [← hleft]
  refine hmarked.trans (fills_modifyTop _ _ fun frame hmem _ => ?_)
  split
  · next attributes styles hconstruct =>
    refine .single (.construct _ (hconstruct ▸ .paragraph ..) fun _ => .inr ?_)
    exact ⟨_, mem_children_append hmem, rfl, by rintro ⟨⟩, by rintro ⟨⟩, by rintro ⟨⟩⟩
  · exact .refl

end Fills

/-! ### Beginning and end -/

theorem begins_push {c : Construct} (hc : c.IsFresh) (hkind : mayHold m.innermost c.kind)
    (hm : Stacked m.stack)
    (hinternal : c.kind = .internal → ∀ f ∈ m.stack, f.construct.kind ≠ .internal) :
    Begins m (m.push c) := by
  refine ⟨rfl, rfl, le_rfl, rfl, .refl _ _, ?_⟩
  unfold push
  unfold innermost at hkind
  generalize m.stack = stack at hm hkind hinternal
  cases hm with
  | root parent => exact .intro parent parent [] c [] m.begun (.fresh c hc hkind) hinternal
  | cons parent outer rest =>
      exact .intro parent parent (outer :: rest) c [] m.begun (.fresh c hc hkind) hinternal

theorem Begins.stacked (h : Begins m m') (hm : Stacked m.stack) : Stacked m'.stack :=
  h.stack.stacked hm

theorem Leaves.stacked (h : Leaves m m') (hm : Stacked m.stack) : Stacked m'.stack :=
  h.stack.stacked hm

theorem Leaves.holding (h : Leaves m m') (hm : Stacked m.stack) :
    ∃ c : Construct, mayHold m'.innermost c.kind := by
  have hstack := h.stack
  unfold innermost
  generalize m.stack = stack, m'.stack = stack' at hstack hm
  cases hstack with
  | intro inner outer outer' rest h =>
      cases hm with
      | cons _ _ _ _ hkind _ =>
          refine ⟨inner.construct, ?_⟩
          show mayHold outer'.construct.kind inner.construct.kind
          rwa [h.keeps.1]

/-- The construct that ends was begun in the one around it, so its node gets there. -/
theorem leaves_attach (inner : Frame) {outer : Frame} {rest : List Frame}
    (hm : m.stack = outer :: rest) (hmade : inner.madeFor = some outer.id)
    (hkind : outer.construct.kind.lists inner.construct.kind)
    (hend : inner.MayEnd) :
    Leaves { m with stack := inner :: outer :: rest } (m.attach inner) := by
  have hattach : m.attach inner = m.append inner.toNode := by
    unfold attach
    rw [hmade, hm, List.head?_cons, Option.map_some, if_pos (beq_self_eq_true _)]
  rw [hattach]
  unfold append modifyTop
  rw [hm]
  refine ⟨rfl, rfl, le_rfl, rfl, .refl _ _, ?_⟩
  exact .intro inner outer _ rest (.node hkind hend)

theorem innermost_eq {f : Frame} {outer : List Frame} (h : m.stack = f :: outer) :
    m.innermost = f.construct.kind := by
  rw [innermost, h]
  rfl

theorem exists_stack (hm : Stacked m.stack) :
    ∃ f outer, m.stack = f :: outer ∧ m.innermost = f.construct.kind := by
  unfold innermost
  generalize m.stack = stack at hm
  cases hm with
  | root f => exact ⟨f, [], rfl, rfl⟩
  | cons inner outer rest => exact ⟨inner, outer :: rest, rfl, rfl⟩

/-- Every construct but the root stands in another. -/
theorem exists_around (hm : Stacked m.stack) (hroot : m.innermost ≠ .root) :
    ∃ inner outer rest, m.stack = inner :: outer :: rest ∧ inner.construct.kind = m.innermost ∧
      inner.madeFor = some outer.id ∧ mayHold outer.construct.kind m.innermost ∧
      Stacked (outer :: rest) := by
  unfold innermost at hroot ⊢
  generalize m.stack = stack at hm hroot
  cases hm with
  | root _ hkind => exact absurd hkind hroot
  | cons inner outer rest hmade hkind hrest =>
      exact ⟨inner, outer, rest, rfl, rfl, hmade, hkind, hrest⟩

theorem phase_close (hm : Stacked m.stack) (outcome : Outcome) :
    (m.close outcome).phase = .ended outcome := by
  unfold close
  split
  · next hstack =>
    rw [hstack] at hm
    cases hm
  · rfl

theorem leaves_close (hm : Stacked m.stack) (hroot : m.innermost ≠ .root)
    (hcaption : m.innermost ≠ .caption) (hparagraph : m.innermost ≠ .paragraph)
    (outcome : Outcome) : Leaves m (m.close outcome) := by
  obtain ⟨inner, outer, rest, hstack, hinner, hmade, hholds, -⟩ := exists_around hm hroot
  have hlists : outer.construct.kind.lists inner.construct.kind := by
    rw [hinner]
    simpa [mayHold, hcaption] using hholds
  have hleaves := leaves_attach (m := { m with stack := outer :: rest }) inner rfl hmade hlists
    fun hkind => absurd (hinner.symm.trans hkind) hparagraph
  have htop : ({ m with stack := inner :: outer :: rest } : Machine).isAtTop = m.isAtTop :=
    isAtTop_congr hstack.symm
  unfold close
  rw [hstack]
  refine ⟨hleaves.setting, hleaves.text, hleaves.offset, hleaves.failure,
    htop ▸ hleaves.journal, ?_⟩
  rw [hstack]
  exact hleaves.stack

end Machine

end DocMarkup.Parser
