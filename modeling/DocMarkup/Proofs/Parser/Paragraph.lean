import DocMarkup.Proofs.Parser.Turn

/-!
Paragraphs begin for the token that is to be taken, and end with their styles closed.
-/

namespace DocMarkup.Parser

namespace Frame

/-- Every style that is open is closed by a node. -/
theorem fills_closedStyles (styles : List OpenStyle) (position : Nat) {f : Frame}
    (hkind : f.construct.kind = .paragraph) (hstyles : styles ≠ [] → f.construct.styles ≠ []) :
    f.Fills { f with children := styles.foldl (fun children entered =>
      Machine.syntheticChange entered.style false position [] :: children) f.children } := by
  induction styles generalizing f with
  | nil => exact .refl
  | cons entered rest ih =>
      have hopen := hstyles (List.cons_ne_nil _ _)
      refine .head (.marks _ _ ?_ (.inl hkind) fun _ => hopen) (ih hkind fun _ => hopen)
      rw [hkind]
      rfl

/-- What closing a paragraph does to one that leaves a node. -/
theorem fills_finishedChildren {f : Frame} (hkind : f.construct.kind = .paragraph)
    {styles : List OpenStyle} (hstyles : f.construct.styles = styles) (insidePre : Bool)
    (position : Nat)
    (hne : (Machine.finishedChildren f.children styles insidePre position).isEmpty = false) :
    f.Fills
      { f with children := Machine.finishedChildren f.children styles insidePre position } := by
  unfold Machine.finishedChildren at hne ⊢
  have htrim : f.Fills { f with
      children := if insidePre then f.children else dropTrailingSpace f.children } := by
    cases insidePre with
    | true => exact .refl
    | false => exact .single .trims
  dsimp only at hne ⊢
  generalize (if insidePre then f.children else dropTrailingSpace f.children) = trimmed
    at htrim hne ⊢
  split at hne
  · cases hne
  · rw [if_neg ‹_›]
    have hclosed := fills_closedStyles styles position (f := { f with children := trimmed }) hkind
      fun hne hnone => hne (hstyles.symm.trans hnone)
    exact (htrim.trans hclosed).tail .trims

theorem mem_closedStyles (styles : List OpenStyle) (position : Nat) {children : List Node}
    {n : Node} (hn : n ∈ children) :
    n ∈ styles.foldl (fun children entered =>
      Machine.syntheticChange entered.style false position [] :: children) children := by
  induction styles generalizing children with
  | nil => exact hn
  | cons entered rest ih => exact ih (List.mem_cons_of_mem _ hn)

theorem dropTrailingSpace_closedStyles {styles : List OpenStyle} (hstyles : styles ≠ [])
    (position : Nat) (children : List Node) :
    dropTrailingSpace (styles.foldl (fun children entered =>
      Machine.syntheticChange entered.style false position [] :: children) children) =
      styles.foldl (fun children entered =>
        Machine.syntheticChange entered.style false position [] :: children) children := by
  obtain ⟨before, last, rfl⟩ := (List.eq_nil_or_concat styles).resolve_left hstyles
  rw [List.concat_eq_append, List.foldl_append]
  exact List.dropWhile_cons_of_neg (by rintro ⟨⟩)

/-- A paragraph that leaves a node is closed. -/
theorem isClosed_finishedChildren {f : Frame} {styles : List OpenStyle}
    (hstyles : f.construct.styles = styles) {insidePre : Bool} {position : Nat}
    (hne : (Machine.finishedChildren f.children styles insidePre position).isEmpty = false) :
    Frame.IsClosed
      { f with children := Machine.finishedChildren f.children styles insidePre position } := by
  unfold Machine.finishedChildren at hne ⊢
  dsimp only at hne ⊢
  generalize (if insidePre then f.children else dropTrailingSpace f.children) = trimmed at hne ⊢
  split at hne
  · cases hne
  · next hall =>
    simp only [if_neg hall]
    refine ⟨?_, fun last hlast hspace => ?_, fun hopen => ?_⟩
    · exact fun hnil => Bool.eq_false_iff.1 hne (List.isEmpty_iff.2 hnil)
    · exact head?_dropTrailingSpace hlast hspace
    · obtain ⟨n, hn, hwritten⟩ : ∃ n ∈ trimmed, n.isSynthetic = false := by simpa using hall
      refine ⟨n, ?_, hwritten⟩
      rw [dropTrailingSpace_closedStyles (hstyles ▸ hopen)]
      exact mem_closedStyles styles position hn

/-- A paragraph that leaves no node holds white space and what was made in recovery. -/
theorem empty_of_finishedChildren {children : List Node} {styles : List OpenStyle}
    {insidePre : Bool} {position : Nat}
    (h : (Machine.finishedChildren children styles insidePre position).isEmpty) :
    ∀ n ∈ children, n.isSynthetic ∨ n.kind = .whiteSpace := by
  have htrim : ∀ n ∈ children,
      n ∈ (if insidePre then children else dropTrailingSpace children) ∨ n.kind = .whiteSpace := by
    intro n hn
    split
    · exact .inl hn
    · exact or_iff_not_imp_right.2 (mem_dropTrailingSpace hn)
  unfold Machine.finishedChildren at h
  dsimp only at h
  generalize (if insidePre then children else dropTrailingSpace children) = trimmed at h htrim
  intro n hn
  rcases htrim n hn with htrimmed | hspace
  · split at h
    · next hall => exact .inl (List.all_eq_true.1 hall n htrimmed)
    · rw [List.isEmpty_iff, dropTrailingSpace, List.dropWhile_eq_nil_iff] at h
      exact .inr (eq_of_beq (h n (mem_closedStyles styles position htrimmed)))
  · exact .inr hspace

end Frame

namespace Machine

variable {m m' : Machine} {ends : Outcome → Prop}

theorem exists_openParagraph (hm : Stacked m.stack) (hkind : m.innermost.lists .paragraph) :
    ∃ m₁, Begins m m₁ ∧ Fills m₁ m.openParagraph ∧ m₁.innermost = .paragraph := by
  unfold openParagraph
  generalize hopened : ({ m with reopening := [] } : Machine).push (.paragraph [] []) = opened
  have hbegins : Begins m opened := by
    subst hopened
    have hpush := begins_push (m := { m with reopening := [] }) (c := .paragraph [] []) trivial
      (Bool.or_eq_true_iff.2 (.inl hkind)) hm nofun
    exact ⟨hpush.setting, hpush.text, hpush.offset, hpush.failure, hpush.journal, hpush.stack⟩
  have hopened : opened.innermost = .paragraph := by
    subst hopened
    rfl
  refine ⟨opened, hbegins, ?_, hopened⟩
  -- every style that was open is entered again, one after the other
  suffices h : ∀ (styles : List OpenStyle) (m' : Machine), Fills opened m' →
      Fills opened (styles.foldl (fun m entered =>
        (m.append (syntheticChange entered.style true m.scanner.last.start entered.attributes))
          |>.enterStyle entered) m') from h _ _ (.refl _)
  intro styles m' h
  induction styles generalizing m' with
  | nil => exact h
  | cons entered rest ih =>
      exact ih _ (h.reopenStyle hopened entered _)

theorem phase_closeParagraph (hm : Stacked m.stack) (outcome : Outcome) :
    (m.closeParagraph outcome).phase = .ended outcome := by
  unfold closeParagraph
  split
  · next hstack =>
    rw [hstack] at hm
    cases hm
  · rfl

/-- A paragraph that ends goes to the construct around it, or leaves nothing. -/
theorem exists_closeParagraph (hm : Stacked m.stack) (hkind : m.innermost = .paragraph)
    (outcome : Outcome) : ∃ m₁, Fills m m₁ ∧ Leaves m₁ (m.closeParagraph outcome) := by
  obtain ⟨frame, next, rest, hstack, hframe, hmade, hholds, -⟩ :=
    exists_around hm (by rw [hkind]; nofun)
  rw [hkind] at hframe hholds
  have hlists : next.construct.kind.lists frame.construct.kind := by
    rw [hframe]
    simpa [mayHold] using hholds
  unfold closeParagraph
  rw [hstack]
  dsimp only
  generalize hpre : (if frame.construct.styles.any (·.style == .preformatted) then
    m.setInsidePre false else m) = m₀
  have hm₀ : Fills m m₀ := by
    subst hpre
    split
    · exact (Fills.refl m).setInsidePre false
    · exact .refl m
  split
  · next hempty =>
    refine ⟨m, .refl m, hm₀.setting, hm₀.text, hm₀.offset, hm₀.failure, hm₀.journal, ?_⟩
    rw [hstack]
    exact .intro frame next next rest (.nothing hframe (Frame.empty_of_finishedChildren hempty))
  · next hne =>
    have hne := Bool.eq_false_iff.2 hne
    have hfills := Frame.fills_finishedChildren hframe rfl m.insidePre m.scanner.offset hne
    have hclosed := Frame.isClosed_finishedChildren rfl hne
    generalize finishedChildren frame.children frame.construct.styles m.insidePre
      m.scanner.offset = children at hfills hclosed
    have hleaves := leaves_attach
      (m := { m₀ with stack := next :: rest
                      reopening := m₀.reopening ++ frame.construct.styles.reverse })
      { frame with children } rfl hmade hlists fun _ => hclosed
    refine ⟨_, ?_, hleaves.phase (.ended outcome)⟩
    refine ⟨hm₀.setting, hm₀.text, hm₀.offset, hm₀.failure, hm₀.journal, ?_⟩
    rw [hstack]
    exact .cons frame _ (next :: rest) hfills

/-! ### Handlers in a paragraph -/

/-- The innermost construct is a paragraph. -/
structure InParagraph (m : Machine) : Prop where
  stacked : Stacked m.stack
  kind : m.innermost = .paragraph

namespace InParagraph

theorem lists (hm : m.InParagraph) {kind : Kind} (hkind : kind.isParagraphPart) :
    m.innermost.lists kind := by
  rwa [hm.kind]

theorem mayHold (hm : m.InParagraph) {kind : Kind} (hkind : kind.isParagraphPart) :
    Parser.mayHold m.innermost kind :=
  Bool.or_eq_true_iff.2 (.inl (hm.lists hkind))

theorem fills (hm : m.InParagraph) (h : Fills m m') : m'.InParagraph :=
  ⟨h.stacked hm.stacked, h.innermost.trans hm.kind⟩

theorem read (hm : m.InParagraph) (h : Fills m m') : Goes m ends m'.read :=
  .read h (by rw [hm.kind]; rfl)

theorem changeStyle (hm : m.InParagraph) (h : Fills m m') (style : Style) (enable : Bool)
    (position : Nat) (attributes : Attributes) :
    Fills m (m'.changeStyle style enable position attributes) :=
  h.changeStyle (hm.lists rfl) style (.inl hm.kind) enable position attributes

theorem leaf (hm : m.InParagraph) (h : Fills m m') {content : Content}
    (hwhole : isWhole content) (hkind : content.kind.isParagraphPart) :
    Goes m ends (m'.append (.leaf content)).read :=
  hm.read (h.leaf hwhole (hm.lists hkind))

theorem titled (hm : m.InParagraph) (h : Fills m m') {content : Content} {text : List Node}
    (htext : IsPlainText text) (hcontent : isTitled content.kind)
    (hkind : content.kind.isParagraphPart) :
    Goes m ends (m'.append (.branch content text)).read :=
  hm.read (h.append (.titled content text hcontent htext) (hm.lists hkind))

theorem closes (hm : m.InParagraph) (h : Fills m m') {outcome : Outcome} (hends : ends outcome) :
    Goes m ends (m'.closeParagraph outcome) := by
  have hm' := hm.fills h
  obtain ⟨m₁, hfills, hleaves⟩ := exists_closeParagraph hm'.stacked hm'.kind outcome
  refine .leaves outcome (h.trans hfills) hleaves (phase_closeParagraph hm'.stacked outcome) hends
    fun hrow => ?_
  rw [hm.kind] at hrow
  cases hrow

/-- A block is begun in the paragraph. -/
theorem opens (hm : m.InParagraph) (h : Fills m m') {c : Construct}
    (hc : c.IsFresh) (hkind : c.kind.isParagraphPart)
    (hfilled : c.kind.isFilled = false)
    (hinternal : c.kind = .internal → ∀ f ∈ m'.stack, f.construct.kind ≠ .internal)
    {phase : Phase} (hphase : phase.readsAnew) :
    Goes m ends { m'.push c with phase } :=
  .opens h (begins_push hc ((hm.fills h).mayHold hkind) (hm.fills h).stacked hinternal)
    ((Fills.refl _).phase phase) hfilled hphase rfl

end InParagraph

end Machine

end DocMarkup.Parser
