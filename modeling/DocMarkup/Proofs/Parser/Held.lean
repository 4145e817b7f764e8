import DocMarkup.Proofs.Doc.Sections
import DocMarkup.Proofs.Parser.Conformance

/-!
What documents and sections hold.  The constructs that are open may be worked on, begun and ended
deeper down without a change to the sections that are open and to those that have ended in them.
-/

namespace DocMarkup.Parser

theorem Made.kind_ne_sect {n : Node} (h : Made n) : n.kind ≠ .sect := by
  cases h with
  | leaf content flags hcontent =>
      intro hkind
      cases content <;> first
        | (cases hkind; done)
        | cases hcontent
  | titled content text hkind =>
      intro hsect
      have hsect : content.kind = .sect := hsect
      rw [hsect] at hkind
      cases hkind
  | keyword => exact nofun

namespace Frame

theorem Sound.toNode_of_holdsSections {f : Frame} (h : f.Sound)
    (hkind : f.construct.kind.holdsSections) : f.toNode.Everywhere Node.Proper := by
  apply h.toNode
  · intro hfilled
    generalize f.construct.kind = kind at hkind hfilled
    cases kind <;> first
      | (cases hkind; done)
      | cases hfilled
  · intro hinternal
    rw [hinternal] at hkind
    cases hkind

/-- A document or a section with the sections that have ended in it, the last one first. -/
def held? (f : Frame) : Option (Construct × List Node) :=
  if f.construct.kind.holdsSections then some (f.construct, f.children.filter (·.isKind .sect))
  else none

theorem held?_eq_none {f : Frame} (h : f.construct.kind.holdsSections = false) :
    f.held? = none :=
  if_neg (by simp [h])

theorem filter_sect_dropTrailingSpace (children : List Node) :
    (dropTrailingSpace children).filter (·.isKind .sect) = children.filter (·.isKind .sect) := by
  unfold dropTrailingSpace
  induction children with
  | nil => rfl
  | cons n rest ih =>
      rw [List.dropWhile_cons]
      split
      next hspace =>
        have hsect : n.isKind .sect = false := by
          rw [Node.isKind, beq_iff_eq] at hspace
          rw [Node.isKind, hspace]
          rfl
        rw [ih, List.filter_cons, hsect]
        rfl
      next => rfl

theorem Changes.held? {f g : Frame} (h : f.Changes g) : g.held? = f.held? := by
  cases h with
  | construct c h =>
      have hnone : f.construct.kind.holdsSections = false := by
        generalize f.construct = construct at h
        cases h <;> rfl
      rw [held?_eq_none hnone, held?_eq_none (by rw [h.kind]; exact hnone)]
  | adds n hn _ =>
      have hsect : n.isKind .sect = false := by simpa [Node.isKind] using hn.kind_ne_sect
      unfold Frame.held?
      rw [List.filter_cons, hsect]
      rfl
  | marks => rfl
  | steps step hkind =>
      have hnone : f.construct.kind.holdsSections = false := by rw [hkind]; rfl
      rw [held?_eq_none hnone]
      exact held?_eq_none hnone
  | trims =>
      unfold Frame.held?
      rw [filter_sect_dropTrailingSpace]

theorem Fills.held? {f g : Frame} (h : f.Fills g) : g.held? = f.held? := by
  induction h with
  | refl => rfl
  | tail _ hlast ih => rw [hlast.held?, ih]

theorem Begins.held? {parent parent' : Frame} {c : Construct} {children : List Node}
    (h : parent.Begins parent' c children) : parent'.held? = parent.held? := by
  cases h with
  | fresh => rfl
  | sectionAfter _ _ _ hkind | parametersAfter _ _ _ _ hkind =>
      have hnone : parent.construct.kind.holdsSections = false := by rw [hkind]; rfl
      rw [held?_eq_none hnone]
      exact held?_eq_none hnone

/-- Only the end of a section adds one to the construct around. -/
theorem Receives.held? {outer inner outer' : Frame} (h : outer.Receives inner outer')
    (hinner : inner.construct.kind ≠ .sect) : outer'.held? = outer.held? := by
  cases h with
  | node hkind =>
      have hsect : inner.toNode.isKind .sect = false := by
        simpa [Node.isKind, inner.kind_toNode] using hinner
      unfold Frame.held?
      rw [List.filter_cons, hsect]
      rfl
  | nothing | secondCaption => rfl
  | caption attributes caption opener hcaption houter =>
      have hnone : outer.construct.kind.holdsSections = false := by rw [houter]; rfl
      rw [held?_eq_none hnone]
      rfl
  | text before after hlink hkind =>
      have hnone : outer.construct.kind.holdsSections = false := by rw [hkind]; rfl
      rw [held?_eq_none hnone]
      exact held?_eq_none hnone

theorem Receives.held?_sect {outer inner outer' : Frame} (h : outer.Receives inner outer')
    (hinner : inner.construct.kind = .sect) {c : Construct} {below : List Node}
    (ho : outer.held? = some (c, below)) : outer'.held? = some (c, inner.toNode :: below) := by
  have habsurd {kind : Kind} (hkind : inner.construct.kind = kind) (hne : kind ≠ .sect) : False :=
    hne (hkind.symm.trans hinner)
  cases h with
  | node hkind =>
      have hsect : inner.toNode.isKind .sect := by
        simpa [Node.isKind, inner.kind_toNode] using hinner
      unfold Frame.held? at ho ⊢
      split at ho
      next hholds =>
        obtain ⟨rfl, rfl⟩ := Prod.mk.inj (Option.some.inj ho)
        rw [if_pos hholds, List.filter_cons, hsect]
        rfl
      next => cases ho
  | nothing hkind => exact (habsurd hkind (by decide)).elim
  | caption _ _ _ hkind => exact (habsurd hkind (by decide)).elim
  | secondCaption hkind => exact (habsurd hkind (by decide)).elim
  | text _ _ hkind => exact (habsurd hkind (by decide)).elim

end Frame

/-- The documents and sections among the open constructs, the innermost first. -/
def heldParts (stack : List Frame) : List (Construct × List Node) := stack.filterMap Frame.held?

theorem heldParts_cons_of_none {f : Frame} {stack : List Frame} (h : f.held? = none) :
    heldParts (f :: stack) = heldParts stack := List.filterMap_cons_none h

theorem heldParts_cons_of_some {f : Frame} {stack : List Frame} {part : Construct × List Node}
    (h : f.held? = some part) : heldParts (f :: stack) = part :: heldParts stack :=
  List.filterMap_cons_some h

/-- Only documents and sections hold sections. -/
theorem holdsSections_of_mayHold {outer inner : Kind} (h : mayHold outer inner)
    (houter : outer.holdsSections = false) : inner.holdsSections = false := by
  cases inner <;> first
    | rfl
    | (cases outer <;> first
        | (cases h; done)
        | cases houter)

theorem FillsTop.heldParts {stack stack' : List Frame} (h : FillsTop stack stack') :
    heldParts stack' = heldParts stack := by
  cases h with
  | nil => rfl
  | cons f g outer h =>
      rw [Parser.heldParts, Parser.heldParts, List.filterMap_cons, List.filterMap_cons, h.held?]

theorem BeginsTop.heldParts {stack stack' : List Frame} (h : BeginsTop stack stack')
    (hinner : ∀ f rest, stack' = f :: rest → f.construct.kind.holdsSections = false) :
    heldParts stack' = heldParts stack := by
  cases h with
  | intro parent parent' outer c children id h =>
      rw [heldParts_cons_of_none (Frame.held?_eq_none (hinner _ _ rfl)),
        Parser.heldParts, Parser.heldParts, List.filterMap_cons, List.filterMap_cons, h.held?]

namespace Machine

variable {m m' m'' : Machine} {ends : Outcome → Prop}

/-- What documents and sections hold is the same, and nothing was told of sections. -/
structure SameParts (m m' : Machine) : Prop where
  parts : heldParts m'.stack = heldParts m.stack
  told : m'.journal.filter Event.tellsSection = m.journal.filter Event.tellsSection

theorem SameParts.trans (h : SameParts m m') (h' : SameParts m' m'') : SameParts m m'' :=
  ⟨h'.parts.trans h.parts, h'.told.trans h.told⟩

theorem filter_tellsSection_of_moves {change : List Frame → List Frame → Prop}
    (h : Moves change m m') (hkind : m.innermost.holdsSections = false) :
    m'.journal.filter Event.tellsSection = m.journal.filter Event.tellsSection := by
  have htop : m.isAtTop = false :=
    isAtTop_eq_false (by rintro hroot; rw [hroot] at hkind; cases hkind)
  exact (htop ▸ h.journal).filter_tellsSection

theorem Fills.sameParts (h : Fills m m') (hkind : m.innermost.holdsSections = false) :
    SameParts m m' :=
  ⟨h.stack.heldParts, filter_tellsSection_of_moves h hkind⟩

theorem Begins.sameParts (h : Begins m m') (hkind : m.innermost.holdsSections = false) :
    SameParts m m' ∧ m'.innermost.holdsSections = false := by
  have hinner : m'.innermost.holdsSections = false := by
    have hstack := h.stack
    unfold innermost at hkind ⊢
    generalize m.stack = stack, m'.stack = stack' at hstack hkind
    cases hstack with
    | intro parent parent' outer c children id h =>
        exact holdsSections_of_mayHold h.keeps.1 hkind
  refine ⟨⟨h.stack.heldParts fun f rest hstack => ?_, filter_tellsSection_of_moves h hkind⟩,
    hinner⟩
  rwa [innermost, hstack] at hinner

theorem Leaves.sameParts (h : Leaves m m') (hkind : m.innermost.holdsSections = false) :
    SameParts m m' := by
  refine ⟨?_, filter_tellsSection_of_moves h hkind⟩
  have hstack := h.stack
  unfold innermost at hkind
  generalize m.stack = stack, m'.stack = stack' at hstack hkind
  cases hstack with
  | intro inner outer outer' rest h =>
      have hkind : inner.construct.kind.holdsSections = false := hkind
      have hne : inner.construct.kind ≠ .sect := by
        intro hsect
        rw [hsect] at hkind
        cases hkind
      rw [heldParts_cons_of_none (Frame.held?_eq_none hkind), heldParts,
        heldParts, List.filterMap_cons, List.filterMap_cons, h.held? hne]

theorem Goes.sameParts (h : Goes m ends m') (hkind : m.innermost.holdsSections = false) :
    SameParts m m' := by
  cases h with
  | reads h => exact h.sameParts hkind
  | scans token h => exact h.sameParts hkind
  | opens h₁ h₂ h =>
      have hkind₁ := h₁.innermost ▸ hkind
      obtain ⟨hsame, hkind₂⟩ := h₂.sameParts hkind₁
      exact (h₁.sameParts hkind).trans (hsame.trans (h.sameParts hkind₂))
  | opensTwo h₁ h₂ h₃ h₄ h =>
      have hkind₁ := h₁.innermost ▸ hkind
      obtain ⟨hsame, hkind₂⟩ := h₂.sameParts hkind₁
      have hkind₃ := h₃.innermost ▸ hkind₂
      obtain ⟨hsame', hkind₄⟩ := h₄.sameParts hkind₃
      exact (h₁.sameParts hkind).trans (hsame.trans ((h₃.sameParts hkind₂).trans
        (hsame'.trans (h.sameParts hkind₄))))
  | leaves outcome h₁ h =>
      exact (h₁.sameParts hkind).trans (h.sameParts (h₁.innermost ▸ hkind))

/-- What is done deeper down leaves the sections alone. -/
theorem Turn.sameParts (h : Turn m m') (hkind : m.innermost.holdsSections = false) :
    SameParts m m' := by
  cases h with
  | scans token hphase h => exact h.sameParts hkind
  | reads hphase h => exact h.sameParts hkind
  | takes token hphase htoken h => exact h.sameParts hkind
  | opensFor token hphase h₁ h₂ h =>
      have hkind₁ := h₁.innermost ▸ hkind
      obtain ⟨hsame, hkind₂⟩ := h₂.sameParts hkind₁
      exact (h₁.sameParts hkind).trans (hsame.trans (h.sameParts hkind₂))
  | resumes outcome hphase houtcome h => exact h.sameParts hkind
  | retakes token hphase h => exact h.sameParts hkind
  | closes hphase h₁ h =>
      exact (h₁.sameParts hkind).trans (h.sameParts (h₁.innermost ▸ hkind))
  | finishes => exact ⟨rfl, rfl⟩

theorem sameParts_next (m : Machine) (phase : Phase) : SameParts m { m.next.2 with phase } := by
  refine ⟨congrArg heldParts (readsOn_next m).stack, ?_⟩
  show m.next.2.journal.filter Event.tellsSection = _
  unfold next
  dsimp only
  split
  · exact List.filter_cons_of_neg nofun
  · rfl

/-- A section that ends goes to the document or the section around it. -/
theorem exists_heldParts_close (hm : m.Ready) (hkind : m.innermost = .sect) (outcome : Outcome) :
    ∃ f c below rest, f.construct.kind = .sect ∧ f ∈ m.stack ∧
      heldParts m.stack = (f.construct, f.children.filter (·.isKind .sect)) :: (c, below) :: rest ∧
      heldParts (m.close outcome).stack = (c, f.toNode :: below) :: rest ∧
      (m.close outcome).innermost.holdsSections := by
  have hleaves := leaves_close hm.stacked (by rw [hkind]; nofun) (by rw [hkind]; nofun)
    (by rw [hkind]; nofun) outcome
  have hstack := hleaves.stack
  have hstacked := hm.stacked
  unfold innermost at hkind ⊢
  generalize m.stack = stack, (m.close outcome).stack = stack' at hstack hkind hstacked ⊢
  cases hstack with
  | intro inner outer outer' rest h =>
      have hkind : inner.construct.kind = .sect := hkind
      have hinner : inner.held? = some _ := if_pos (by rw [hkind]; rfl)
      cases hstacked with
      | cons _ _ _ _ hholds _ =>
          have houterKind : outer.construct.kind.holdsSections := by
            rw [hkind] at hholds
            generalize outer.construct.kind = kind at hholds
            cases kind <;> first
              | rfl
              | cases hholds
          have houter : outer.held? = some _ := if_pos houterKind
          refine ⟨inner, _, _, _, hkind, List.mem_cons_self, ?_,
            heldParts_cons_of_some (h.held?_sect hkind houter),
            (congrArg Kind.holdsSections h.keeps.1).trans houterKind⟩
          rw [heldParts_cons_of_some hinner, heldParts_cons_of_some houter]

theorem heldParts_openParagraph (hm : Stacked m.stack) (hkind : m.innermost.holdsSections) :
    heldParts m.openParagraph.stack = heldParts m.stack := by
  have hlists : m.innermost.lists .paragraph := by
    generalize m.innermost = kind at hkind
    cases kind <;> first
      | rfl
      | cases hkind
  obtain ⟨m₁, hbegins, hfills, hparagraph⟩ := exists_openParagraph hm hlists
  have hinner : ∀ f rest, m₁.stack = f :: rest → f.construct.kind.holdsSections = false := by
    intro f rest hstack
    unfold innermost at hparagraph
    rw [hstack] at hparagraph
    have hparagraph : f.construct.kind = .paragraph := hparagraph
    rw [hparagraph]
    rfl
  rw [hfills.stack.heldParts, hbegins.stack.heldParts hinner]

end Machine

end DocMarkup.Parser
