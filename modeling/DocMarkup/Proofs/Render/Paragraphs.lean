import DocMarkup.Proofs.Render.ParagraphTags

/-!
The paragraph tags of a page alternate: the first opens a paragraph, and the last closes one.  This
rests on what the balance of a single paragraph rests on, and on every block of a paragraph either
parting it or standing where it need not be parted.
-/

namespace DocMarkup

/-- What can stand within a paragraph of a page without parting it: text, and what nothing is seen
of. -/
def Content.isSeamless (internalDocs : Bool) : Content → Bool
  | .internal => !internalDocs
  | .image i => i.type != .html
  | .hyperlink _ | .link _ | .reference _ | .internalReference _ | .copy _ => true
  | c => !c.kind.isComposite && !c.partsParagraph

namespace Kind

/-- Nodes whose children are text within a line. -/
def holdsText : Kind → Bool
  | hyperlink | link | header | descTitle | caption | title | reference | internalReference
  | image | diagramFile | refItem | copy => true
  | _ => false

variable {kind below : Kind}

theorem isInline_of_isPlain (h : kind.isPlain) : kind.isInline := by
  cases kind <;> first
    | rfl
    | cases h

theorem isInline_of_holdsText (h : kind.holdsText) (hlists : kind.lists below) :
    below.isInline := by
  cases kind <;> first
    | exact hlists
    | exact isInline_of_isPlain hlists
    | exact Bool.noConfusion h
    | exact Bool.noConfusion hlists

theorem kind_of_holdsText (h : kind.holdsText) : kind ≠ .paragraph ∧ kind ≠ .includeStep := by
  constructor <;>
  · rintro rfl
    cases h

theorem heads_of_holdsText (h : kind.holdsText) : kind.heads below = false := by
  cases kind <;> first
    | rfl
    | cases h

theorem isComposite_of_holdsText (h : kind.holdsText) : kind.isComposite := by
  cases kind <;> first
    | rfl
    | cases h

theorem isComposite_of_isInline (h : kind.isInline) : kind.isComposite = false := by
  cases kind <;> first
    | rfl
    | cases h

end Kind

namespace Balance

/-- Whether a paragraph of a page goes on as it is to behind a child: the child is text, it parts
the paragraph, or the paragraph is the same on both sides of it and closed around what is seen. -/
def isKept (internalDocs : Bool) (before : List Content) (c : Content) (after : List Content) :
    Bool :=
  !c.isBlock || c.partsParagraph ||
    isOpenBetween before (c :: after) == isOpenBetween (before ++ [c]) after &&
      (c.isSeamless internalDocs || !isOpenBetween before (c :: after))

/-- The same for all children behind some. -/
def areKept (internalDocs : Bool) (before : List Content) : List Content → Bool
  | [] => true
  | c :: after => isKept internalDocs before c after && areKept internalDocs (before ++ [c]) after

/-- Whether the paragraph that a way begins at is open between two parts of its children.  One that
is the only one is never open. -/
def isOpenAt (way : Way) (before after : List Content) : Bool :=
  !((position way).isFirst && (position way).isLast) && isOpenBetween before after

/-- Whether a paragraph at the beginning of a way has tags of its own or is the only one there. -/
def isHosted : Way → Bool
  | [] => false
  | place :: outer =>
    tagsParagraphs place.above ||
      (position (place :: outer)).isFirst && (position (place :: outer)).isLast

/-- What a node does to the paragraph around it, which is open or closed before it and behind it. -/
inductive Passes (internalDocs : Bool) (way : Way) (c : Content) : Bool → Bool → Prop
  | seamless (isOpen : Bool) (h : c.isSeamless internalDocs) :
      Passes internalDocs way c isOpen isOpen
  | between (h : c.partsParagraph = false) : Passes internalDocs way c false false
  | parts (h : c.partsParagraph) :
      Passes internalDocs way c (!disables c && closesBefore way) (!enables c && reopensAfter way)

theorem partsParagraph_of_isSeamless {internalDocs : Bool} {c : Content}
    (h : c.isSeamless internalDocs) : c.partsParagraph = false := by
  unfold Content.isSeamless at h
  cases c with
  | image i => simpa [Content.partsParagraph] using h
  | _ => first
      | rfl
      | exact Bool.noConfusion h
      | simpa [Content.kind, Kind.isComposite] using h

/-- What parts no paragraph leaves it open or closed. -/
theorem Passes.eq {internalDocs : Bool} {way : Way} {c : Content} {isOpen isOpen' : Bool}
    (h : Passes internalDocs way c isOpen isOpen') (hparts : c.partsParagraph = false) :
    isOpen' = isOpen := by
  cases h with
  | seamless => rfl
  | between => rfl
  | parts h => exact absurd (hparts.symm.trans h) nofun

/-- What is no text has paragraphs closed before and behind what is below it. -/
theorem Passes.eq_of_composite {internalDocs : Bool} {way : Way} {c : Content}
    {isOpen isOpen' : Bool} (h : Passes internalDocs way c isOpen isOpen')
    (hcomposite : c.kind.isComposite) (hseam : c.isSeamless internalDocs = false) :
    isOpen = (c.partsParagraph && closesBefore way) ∧
      isOpen' = (c.partsParagraph && reopensAfter way) := by
  cases h with
  | seamless _ hseamless => exact absurd (hseam.symm.trans hseamless) nofun
  | between hparts => simp [hparts]
  | parts hparts =>
      have hchange : disables c = false ∧ enables c = false := by
        cases c <;> first
          | exact ⟨rfl, rfl⟩
          | cases hcomposite
      simp [hparts, hchange]

/-- Outside paragraphs none is open. -/
theorem Passes.outside {internalDocs : Bool} {way : Way} (h : paragraph? way = none) (c : Content) :
    Passes internalDocs way c false false := by
  cases hparts : c.partsParagraph with
  | false => exact .between hparts
  | true =>
      have hpasses : Passes internalDocs way c (!disables c && closesBefore way)
          (!enables c && reopensAfter way) := .parts hparts
      simpa [closesBefore, reopensAfter, h] using hpasses

/-- Text is seamless. -/
theorem isSeamless_of_not_isBlock {internalDocs : Bool} {c : Content} (h : c.isBlock = false)
    (hpart : c.kind.isParagraphPart) : c.isSeamless internalDocs := by
  have hparts : c.partsParagraph = false := by
    by_contra hparts
    exact absurd (h.symm.trans (Content.isBlock_of_partsParagraph (by simpa using hparts))) nofun
  unfold Content.isSeamless
  cases c <;> first
    | rfl
    | exact Bool.noConfusion hpart
    | exact Bool.noConfusion h
    | simpa [Content.kind, Kind.isComposite] using hparts

/-- What a child does to its paragraph. -/
theorem passes_child {internalDocs : Bool} (paragraph : Paragraph) (way : Way)
    {before after : List Content} {c : Content}
    (hnested : openStyles (before ++ c :: after) = some []) (hpart : c.kind.isParagraphPart)
    (hkept : isKept internalDocs before c after) :
    Passes internalDocs (wayTo paragraph way (before ++ c :: after) before.length) c
      (isOpenAt way before (c :: after)) (isOpenAt way (before ++ [c]) after) := by
  cases hblock : c.isBlock with
  | false =>
      rw [isOpenAt, isOpenAt, isOpenBetween_snoc before after hblock]
      exact .seamless _ (isSeamless_of_not_isBlock hblock hpart)
  | true =>
      have hopened : ∃ opened, openStyles (before ++ [c]) = some opened := by
        rw [List.append_cons] at hnested
        exact exists_openStyles hnested
      obtain ⟨opened, hopened⟩ := hopened
      cases hparts : c.partsParagraph with
      | true =>
          have hpasses : Passes internalDocs
              (wayTo paragraph way (before ++ c :: after) before.length) c _ _ := .parts hparts
          cases honly : (position way).isFirst && (position way).isLast with
          | true =>
              simpa [isOpenAt, honly, closesBefore_only honly, reopensAfter_only honly]
                using hpasses
          | false =>
              obtain ⟨hcloses, hreopens⟩ :=
                closes_and_reopens_eq paragraph after honly hopened hblock
              simpa [isOpenAt, honly, hcloses, hreopens] using hpasses
      | false =>
          simp only [isKept, hblock, hparts, Bool.not_true, Bool.false_or, Bool.and_eq_true,
            beq_iff_eq, Bool.or_eq_true, Bool.not_eq_true'] at hkept
          obtain ⟨hsame, hseamless | hclosed⟩ := hkept
          · rw [isOpenAt, isOpenAt, ← hsame]
            exact .seamless _ hseamless
          · rw [isOpenAt, isOpenAt, ← hsame, hclosed, Bool.and_false]
            exact .between hparts

/-- A paragraph has a tag at each side where it is open. -/
theorem needsTag_eq_isOpenAt {way : Way} {children : List Content} (h : isHosted way)
    (hnested : openStyles children = some []) :
    needsTag children way .start = isOpenAt way [] children ∧
      needsTag children way .stop = isOpenAt way children [] := by
  cases way with
  | nil => cases h
  | cons place outer =>
      cases honly : (position (place :: outer)).isFirst && (position (place :: outer)).isLast with
      | true => simp [needsTag, isOpenAt, honly]
      | false =>
          rw [isHosted, honly, Bool.or_false] at h
          obtain ⟨hstart, hstop⟩ := needsTag_eq h honly hnested
          simp [isOpenAt, honly, hstart, hstop]

end Balance

namespace Node

/-- A node leaves the paragraphs of a page well formed: it is no single line, a paragraph has its
block styles nested and goes on as it is to behind each child, and nothing steps through an included
text where internal blocks are not shown. -/
structure KeepsParagraphs (internalDocs : Bool) (n : Node) : Prop where
  isTagged : n.content ≠ .root true
  nested : n.kind = .paragraph → Balance.openStyles (n.children.map content) = some []
  kept : n.kind = .paragraph → Balance.areKept internalDocs [] (n.children.map content)
  unseen : n.kind = .internal → internalDocs = false → n.Everywhere (·.kind ≠ .includeStep)

instance (internalDocs : Bool) : DecidablePred (KeepsParagraphs internalDocs) := fun n =>
  decidable_of_iff
    (n.content ≠ .root true ∧
      (n.kind = .paragraph → Balance.openStyles (n.children.map content) = some []) ∧
      (n.kind = .paragraph → Balance.areKept internalDocs [] (n.children.map content)) ∧
      (n.kind = .internal → internalDocs = false → n.Everywhere (·.kind ≠ .includeStep)))
    ⟨fun ⟨isTagged, nested, kept, unseen⟩ => ⟨isTagged, nested, kept, unseen⟩,
      fun h => ⟨h.isTagged, h.nested, h.kept, h.unseen⟩⟩

end Node

namespace Rendering

variable {r : Rendering} {context : RenderContext} {way : Way}

/-- What every tree of some trees keeps, all of them keep. -/
theorem nodes_keep {P : Rendering → Prop} {place : Nat → Way} {index : Nat} {nodes : List Node}
    (hnodes : ∀ n ∈ nodes, ∀ index r, P r → P (node context (place index) r n)) (h : P r) :
    P (Rendering.nodes context place index r nodes) := by
  induction nodes generalizing r index with
  | nil => exact h
  | cons n rest ih =>
      obtain ⟨hn, hrest⟩ := List.forall_mem_cons.1 hnodes
      exact ih hrest (hn index r h)

theorem below_keep {P : Rendering → Prop} {n : Node}
    (hheads : ∀ head ∈ n.heads, ∀ r, P r →
      P (node context (placeBelow n none :: way) r head))
    (hchildren : ∀ child ∈ n.children, ∀ index r, P r →
      P (node context (placeBelow n (some index) :: way) r child)) (h : P r) :
    P (below context way r n) := by
  refine nodes_keep hchildren ?_
  split
  · exact h
  · exact nodes_keep (fun head hhead _ => hheads head hhead) h

theorem exists_paragraph {n : Node} (hn : n.kind = .paragraph) :
    ∃ paragraph, n.content = .paragraph paragraph := by
  unfold Node.kind at hn
  cases hcontent : n.content <;> rw [hcontent] at hn <;> first
    | exact ⟨_, rfl⟩
    | cases hn

theorem exists_whiteSpace {n : Node} (hn : n.kind = .whiteSpace) :
    ∃ written, n.content = .whiteSpace written := by
  unfold Node.kind at hn
  cases hcontent : n.content <;> rw [hcontent] at hn <;> first
    | exact ⟨_, rfl⟩
    | cases hn

theorem enter_paragraph {n : Node} (hn : n.kind = .paragraph) :
    r.enter context way n =
      if Balance.needsTag (n.children.map Node.content) way .start then
        r.opening "p" (units (Balance.position way).edge.attributes)
      else r := by
  obtain ⟨paragraph, hcontent⟩ := exists_paragraph hn
  rw [enter, hcontent]
  rfl

theorem leave_paragraph {n : Node} (hn : n.kind = .paragraph) :
    r.leave context way n =
      if Balance.needsTag (n.children.map Node.content) way .stop then
        (r.closing "p").layout "\n"
      else r := by
  obtain ⟨paragraph, hcontent⟩ := exists_paragraph hn
  rw [leave, hcontent]
  rfl

/-! ### Hidden trees -/

/-- Output is hidden to some depth, and these paragraph tags have been written. -/
structure Hidden (r : Rendering) (depth : Nat) (tags : List Balance.Tag) : Prop where
  steady : r.Steady (depth + 1)
  tags : r.paragraphTags = tags

theorem Steady.hidden_eq {depth : Nat} (h : r.Steady (depth + 1)) : r.page.hidden = true :=
  congrArg Prod.fst h.shade

namespace Hidden

variable {depth : Nat} {tags : List Balance.Tag}

theorem enter {n : Node} (h : r.Hidden depth tags) (hn : n.Conforms)
    (hcomposite : n.kind.isComposite) :
    (r.enter context way n).Hidden (depth + (hidesBelow context n.content).toNat) tags := by
  have hsteady : (r.enter context way n).Steady _ := h.steady.enter hn
  have hhidden := h.steady.hidden_eq
  refine ⟨by rwa [Nat.add_right_comm], Eq.trans ?_ h.tags⟩
  by_cases hparagraph : n.kind = .paragraph
  · rw [enter_paragraph hparagraph]
    split
    · exact r.page.paragraphTags_put_of_hidden _ hhidden
    · rfl
  · rw [paragraphTags_enter hn hcomposite hparagraph,
      paragraphTags_closeParagraph_of_hidden hhidden, ite_self]

theorem leave {n : Node}
    (h : r.Hidden (depth + (hidesBelow context n.content).toNat) tags)
    (hcomposite : n.kind.isComposite) : (r.leave context way n).Hidden depth tags := by
  have hsteady : (r.leave context way n).Steady _ := h.steady.leave
  have hhidden := h.steady.hidden_eq
  rw [Nat.add_right_comm, Nat.add_sub_cancel] at hsteady
  refine ⟨hsteady, Eq.trans ?_ h.tags⟩
  by_cases hparagraph : n.kind = .paragraph
  · rw [leave_paragraph hparagraph]
    split
    · rw [paragraphTags_layout]
      exact r.page.paragraphTags_put_of_hidden _ hhidden
    · rfl
  · cases hparts : n.content.partsParagraph with
    | false => exact paragraphTags_leave hparagraph hparts
    | true =>
        obtain ⟨r', heq, htags⟩ :
            ∃ r' : Rendering, r.leave context way n = r'.reopenParagraph way ∧ _ :=
          exists_leave_eq hcomposite hparts
        rw [heq, steady_reopenParagraph] at hsteady
        rw [heq, paragraphTags_reopenParagraph_of_hidden hsteady.hidden_eq, htags]

/-- Of a hidden tree no paragraph tag is written. -/
theorem node {n : Node} (hn : n.Everywhere Node.Proper)
    (hsteps : n.Everywhere (·.kind ≠ .includeStep)) (h : r.Hidden depth tags) :
    (Rendering.node context way r n).Hidden depth tags := by
  induction n using Node.part_induct generalizing r way depth with
  | node n ih =>
      cases hcomposite : n.kind.isComposite with
      | false =>
          rw [node_leaf hcomposite, leaf, if_pos]
          · exact h
          · have hstep : n.content.kind ≠ .includeStep := hsteps.here
            simp [h.steady.hidden_eq, hstep]
      | true =>
          rw [node_composite hcomposite]
          refine Hidden.leave ?_ hcomposite
          have hentered : (r.enter context way n).Hidden _ tags :=
            h.enter hn.here.toConforms hcomposite
          have hparts : ∀ part ∈ n.parts, ∀ {way r depth}, Hidden r depth tags →
              (Rendering.node context way r part).Hidden depth tags :=
            fun part hpart => ih part hpart (hn.part hpart) (hsteps.part hpart)
          refine below_keep (P := (Hidden · _ tags)) (fun head hhead _ => ?_)
            (fun child hchild _ _ => ?_) hentered
          · exact hparts head (Node.mem_parts.2 (.inr (.inl hhead)))
          · exact hparts child (Node.mem_parts.2 (.inr (.inr hchild)))

end Hidden

/-! ### Nodes that hold text -/

theorem paragraph?_placeBelow {n : Node} (hn : n.kind ≠ .paragraph) (index : Option Nat) :
    Balance.paragraph? (placeBelow n index :: way) = none := by
  unfold Balance.paragraph? placeBelow
  dsimp only
  split
  · next hcontent => exact absurd (congrArg Content.kind hcontent) hn
  · rfl

/-- Below a node that holds text within a line, no paragraph tag is written. -/
theorem paragraphTags_below_of_holdsText {n : Node} (hn : n.Conforms) (htext : n.kind.holdsText) :
    (below context way r n).paragraphTags = r.paragraphTags := by
  obtain ⟨hkind, -⟩ := Kind.kind_of_holdsText htext
  refine below_keep (P := (·.paragraphTags = r.paragraphTags)) (fun head hhead => ?_)
    (fun child hchild index r' h => ?_) rfl
  · have hheads := hn.heads head hhead
    rw [Kind.heads_of_holdsText htext] at hheads
    cases hheads
  · have hinline := Kind.isInline_of_holdsText htext (hn.children child hchild)
    rw [node_leaf (Kind.isComposite_of_isInline hinline),
      paragraphTags_leaf_inline hinline (paragraph?_placeBelow hkind _), h]

/-- A node that holds text and parts no paragraph writes no paragraph tag. -/
theorem paragraphTags_node_of_holdsText {n : Node} (hn : n.Conforms) (htext : n.kind.holdsText)
    (hparts : n.content.partsParagraph = false) :
    (node context way r n).paragraphTags = r.paragraphTags := by
  obtain ⟨hkind, -⟩ := Kind.kind_of_holdsText htext
  have hcomposite := Kind.isComposite_of_holdsText htext
  rw [node_composite hcomposite, paragraphTags_leave hkind hparts,
    paragraphTags_below_of_holdsText hn htext, paragraphTags_enter hn hcomposite hkind, hparts,
    if_neg nofun]

/-! ### Shown trees -/

/-- A tree does to the paragraph around it what its root does. -/
def PassesOn (context : RenderContext) (n : Node) : Prop :=
  ∀ ⦃way : Way⦄ ⦃r : Rendering⦄ ⦃isOpen isOpen' : Bool⦄,
    Balance.Passes context.settings.internalDocs way n.content isOpen isOpen' →
    (n.kind = .paragraph → Balance.isHosted way) →
    r.Alternates isOpen → (node context way r n).Alternates isOpen'

theorem passesOn_leaf {n : Node} (hn : n.Proper) (hstep : n.kind ≠ .includeStep)
    (hleaf : n.kind.isComposite = false) : PassesOn context n := by
  intro way r isOpen isOpen' hpasses _ h
  rw [node_leaf hleaf]
  cases hparts : n.content.partsParagraph with
  | false =>
      rw [hpasses.eq hparts]
      exact h.keep (h.steady.leaf hstep hn.symbol) (paragraphTags_leaf hparts)
  | true =>
      cases hpasses with
      | seamless _ hseamless =>
          exact absurd ((Balance.partsParagraph_of_isSeamless hseamless).symm.trans hparts) nofun
      | between hother => exact absurd (hother.symm.trans hparts) nofun
      | parts =>
          rw [leaf, if_neg (by simp [h.hidden_eq])]
          exact h.shownLeaf hparts hleaf

/-- A node that holds text does. -/
theorem passesOn_text {n : Node} (hn : n.Everywhere Node.Proper) (htext : n.kind.holdsText)
    (hparts : n.content.partsParagraph = false) : PassesOn context n := by
  intro way r isOpen isOpen' hpasses _ h
  rw [hpasses.eq hparts]
  obtain ⟨-, hstep⟩ := Kind.kind_of_holdsText htext
  have hshown : (node context way r n).Within 0 := showsAgain hn hstep ⟨0, le_rfl, h.steady⟩
  exact h.keep hshown.steady
    (paragraphTags_node_of_holdsText hn.here.toConforms htext hparts)

/-- Internal blocks do that are not shown. -/
theorem passesOn_unseen {n : Node} (hn : n.Everywhere Node.Proper) (hkind : n.content = .internal)
    (hinternal : context.settings.internalDocs = false)
    (hsteps : n.Everywhere (·.kind ≠ .includeStep)) : PassesOn context n := by
  intro way r isOpen isOpen' hpasses _ h
  have hcomposite : n.kind.isComposite := by rw [Node.kind, hkind]; rfl
  have hparagraph : n.kind ≠ .paragraph := by rw [Node.kind, hkind]; decide
  have hparts : n.content.partsParagraph = false := by rw [hkind]; rfl
  have hhides : hidesBelow context n.content = true := by simp [hkind, hidesBelow, hinternal]
  have hconforms := hn.here.toConforms
  rw [hpasses.eq hparts, node_composite hcomposite]
  have hentered : (r.enter context way n).Hidden 0 r.paragraphTags := by
    refine ⟨?_, ?_⟩
    · have hsteady : (r.enter context way n).Steady _ := h.steady.enter hconforms
      rwa [hhides] at hsteady
    · rw [paragraphTags_enter hconforms hcomposite hparagraph, hparts, if_neg Bool.false_ne_true]
  have hbelow : (below context way (r.enter context way n) n).Hidden 0 r.paragraphTags := by
    refine below_keep (P := (Hidden · 0 _)) (fun head hhead _ => ?_) (fun child hchild _ _ => ?_)
      hentered
    · exact Hidden.node (hn.head hhead) (hsteps.head hhead)
    · exact Hidden.node (hn.child hchild) (hsteps.child hchild)
  refine h.keep ?_ ?_
  · have hsteady : ((below context way (r.enter context way n) n).leave context way n).Steady _ :=
      hbelow.steady.leave
    rwa [hhides] at hsteady
  · rw [paragraphTags_leave hparagraph hparts, hbelow.tags]

/-! ### Nodes that hold whole paragraphs -/

/-- A node that lists paragraphs gives them tags, or has only one. -/
theorem isHosted_placeBelow {n child : Node} (hn : n.Conforms) (hchild : child ∈ n.children)
    (hkind : child.kind = .paragraph) (hroot : n.content ≠ .root true) (index : Nat) :
    Balance.isHosted (placeBelow n (some index) :: way) := by
  have hlists := hn.children child hchild
  rw [hkind, Node.kind] at hlists
  unfold placeBelow
  generalize n.content = content at hlists hroot
  cases content with
  | root singleLine =>
      cases singleLine with
      | true => exact absurd rfl hroot
      | false => rfl
  | _ => first
      | rfl
      | cases hlists

/-- Where a node parts a paragraph, it is closed before the nodes below. -/
theorem Alternates.enter {n : Node}
    (h : r.Alternates (n.content.partsParagraph && Balance.closesBefore way)) (hn : n.Conforms)
    (hcomposite : n.kind.isComposite) (hparagraph : n.kind ≠ .paragraph)
    (hshown : hidesBelow context n.content = false) :
    (r.enter context way n).Alternates false := by
  have hsteady : (r.enter context way n).Steady _ := h.steady.enter hn
  have htags : (r.enter context way n).paragraphTags = _ :=
    paragraphTags_enter hn hcomposite hparagraph
  rw [hshown] at hsteady
  cases hparts : n.content.partsParagraph with
  | false =>
      rw [hparts, if_neg nofun] at htags
      rw [hparts, Bool.false_and] at h
      exact h.keep hsteady htags
  | true =>
      rw [hparts, if_pos rfl] at htags
      rw [hparts, Bool.true_and] at h
      exact h.closeParagraph.keep hsteady htags

/-- Behind them it is opened again. -/
theorem Alternates.leave {n : Node} (h : r.Alternates false) (hcomposite : n.kind.isComposite)
    (hparagraph : n.kind ≠ .paragraph) (hshown : hidesBelow context n.content = false) :
    (r.leave context way n).Alternates
      (n.content.partsParagraph && Balance.reopensAfter way) := by
  have hsteady : (r.leave context way n).Steady _ := h.steady.leave
  rw [hshown] at hsteady
  cases hparts : n.content.partsParagraph with
  | false => exact h.keep hsteady (paragraphTags_leave hparagraph hparts)
  | true =>
      obtain ⟨r', heq, htags⟩ :
          ∃ r' : Rendering, r.leave context way n = r'.reopenParagraph way ∧ _ :=
        exists_leave_eq hcomposite hparts
      rw [heq] at hsteady ⊢
      exact (h.keep ((steady_reopenParagraph way).1 hsteady) htags).reopenParagraph

/-- The trees below a node that is no paragraph itself write whole paragraphs. -/
theorem Alternates.below {n : Node} (h : r.Alternates false) (hn : n.Conforms)
    (hparagraph : n.kind ≠ .paragraph) (hroot : n.content ≠ .root true)
    (hparts : ∀ part ∈ n.parts, part.kind ≠ .includeStep → PassesOn context part) :
    (below context way r n).Alternates false := by
  refine below_keep (P := (Alternates · false)) (fun head hhead r h => ?_)
    (fun child hchild index r h => ?_) h
  · obtain ⟨hkind, hstep⟩ := hn.head_kind hhead
    exact hparts head (Node.mem_parts.2 (.inr (.inl hhead))) hstep
      (.outside (paragraph?_placeBelow hparagraph _) _) (fun h => absurd h hkind) h
  · exact hparts child (Node.mem_parts.2 (.inr (.inr hchild)))
      (hn.child_kind hchild hparagraph)
      (.outside (paragraph?_placeBelow hparagraph _) _)
      (fun hkind => isHosted_placeBelow hn hchild hkind hroot index) h

theorem passesOn_branch {n : Node} (hn : n.Conforms) (hcomposite : n.kind.isComposite)
    (hparagraph : n.kind ≠ .paragraph) (hroot : n.content ≠ .root true)
    (hshown : hidesBelow context n.content = false)
    (hseam : n.content.isSeamless context.settings.internalDocs = false)
    (hparts : ∀ part ∈ n.parts, part.kind ≠ .includeStep → PassesOn context part) :
    PassesOn context n := by
  intro way r isOpen isOpen' hpasses _ h
  obtain ⟨rfl, rfl⟩ := hpasses.eq_of_composite hcomposite hseam
  rw [node_composite hcomposite]
  exact ((h.enter hn hcomposite hparagraph hshown).below hn hparagraph hroot hparts).leave
    hcomposite hparagraph hshown

/-! ### Paragraphs -/

/-- Some children of a paragraph have been written, and others are to follow.  Output may be hidden
while a run of include steps is open. -/
structure Partway (way : Way) (before after : List Node) (r : Rendering) : Prop where
  within : ∃ isOpen, runOpen? before.reverse = some isOpen ∧ r.Within isOpen.toNat
  tags : Balance.Alternates
    (Balance.isOpenAt way (before.map Node.content) (after.map Node.content)) r.paragraphTags

namespace Partway

variable {before after : List Node} {child : Node}

/-- A child that is text, written without a paragraph tag. -/
theorem text {r' : Rendering} {isOpen : Bool} (h : Partway way before (child :: after) r)
    (hblock : child.content.isBlock = false)
    (hrun : runOpen? (child :: before.reverse) = some isOpen) (hwithin : r'.Within isOpen.toNat)
    (htags : r'.paragraphTags = r.paragraphTags) : Partway way (before ++ [child]) after r' := by
  refine ⟨⟨isOpen, by rwa [List.reverse_append], hwithin⟩, ?_⟩
  have halternates := h.tags
  rw [List.map_cons, Balance.isOpenAt, ← Balance.isOpenBetween_snoc _ _ hblock] at halternates
  rw [htags, List.map_append]
  exact halternates

/-- One more child is written. -/
theorem step (paragraph : Paragraph) {isOpen : Bool}
    (h : Partway way before (child :: after) r)
    (hrun : runOpen? (child :: before.reverse) = some isOpen)
    (hpasses : child.kind ≠ .includeStep → PassesOn context child)
    (hpart : child.kind.isParagraphPart)
    (hnested : Balance.openStyles ((before ++ child :: after).map Node.content) = some [])
    (hkept : Balance.isKept context.settings.internalDocs (before.map Node.content) child.content
      (after.map Node.content)) :
    Partway way (before ++ [child]) after
      (node context (Balance.wayTo paragraph way ((before ++ child :: after).map Node.content)
        before.length) r child) := by
  obtain ⟨isOpen', hbefore, hwithin⟩ := h.within
  have hchild := Balance.passes_child paragraph way (by simpa using hnested) hpart hkept
  rw [← List.map_cons, ← List.map_append, List.length_map] at hchild
  generalize Balance.wayTo paragraph way _ before.length = way' at hchild ⊢
  by_cases hstep : child.kind = .includeStep
  · obtain ⟨step, hcontent⟩ := Node.exists_includeStep hstep
    have hblock : child.content.isBlock = false := by rw [hcontent]; rfl
    have hnext := hrun
    rw [Node.runOpen?_includeStep hcontent, hbefore, Option.bind_some] at hnext
    rw [node_includeStep hcontent]
    split at hnext
    next => cases hnext
    next hfirst =>
        obtain rfl := Option.some.inj hnext
        refine h.text hblock hrun ?_ (paragraphTags_includeStep step)
        have hwithin : r.Within (0 + isOpen'.toNat) := by rwa [Nat.zero_add]
        have hwritten : (r.includeStep context step).Within _ :=
          hwithin.includeStep step (by simpa using hfirst)
        rwa [Nat.zero_add] at hwritten
  · obtain rfl := Node.runOpen?_same hstep hbefore hrun
    cases isOpen with
    | true =>
        -- nothing but white space interrupts a run
        have hspace : child.kind = .whiteSpace := by
          by_contra hspace
          rw [Node.runOpen?_other hstep hspace, hbefore] at hrun
          cases hrun
        obtain ⟨written, hcontent⟩ := exists_whiteSpace hspace
        obtain ⟨depth, hdepth, hsteady⟩ := hwithin
        have hwritten : (r.leaf context way' child.content).Steady depth :=
          hsteady.leaf hstep fun name hname => by rw [hcontent] at hname; cases hname
        rw [node_leaf (by rw [hspace]; rfl)]
        refine h.text ?_ hrun ⟨depth, hdepth, hwritten⟩ (paragraphTags_leaf ?_)
        all_goals rw [hcontent]; rfl
    | false =>
        have hpassed : (node context way' r child).Alternates _ :=
          hpasses hstep hchild (fun hkind => by rw [hkind] at hpart; cases hpart)
            ⟨hwithin.steady, h.tags⟩
        refine ⟨⟨false, by rwa [List.reverse_append], 0, le_rfl, hpassed.steady⟩, ?_⟩
        rw [List.map_append]
        exact hpassed.tags

/-- All children are written. -/
theorem children (paragraph : Paragraph) (h : Partway way before after r)
    (hruns : runOpen? ((before ++ after).reverse) = some false)
    (hpasses : ∀ child ∈ after, child.kind ≠ .includeStep → PassesOn context child)
    (hpart : ∀ child ∈ after, child.kind.isParagraphPart)
    (hnested : Balance.openStyles ((before ++ after).map Node.content) = some [])
    (hkept : Balance.areKept context.settings.internalDocs (before.map Node.content)
      (after.map Node.content)) :
    Partway way (before ++ after) []
      (nodes context (Balance.wayTo paragraph way ((before ++ after).map Node.content))
        before.length r after) := by
  induction after generalizing before r with
  | nil => rwa [List.append_nil]
  | cons child after ih =>
      obtain ⟨hpass, hpasses⟩ := List.forall_mem_cons.1 hpasses
      obtain ⟨hchildPart, hpart⟩ := List.forall_mem_cons.1 hpart
      obtain ⟨hchildKept, hkept⟩ := Bool.and_eq_true_iff.1 hkept
      have hrun : ∃ isOpen, runOpen? (child :: before.reverse) = some isOpen := by
        rw [List.append_cons, List.reverse_append, List.reverse_append] at hruns
        exact Node.exists_runOpen?_of_append hruns
      obtain ⟨isOpen, hrun⟩ := hrun
      have hstep := h.step paragraph hrun hpass hchildPart hnested hchildKept
      rw [List.append_cons before child after] at hruns hnested hstep ⊢
      have hrest := ih hstep hruns hpasses hpart hnested (by rwa [List.map_append])
      rwa [List.length_append, List.length_singleton] at hrest

end Partway

section

variable {n : Node}

/-- In front of its children a paragraph is opened where they need it. -/
theorem Alternates.enterParagraph (h : r.Alternates false) (hkind : n.kind = .paragraph)
    (hhosted : Balance.isHosted way)
    (hnested : Balance.openStyles (n.children.map Node.content) = some []) :
    (r.enter context way n).Alternates
      (Balance.isOpenAt way [] (n.children.map Node.content)) := by
  obtain ⟨hstart, -⟩ := Balance.needsTag_eq_isOpenAt hhosted hnested
  rw [enter_paragraph hkind, ← hstart]
  split
  · next hneeds => exact hneeds ▸ h.opening _
  · next hneeds => exact Bool.eq_false_iff.2 hneeds ▸ h

/-- Behind its children a paragraph is closed where they leave it open. -/
theorem Alternates.leaveParagraph
    (h : r.Alternates (Balance.isOpenAt way (n.children.map Node.content) []))
    (hkind : n.kind = .paragraph) (hhosted : Balance.isHosted way)
    (hnested : Balance.openStyles (n.children.map Node.content) = some []) :
    (r.leave context way n).Alternates false := by
  obtain ⟨-, hstop⟩ := Balance.needsTag_eq_isOpenAt hhosted hnested
  rw [leave_paragraph hkind]
  rw [← hstop] at h
  split
  · next hneeds =>
    have hclosed := (hneeds ▸ h).closing
    exact hclosed.keep ((steady_layout _).2 hclosed.steady) (paragraphTags_layout _)
  · next hneeds => exact Bool.eq_false_iff.2 hneeds ▸ h

/-- The children of a paragraph go on from one to the next. -/
theorem Alternates.belowParagraph
    (h : r.Alternates (Balance.isOpenAt way [] (n.children.map Node.content))) (hn : n.Proper)
    (hkind : n.kind = .paragraph) (hkeeps : n.KeepsParagraphs context.settings.internalDocs)
    (hparts : ∀ part ∈ n.parts, part.kind ≠ .includeStep → PassesOn context part) :
    (Rendering.below context way r n).Alternates
      (Balance.isOpenAt way (n.children.map Node.content) []) := by
  obtain ⟨paragraph, hcontent⟩ := exists_paragraph hkind
  have hbegun : Partway way [] n.children r := ⟨⟨false, rfl, 0, le_rfl, h.steady⟩, h.tags⟩
  have hwritten := hbegun.children paragraph hn.runs
    (fun child hchild => hparts child (Node.mem_parts.2 (.inr (.inr hchild))))
    (fun child hchild => by simpa [hkind, Kind.lists] using hn.children child hchild)
    (hkeeps.nested hkind) (hkeeps.kept hkind)
  have hheads : n.heads = [] := by
    refine List.eq_nil_iff_forall_not_mem.2 fun head hhead => ?_
    have hheads := hn.heads head hhead
    rw [hkind] at hheads
    cases hheads
  have hbelow : Rendering.below context way r n =
      nodes context (Balance.wayTo paragraph way (n.children.map Node.content)) 0 r n.children := by
    simp only [Rendering.below, hheads, nodes, ite_self, placeBelow, hcontent]
    rfl
  rw [hbelow]
  obtain ⟨_, hrun, hwithin⟩ := hwritten.within
  obtain rfl := Option.some.inj (hn.runs.symm.trans hrun)
  exact ⟨hwithin.steady, hwritten.tags⟩

theorem passesOn_paragraph (hn : n.Proper) (hkind : n.kind = .paragraph)
    (hkeeps : n.KeepsParagraphs context.settings.internalDocs)
    (hparts : ∀ part ∈ n.parts, part.kind ≠ .includeStep → PassesOn context part) :
    PassesOn context n := by
  intro way r isOpen isOpen' hpasses hhosted h
  obtain ⟨paragraph, hcontent⟩ := exists_paragraph hkind
  have hcomposite : n.kind.isComposite := by rw [hkind]; rfl
  have hseam : n.content.isSeamless context.settings.internalDocs = false := by rw [hcontent]; rfl
  have hunparted : n.content.partsParagraph = false := by rw [hcontent]; rfl
  obtain ⟨rfl, rfl⟩ := hpasses.eq_of_composite hcomposite hseam
  rw [hunparted, Bool.false_and] at h ⊢
  rw [node_composite hcomposite]
  have hopened : (r.enter context way n).Alternates _ :=
    h.enterParagraph hkind (hhosted hkind) (hkeeps.nested hkind)
  exact (hopened.belowParagraph hn hkind hkeeps hparts).leaveParagraph hkind (hhosted hkind)
    (hkeeps.nested hkind)

end

/-! ### Documents -/

theorem hidesBelow_eq_false {c : Content} (h : c.isSeamless context.settings.internalDocs = false) :
    hidesBelow context c = false := by
  cases c <;> first
    | rfl
    | exact h

/-- Of composite nodes, only internal blocks are seamless besides those that hold text. -/
theorem internal_or_holdsText {n : Node} {internalDocs : Bool} (hcomposite : n.kind.isComposite)
    (h : n.content.isSeamless internalDocs) :
    n.content = .internal ∧ internalDocs = false ∨ n.kind.holdsText := by
  unfold Node.kind at hcomposite ⊢
  generalize n.content = content at hcomposite h
  cases content with
  | internal => exact .inl ⟨rfl, by simpa [Content.isSeamless] using h⟩
  | image | hyperlink | link | reference | internalReference | copy => exact .inr rfl
  | _ => first
      | exact Bool.noConfusion hcomposite
      | exact Bool.noConfusion h

/-- Every tree does to the paragraph around it what its root does. -/
theorem passesOn {n : Node} (hn : n.Everywhere Node.Proper)
    (hkeeps : n.Everywhere (Node.KeepsParagraphs context.settings.internalDocs))
    (hstep : n.kind ≠ .includeStep) : PassesOn context n := by
  induction n using Node.part_induct with
  | node n ih =>
      have hparts : ∀ part ∈ n.parts, part.kind ≠ .includeStep → PassesOn context part :=
        fun part hpart => ih part hpart (hn.part hpart) (hkeeps.part hpart)
      cases hcomposite : n.kind.isComposite with
      | false => exact passesOn_leaf hn.here hstep hcomposite
      | true =>
          by_cases hparagraph : n.kind = .paragraph
          · exact passesOn_paragraph hn.here hparagraph hkeeps.here hparts
          · cases hseam : n.content.isSeamless context.settings.internalDocs with
            | false =>
                exact passesOn_branch hn.here.toConforms hcomposite hparagraph
                  hkeeps.here.isTagged (hidesBelow_eq_false hseam) hseam hparts
            | true =>
                obtain ⟨hinternal, hunseen⟩ | htext := internal_or_holdsText hcomposite hseam
                · have hkind : n.kind = .internal := congrArg Content.kind hinternal
                  exact passesOn_unseen hn hinternal hunseen (hkeeps.here.unseen hkind hunseen)
                · exact passesOn_text hn htext (Balance.partsParagraph_of_isSeamless hseam)

/-- The paragraph tags of a document alternate, the first opening a paragraph and the last closing
one. -/
theorem document_alternates (relPath : Text) (diagramCounts : DiagramCounts) (way : Way) {n : Node}
    (hroot : n.kind = .root) (hn : n.Everywhere Node.Proper)
    (hkeeps : n.Everywhere (Node.KeepsParagraphs context.settings.internalDocs)) :
    (document context relPath diagramCounts way n).Alternates false := by
  have hparts : n.content.partsParagraph = false := by
    unfold Node.kind at hroot
    generalize n.content = content at hroot
    cases content <;> first
      | rfl
      | cases hroot
  refine passesOn hn hkeeps (by rw [hroot]; nofun) (.between hparts) (fun hkind => ?_)
    ⟨⟨rfl, by simp [start]⟩, .nil⟩
  rw [hroot] at hkind
  cases hkind

end Rendering

end DocMarkup
