import DocMarkup.Proofs.Parser.Growth
import DocMarkup.Proofs.Parser.Nesting

/-!
What the elements of a page rely on in the tree of a comment, whether its links lead somewhere or
not.  Styles that are blocks change in paragraphs only, where divisions nest; and only sections with
titles of their own have a title, one at most.
-/

namespace DocMarkup

namespace Node

theorem Matches.styleMark?_eq {n m : Node} (h : Matches n m) : m.styleMark? = n.styleMark? := by
  rcases h.content with hcontent | hmarked
  · unfold styleMark?
    rw [hcontent]
  · have hkind : n.kind ≠ .styleChange := by
      intro hkind
      rw [hkind] at hmarked
      cases hmarked
    rw [styleMark?_eq_none hkind, styleMark?_eq_none (h.kind ▸ hkind)]

theorem styleMarks_eq_of_matches {n m : Node} (h : List.Forall₂ Matches n.children m.children) :
    m.styleMarks = n.styleMarks := by
  unfold styleMarks
  generalize n.children = children, m.children = children' at h
  induction h with
  | nil => rfl
  | cons hn _ ih => rw [List.filterMap_cons, List.filterMap_cons, hn.styleMark?_eq, ih]

/-- Outside paragraphs only styles within a line change. -/
def ChangesInline (n : Node) : Prop :=
  n.kind ≠ .paragraph → ∀ mark ∈ n.styleMarks, Parser.Machine.isInlineStyle mark.1

theorem ignoresMarks_changesInline : IgnoresMarks ChangesInline := by
  intro n m hmatches _ _ hchildren h hkind
  rw [styleMarks_eq_of_matches hchildren]
  exact h (hmatches.kind ▸ hkind)

/-- A simple section has no title, or is one of those with a title of their own and has just the
one. -/
def TitlesSection (n : Node) : Prop :=
  ∀ type, n.content = .simpleSection type →
    n.heads = [] ∨ (type = .user ∨ type = .keyword) ∧ ∃ title, n.heads = [title]

theorem ignoresMarks_titlesSection : IgnoresMarks TitlesSection := by
  intro n m hmatches _ hheads _ h type htype
  rw [hheads]
  refine h type ?_
  rcases hmatches.content with hcontent | hmarked
  · rw [← hcontent, htype]
  · have hkind : n.kind = .simpleSection :=
      hmatches.kind.symm.trans (congrArg Content.kind htype)
    rw [hkind] at hmarked
    cases hmarked

end Node

namespace Parser

/-! ### Styles outside paragraphs -/

theorem Made.styleMark?_eq_none {n : Node} (h : Made n) : n.styleMark? = none := by
  refine Node.styleMark?_eq_none fun hkind => ?_
  cases h with
  | leaf content flags h =>
      cases content <;> first
        | (cases hkind; done)
        | cases h
  | titled content text h =>
      have hcontent : content.kind = .styleChange := hkind
      rw [hcontent] at h
      cases h
  | keyword => cases hkind

theorem IsPlainText.styleMarks_eq {text : List Node} (h : IsPlainText text) :
    text.filterMap Node.styleMark? = [] := by
  refine List.filterMap_eq_nil_iff.2 fun n hn => Node.styleMark?_eq_none fun hkind => ?_
  obtain ⟨content, rfl, hplain, -⟩ := h n hn
  have hcontent : content.kind = .styleChange := hkind
  rw [hcontent] at hplain
  cases hplain

/-- Unless the construct is a paragraph, only styles within a line have changed in it. -/
def Frame.ChangesInline (f : Frame) : Prop :=
  f.construct.kind ≠ .paragraph →
    ∀ mark ∈ f.children.filterMap Node.styleMark?, Machine.isInlineStyle mark.1

theorem grows_inline : Grows Frame.ChangesInline Node.ChangesInline where
  ignores := Node.ignoresMarks_changesInline
  bare _ _ _ := List.forall_mem_nil _
  text content text htext _ := by
    rw [Node.styleMarks]
    dsimp only [Node.branch, Node.children]
    rw [htext.styleMarks_eq]
    exact List.forall_mem_nil _
  keyword title body _ _ _ := by
    rw [Node.styleMarks]
    dsimp only [Node.children]
    split <;> exact List.forall_mem_nil _
  fresh _ _ _ _ := List.forall_mem_nil _
  changes {f g} h _ hf := by
    cases h with
    | construct c h =>
        rw [Frame.ChangesInline, h.kind]
        exact hf
    | adds n hn =>
        intro hkind
        rw [List.filterMap_cons_none hn.styleMark?_eq_none]
        exact hf hkind
    | marks change flags _ hstyle =>
        intro hkind
        exact List.forall_mem_cons.2 ⟨hstyle.resolve_left hkind, hf hkind⟩
    | steps step hkind => exact fun hne => absurd hkind hne
    | trims =>
        intro hkind
        rw [styleMarks_dropTrailingSpace]
        exact hf hkind
  begins {parent parent' c children} h _ hparent hnodes id madeFor := by
    cases h with
    | fresh => exact ⟨hparent, fun _ => List.forall_mem_nil _⟩
    | sectionAfter n before type hkind hchildren hn =>
        refine ⟨fun hne => absurd hkind hne, fun _ => ?_⟩
        have hinline := hnodes n (by simp [hchildren]) (by simp [Node.kind, hn, Content.kind])
        rw [List.filterMap_cons_none rfl, List.filterMap_reverse]
        exact fun mark hmark => hinline mark (List.mem_reverse.1 hmark)
    | parametersAfter n before sect sect' hkind hchildren hn =>
        refine ⟨fun hne => absurd hkind hne, fun _ => ?_⟩
        have hinline := hnodes n (by simp [hchildren]) (by simp [Node.kind, hn, Content.kind])
        rw [List.filterMap_reverse]
        exact fun mark hmark => hinline mark (List.mem_reverse.1 hmark)
  receives {outer inner outer'} h _ _ houter _ := by
    cases h with
    | node hkind =>
        intro hne
        rw [List.filterMap_cons_none]
        · exact houter hne
        · refine Node.styleMark?_eq_none ?_
          rw [inner.kind_toNode]
          exact Machine.Construct.kind_ne_styleChange _
    | nothing | secondCaption => exact houter
    | caption attributes caption opener _ hconstruct =>
        intro hne
        exact houter (by rw [hconstruct]; rintro ⟨⟩)
    | text before after _ hparagraph => exact fun hne => absurd hparagraph hne
  node {f} hsound hq := by
    refine Frame.of_toNode_withChildren Node.ignoresMarks_changesInline hsound fun hkind => ?_
    rw [Node.kind_withChildren, f.kind_toNode] at hkind
    rw [Node.styleMarks, Node.children_withChildren, List.filterMap_reverse]
    exact fun mark hmark => hq hkind mark (List.mem_reverse.1 hmark)

/-! ### Divisions -/

/-- No division is spilled by a link without a target. -/
theorem spillsNone_division {f : Frame} (h : f.ChangesInline) : f.SpillsNone (· == .division) := by
  intro hlink
  have hkind : f.construct.kind ≠ .paragraph := by
    intro hkind
    generalize f.construct = construct at hlink hkind
    cases construct <;> first
      | cases hlink
      | cases hkind
  refine ⟨rfl, fun mark hmark => ?_⟩
  have hinline := h hkind mark hmark
  simp only [Machine.isInlineStyle, Bool.and_eq_true, bne_iff_ne] at hinline
  exact beq_eq_false_iff_ne.2 hinline.1.2

theorem Machine.changesInline_settled {m : Machine} (hm : m.Ready)
    (h : ∀ f ∈ m.stack, f.ChangesInline) : ∀ f ∈ m.settled.stack, f.ChangesInline := by
  unfold settled
  split
  · next style hphase =>
    unfold changeStyle append modifyTop
    split
    · exact h
    · next f outer hstack =>
      rw [hstack] at h
      obtain ⟨hf, houter⟩ := List.forall_mem_cons.1 h
      refine List.forall_mem_cons.2 ⟨fun hkind => ?_, houter⟩
      exact List.forall_mem_cons.2 ⟨(hm.word style hphase).2, hf hkind⟩
  · exact h

/-- Everywhere in the tree of a comment divisions nest. -/
theorem parse_divisions_nest (p : Parser) (comment : Comment) :
    (p.parse comment).1.root.Everywhere fun n =>
      Nested (n.styleMarks.filter fun mark => mark.1 == .division) := by
  have hspills : ∀ k, ∀ f ∈ (p.after comment k).settled.stack,
      f.SpillsNone (· == .division) := by
    intro k f hf
    have hinline : ∀ f ∈ (p.after comment k).stack, f.ChangesInline :=
      fun f hf => (grows_inline.after p comment k f hf).1
    exact spillsNone_division
      (Machine.changesInline_settled (after_ready p comment k) hinline f hf)
  have hnests := nests_of_stylesNest (after_stylesNest hspills _)
  have hinline := grows_inline.parse p comment
  intro n hn
  by_cases hkind : n.kind = .paragraph
  · exact hnests n hn hkind
  · have hnone : (n.styleMarks.filter fun mark => mark.1 == .division) = [] := by
      refine List.filter_eq_nil_iff.2 fun mark hmark => ?_
      have hstyle := hinline n hn hkind mark hmark
      simp only [Machine.isInlineStyle, Bool.and_eq_true, bne_iff_ne] at hstyle
      simpa using hstyle.1.2
    rw [hnone]
    exact .nil

/-! ### Titles -/

/-- What holds of the title of a simple section holds of the open construct. -/
def Frame.TitlesSection (f : Frame) : Prop :=
  ∀ type heads, f.construct = .simpleSection type heads →
    heads = [] ∨ (type = .user ∨ type = .keyword) ∧ ∃ title, heads = [title]

theorem Frame.titlesSection_of_kind {f : Frame} (h : f.construct.kind ≠ .simpleSection) :
    f.TitlesSection :=
  fun _ _ hconstruct => absurd (congrArg Construct.kind hconstruct) h

theorem Frame.titlesSection_of_fresh {f : Frame} (h : f.construct.IsFresh) :
    f.TitlesSection := by
  intro type heads hconstruct
  rw [hconstruct] at h
  rcases h with rfl | ⟨rfl, text, rfl, -⟩
  · exact .inl rfl
  · exact .inr ⟨.inl rfl, _, rfl⟩

theorem grows_titles : Grows Frame.TitlesSection Node.TitlesSection where
  ignores := Node.ignoresMarks_titlesSection
  bare _ _ _ _ := .inl rfl
  text _ _ _ _ _ := .inl rfl
  keyword title body _ _ type htype := by
    obtain rfl : .keyword = type := Content.simpleSection.inj htype
    exact .inr ⟨.inr rfl, _, rfl⟩
  fresh hfresh _ _ := Frame.titlesSection_of_fresh hfresh
  changes {f g} h _ hf := by
    cases h with
    | construct c h =>
        refine Frame.titlesSection_of_kind ?_
        show c.kind ≠ .simpleSection
        generalize f.construct = before at h
        cases h <;> nofun
    | adds | marks | steps | trims => exact hf
  begins {parent parent' c children} h _ hparent hnodes id madeFor := by
    cases h with
    | fresh _ hfresh => exact ⟨hparent, Frame.titlesSection_of_fresh hfresh⟩
    | sectionAfter n before type hkind hchildren hn =>
        refine ⟨hparent, fun type' heads hconstruct => ?_⟩
        obtain ⟨rfl, rfl⟩ := Construct.simpleSection.inj hconstruct
        exact hnodes n (by simp [hchildren]) type hn
    | parametersAfter => exact ⟨hparent, Frame.titlesSection_of_kind nofun⟩
  receives {outer inner outer'} h _ _ houter _ := by
    cases h with
    | node | nothing | secondCaption | text => exact houter
    | caption => exact Frame.titlesSection_of_kind nofun
  node {f} _ hq type htype := by
    rw [f.heads_toNode]
    obtain ⟨construct, children, id, madeFor⟩ := f
    cases construct with
    | simpleSection type' heads =>
        obtain rfl : type' = type := Content.simpleSection.inj htype
        exact hq type' heads rfl
    | _ => cases htype

/-- The simple sections of a comment have the titles that they should. -/
theorem parse_titles (p : Parser) (comment : Comment) :
    (p.parse comment).1.root.Everywhere Node.TitlesSection :=
  grows_titles.parse p comment

end Parser

end DocMarkup
