import DocMarkup.Proofs.Doc.NormalForm
import DocMarkup.Proofs.Parser.Growth

/-!
Every comment is read into a tree in normal form.  The invariant is about open paragraphs: one in
which no style is open any more has been written something into.
-/

namespace DocMarkup.Parser

/-! ### Nodes made whole -/

theorem IsPlainText.hasEnds {text : List Node} (h : IsPlainText text) :
    ∀ n ∈ text, n.kind.hasEnds = false := by
  intro n hn
  obtain ⟨content, rfl, hplain, -⟩ := h n hn
  show content.kind.hasEnds = false
  generalize content.kind = kind at hplain
  cases kind <;> first
    | rfl
    | cases hplain

theorem isNormal_leaf {content : Content} {flags : NodeFlags} (h : content.kind ≠ .paragraph) :
    (Node.node content flags [] [] []).Everywhere Node.IsNormal :=
  Node.everywhere_iff.2 ⟨Node.isNormal_of_none h nofun, nofun⟩

theorem IsPlainText.isNormal {text : List Node} (h : IsPlainText text) :
    ∀ n ∈ text, n.Everywhere Node.IsNormal := by
  intro n hn
  obtain ⟨content, rfl, hplain, -⟩ := h n hn
  refine isNormal_leaf fun hparagraph => ?_
  rw [hparagraph] at hplain
  cases hplain

theorem isNormal_branch {content : Content} {text : List Node} (h : content.kind ≠ .paragraph)
    (htext : IsPlainText text) : (Node.branch content text).Everywhere Node.IsNormal :=
  Node.everywhere_iff.2 ⟨Node.isNormal_of_none h htext.hasEnds, htext.isNormal⟩

/-- The paragraph of a keyword. -/
theorem isNormal_paragraph {paragraph : Paragraph} {text : List Node} (htext : IsPlainText text)
    (hne : text ≠ []) (hend : ∀ last ∈ text.getLast?, last.kind ≠ .whiteSpace) :
    (Node.branch (.paragraph paragraph) text).Everywhere Node.IsNormal := by
  refine Node.everywhere_iff.2 ⟨⟨fun _ => ⟨?_, hend⟩, Node.endsTold_of_none htext.hasEnds⟩,
    htext.isNormal⟩
  obtain ⟨n, hn⟩ := List.exists_mem_of_ne_nil text hne
  obtain ⟨content, rfl, -⟩ := htext n hn
  exact ⟨_, hn, rfl⟩

theorem Made.isNormal {n : Node} (h : Made n) : n.Everywhere Node.IsNormal := by
  cases h with
  | leaf content flags h =>
      refine isNormal_leaf ?_
      cases content <;> first
        | (cases h; done)
        | rintro ⟨⟩
  | titled content text h htext =>
      refine isNormal_branch (fun hparagraph => ?_) htext
      rw [hparagraph] at h
      cases h
  | keyword title body htitle hbody hend =>
      generalize hgiven : (if body.isEmpty then [] else [Node.branch (.paragraph {}) body]) = given
      have hparagraphs : ∀ n ∈ given, n.kind = .paragraph ∧ n.Everywhere Node.IsNormal := by
        subst hgiven
        split
        · exact nofun
        · next hne =>
          refine List.forall_mem_singleton.2 ⟨rfl, isNormal_paragraph hbody ?_ hend⟩
          exact fun hnil => hne (List.isEmpty_iff.2 hnil)
      refine Node.everywhere_iff.2 ⟨⟨by rintro ⟨⟩, ?_⟩, fun part hpart => ?_⟩
      · exact (Node.markParagraphs_spec given).2 fun n hn _ => (hparagraphs n hn).1
      · rcases List.mem_cons.1 hpart with rfl | hpart
        · exact isNormal_branch (by rintro ⟨⟩) htitle
        · obtain ⟨before, hbefore, hrenewed⟩ :=
            Node.exists_of_mem_right (Node.markParagraphs_spec given).1 hpart
          exact hrenewed.normal (hparagraphs before hbefore).2

theorem isNormal_ofSteps : OfSteps Node.IsNormal where
  made := Made.isNormal
  bare content flags hbare := isNormal_leaf fun hparagraph => by
    rw [hparagraph] at hbare
    cases hbare
  title := isNormal_branch (by rintro ⟨⟩)

/-! ### Frames -/

namespace Frame

/-- A paragraph in which no style is open was not made in recovery alone. -/
def KeepsText (f : Frame) : Prop :=
  f.construct.kind = .paragraph → f.construct.styles = [] →
    (∀ n ∈ f.children, n.isSynthetic = false) ∨ f.IsWritten

theorem keepsText_of_ne {f : Frame} (h : f.construct.kind ≠ .paragraph) : f.KeepsText :=
  fun hkind => absurd hkind h

theorem IsWritten.mono {f g : Frame} (h : f.IsWritten)
    (hmem : ∀ n ∈ f.children, n.kind ≠ .whiteSpace → n.kind ≠ .simpleSection →
      n.kind ≠ .paramSection → n ∈ g.children) : g.IsWritten := by
  obtain ⟨n, hn, hwritten, hspace, hsection, hparameters⟩ := h
  exact ⟨n, hmem n hn hspace hsection hparameters, hwritten, hspace, hsection, hparameters⟩

theorem isSynthetic_of_made {n : Node} (h : Made n) : n.isSynthetic = false := by
  cases h with
  | leaf content flags h hflags => exact hflags
  | titled | keyword => rfl

/-- A node that was written is added. -/
theorem KeepsText.cons {f : Frame} (h : f.KeepsText) {n : Node} (hn : n.isSynthetic = false) :
    KeepsText { f with children := n :: f.children } := by
  intro hkind hstyles
  rcases h hkind hstyles with hall | hwritten
  · exact .inl (List.forall_mem_cons.2 ⟨hn, hall⟩)
  · exact .inr (hwritten.mono fun k hk _ _ _ => List.mem_cons_of_mem _ hk)

theorem Changes.keepsText {f g : Frame} (h : f.Changes g) (hf : f.KeepsText) : g.KeepsText := by
  intro hkind hnone
  cases h with
  | construct c h hstyles =>
      rcases hstyles hnone with hbefore | hwritten
      · exact hf (h.kind.symm.trans hkind) hbefore
      · exact .inr hwritten
  | adds n hn => exact hf.cons (isSynthetic_of_made hn) hkind hnone
  | marks change flags hlists hstyle hflags =>
      refine .inr ⟨_, List.mem_cons_self, ?_, by rintro ⟨⟩, by rintro ⟨⟩, by rintro ⟨⟩⟩
      exact Bool.eq_false_iff.2 fun hsynthetic => hflags hsynthetic hnone
  | steps => exact .inr ⟨_, List.mem_cons_self, rfl, by rintro ⟨⟩, by rintro ⟨⟩, by rintro ⟨⟩⟩
  | trims =>
      rcases hf hkind hnone with hall | hwritten
      · exact .inl fun n hn => hall n ((List.dropWhile_sublist _).subset hn)
      · exact .inr (hwritten.mono fun n hn hspace _ _ => mem_dropTrailingSpace hn hspace)

/-- A section that is gone on with was not all that had been written. -/
theorem KeepsText.tail {f : Frame} {n : Node} {before : List Node} (h : f.KeepsText)
    (hchildren : f.children = n :: before)
    (hn : n.kind = .simpleSection ∨ n.kind = .paramSection) :
    KeepsText { f with children := before } := by
  intro hkind hnone
  rcases h hkind hnone with hall | hwritten
  · exact .inl fun k hk => hall k (hchildren ▸ List.mem_cons_of_mem _ hk)
  · refine .inr (hwritten.mono fun k hk _ hsection hparameters => ?_)
    rw [hchildren] at hk
    refine (List.mem_cons.1 hk).resolve_left ?_
    rintro rfl
    exact hn.elim hsection hparameters

theorem Begins.keepsText {parent parent' : Frame} {c : Construct} {children : List Node}
    (h : parent.Begins parent' c children) (hparent : parent.KeepsText) (id : Nat)
    (madeFor : Option Nat) :
    parent'.KeepsText ∧ (Frame.mk c children id madeFor).KeepsText := by
  cases h with
  | fresh => exact ⟨hparent, fun _ _ => .inl nofun⟩
  | sectionAfter n before type hkind hchildren hn =>
      have hsection : n.kind = .simpleSection := congrArg Content.kind hn
      exact ⟨hparent.tail hchildren (.inl hsection), keepsText_of_ne (by rintro ⟨⟩)⟩
  | parametersAfter n before sect sect' hkind hchildren hn =>
      have hsection : n.kind = .paramSection := congrArg Content.kind hn
      exact ⟨hparent.tail hchildren (.inr hsection), keepsText_of_ne (by rintro ⟨⟩)⟩

theorem Receives.keepsText {outer inner outer' : Frame} (h : outer.Receives inner outer')
    (houter : outer.KeepsText) : outer'.KeepsText := by
  cases h with
  | node => exact houter.cons inner.isSynthetic_toNode
  | nothing | secondCaption => exact houter
  | caption => exact keepsText_of_ne (by rintro ⟨⟩)
  | text =>
      refine fun _ _ => .inr ⟨_, List.mem_cons_self, rfl, ?_, ?_, ?_⟩
      all_goals rintro ⟨⟩

/-! ### Constructs that end -/

theorem forall₂_renewed_toNode (f : Frame) :
    List.Forall₂ Node.Renewed f.children.reverse f.toNode.children := by
  have hsame : List.Forall₂ Node.Renewed f.children.reverse f.children.reverse :=
    List.forall₂_same.2 fun n _ => .refl n
  obtain ⟨construct, children, id, madeFor⟩ := f
  cases construct with
  | table attributes caption opener => exact Node.forall₂_renewed_numberRows _ _ _
  | row => exact (Node.markCells_spec _).1
  | paramSection => exact (Node.markParamLists_spec _).1
  | paragraph | autoList | simpleList | refList | list | descList | descTitle | caption | header
  | hyperlink | link => exact hsame
  | root | sect | simpleSection | paramList | xrefItem | autoListItem | simpleListItem | internal
  | parBlock | listItem | descData | cell | blockQuote => exact (Node.markParagraphs_spec _).1

theorem Sound.endsTold_toNode {f : Frame} (h : f.Sound) : Node.EndsTold f.toNode.children := by
  have hlisted : ∀ n ∈ f.children.reverse, f.construct.kind.lists n.kind :=
    fun n hn => (h.held.children n (List.mem_reverse.1 hn)).1
  have hkept : ∀ n ∈ f.toNode.children, f.construct.kind.lists n.kind := by
    intro n hn
    obtain ⟨before, hbefore, hrenewed⟩ := Node.exists_of_mem_right f.forall₂_renewed_toNode hn
    exact hrenewed.kind ▸ hlisted before hbefore
  have hnone (hkinds : ∀ kind : Kind, f.construct.kind.lists kind → kind.hasEnds = false) :
      Node.EndsTold f.toNode.children :=
    Node.endsTold_of_none fun n hn => hkinds n.kind (hkept n hn)
  obtain ⟨construct, children, id, madeFor⟩ := f
  cases construct with
  | row =>
      refine (Node.markCells_spec _).2 fun n hn hends => ?_
      rcases Kind.eq_of_hasEnds (hlisted n hn) hends with hkind | ⟨-, hkind⟩ | ⟨⟨⟩, -⟩
      · exact absurd (hkind ▸ hlisted n hn) (by rintro ⟨⟩)
      · exact hkind
  | paramSection =>
      refine (Node.markParamLists_spec _).2 fun n hn hends => ?_
      rcases Kind.eq_of_hasEnds (hlisted n hn) hends with hkind | ⟨⟨⟩, -⟩ | ⟨-, hkind⟩
      · exact absurd (hkind ▸ hlisted n hn) (by rintro ⟨⟩)
      · exact hkind
  | paragraph | autoList | simpleList | refList | list | descList | descTitle | caption | header
  | hyperlink | link | table =>
      refine hnone fun kind hkind => Bool.eq_false_iff.2 fun hends => ?_
      rcases Kind.eq_of_hasEnds hkind hends with rfl | ⟨⟨⟩, -⟩ | ⟨⟨⟩, -⟩
      cases hkind
  | root | sect | simpleSection | paramList | xrefItem | autoListItem | simpleListItem | internal
  | parBlock | listItem | descData | cell | blockQuote =>
      refine (Node.markParagraphs_spec _).2 fun n hn hends => ?_
      rcases Kind.eq_of_hasEnds (hlisted n hn) hends with hkind | ⟨⟨⟩, -⟩ | ⟨⟨⟩, -⟩
      exact hkind

/-- A paragraph that was closed holds text that was written. -/
theorem IsClosed.isWrittenText {f : Frame} (h : f.IsClosed) (hkind : f.construct.kind = .paragraph)
    (hf : f.KeepsText) : Node.IsWrittenText f.children.reverse := by
  constructor
  · have hwritten : ∃ n ∈ f.children, n.isSynthetic = false := by
      by_cases hnone : f.construct.styles = []
      · rcases hf hkind hnone with hall | ⟨n, hn, hwritten, -⟩
        · obtain ⟨n, hn⟩ := List.exists_mem_of_ne_nil _ h.filled
          exact ⟨n, hn, hall n hn⟩
        · exact ⟨n, hn, hwritten⟩
      · exact h.written hnone
    obtain ⟨n, hn, hwritten⟩ := hwritten
    exact ⟨n, List.mem_reverse.2 hn, hwritten⟩
  · intro last hlast
    rw [List.getLast?_reverse] at hlast
    exact h.trimmed last hlast

theorem isNormal_toNode {f : Frame} (hsound : f.Sound) (hf : f.KeepsText)
    (hshows : f.Shows Node.IsNormal) (hend : f.MayEnd) : f.toNode.Everywhere Node.IsNormal := by
  refine Node.everywhere_iff.2
    ⟨⟨fun hparagraph => ?_, hsound.endsTold_toNode⟩, fun part hpart => ?_⟩
  · rw [f.kind_toNode] at hparagraph
    have htext := (hend hparagraph).isWrittenText hparagraph hf
    obtain ⟨construct, children, id, madeFor⟩ := f
    cases construct with
    | paragraph attributes styles => exact htext
    | _ => cases hparagraph
  · rw [Node.parts, f.types_toNode, f.heads_toNode] at hpart
    rcases List.mem_append.1 hpart with hpart | hchild
    · exact hshows part (List.mem_append_left _ hpart)
    · obtain ⟨before, hbefore, hrenewed⟩ := Node.exists_of_mem_right f.forall₂_renewed_toNode hchild
      exact hrenewed.normal (hshows.child (List.mem_reverse.1 hbefore))

/-- While a construct is open its paragraphs keep their text, and its node is in normal form. -/
theorem upholds_keepsText : Upholds KeepsText Node.IsNormal where
  toOfSteps := isNormal_ofSteps
  fresh _ _ _ := fun _ _ => .inl nofun
  changes h _ hf := h.keepsText hf
  begins h _ hparent _ id madeFor := h.keepsText hparent id madeFor
  receives h _ _ houter _ := h.keepsText houter
  node := isNormal_toNode

end Frame

/-! ### Comments -/

/-- Every comment is read into a tree in normal form. -/
theorem parse_isNormal (p : Parser) (comment : Comment) :
    (p.parse comment).1.root.Everywhere Node.IsNormal :=
  Frame.upholds_keepsText.parse p comment

example : (({} : Parser).parse { text := units "a\n\nb " }).1.root.children.map (·.content.ends?) =
    [some (true, false), some (false, true)] := by
  decide +kernel

end DocMarkup.Parser
