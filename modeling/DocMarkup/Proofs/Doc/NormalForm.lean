import DocMarkup.Proofs.Doc.Marks

/-!
The normal form of documents.  A paragraph holds something that was written and does not end in
white space.  Paragraphs say whether they are the first and the last of those around them, and so do
the cells of a row and the lists of a parameter section.
-/

namespace DocMarkup

/-- Kinds of nodes that say whether they are the first and the last of their kind. -/
def Kind.hasEnds : Kind → Bool
  | paragraph | cell | paramList => true
  | _ => false

/-- Whether a node says that it is the first, and whether it says that it is the last. -/
def Content.ends? : Content → Option (Bool × Bool)
  | .paragraph p => some (p.isFirst, p.isLast)
  | .cell c => some (c.isFirst, c.isLast)
  | .paramList l => some (l.isFirst, l.isLast)
  | _ => none

/-- Paragraphs stand in most nodes, cells only in rows and parameter lists only in their
sections. -/
theorem Kind.eq_of_hasEnds {kind below : Kind} (h : kind.lists below) (hbelow : below.hasEnds) :
    below = .paragraph ∨ kind = .row ∧ below = .cell ∨
      kind = .paramSection ∧ below = .paramList := by
  cases below with
  | paragraph => exact .inl rfl
  | cell =>
      refine .inr (.inl ⟨?_, rfl⟩)
      cases kind <;> first
        | rfl
        | cases h
  | paramList =>
      refine .inr (.inr ⟨?_, rfl⟩)
      cases kind <;> first
        | rfl
        | cases h
  | _ => cases hbelow

theorem Content.hasEnds_of_ends? {content : Content} {ends : Bool × Bool}
    (h : content.ends? = some ends) : content.kind.hasEnds := by
  unfold ends? at h
  split at h
  · rfl
  · rfl
  · rfl
  · cases h

namespace Node

/-- Text of a paragraph: something was written, and it does not end in white space. -/
structure IsWrittenText (nodes : List Node) : Prop where
  written : ∃ n ∈ nodes, n.isSynthetic = false
  trimmed : ∀ last ∈ nodes.getLast?, last.kind ≠ .whiteSpace

/-- Nodes that say whether they are the first or the last of their kind say so rightly. -/
def EndsTold (nodes : List Node) : Prop :=
  ∀ before n after, nodes = before ++ n :: after →
    ∀ isFirst isLast : Bool, n.content.ends? = some (isFirst, isLast) →
      (isFirst ↔ ∀ other ∈ before, other.kind ≠ n.kind) ∧
        (isLast ↔ ∀ other ∈ after, other.kind ≠ n.kind)

/-- A node in normal form. -/
structure IsNormal (n : Node) : Prop where
  paragraph : n.kind = .paragraph → IsWrittenText n.children
  ends : EndsTold n.children

theorem endsTold_of_none {nodes : List Node} (h : ∀ n ∈ nodes, n.kind.hasEnds = false) :
    EndsTold nodes := by
  rintro before n after rfl isFirst isLast hends
  have hnone := h n (List.mem_append_right _ List.mem_cons_self)
  rw [kind, Content.hasEnds_of_ends? hends] at hnone
  cases hnone

theorem isNormal_of_none {n : Node} (hkind : n.kind ≠ .paragraph)
    (h : ∀ child ∈ n.children, child.kind.hasEnds = false) : n.IsNormal :=
  ⟨fun hparagraph => absurd hparagraph hkind, endsTold_of_none h⟩

/-! ### Marks and places -/

/-- A node was marked or placed; it is in normal form if it was before. -/
structure Renewed (n m : Node) : Prop where
  kind : m.kind = n.kind
  normal : n.Everywhere IsNormal → m.Everywhere IsNormal

/-- A node was placed; it says of its ends what it said before. -/
structure KeepsEnds (n m : Node) : Prop extends Renewed n m where
  ends : m.content.ends? = n.content.ends?

theorem Renewed.refl (n : Node) : Renewed n n := ⟨rfl, id⟩

theorem Renewed.trans {n m k : Node} (h : Renewed n m) (h' : Renewed m k) : Renewed n k :=
  ⟨h'.kind.trans h.kind, h'.normal ∘ h.normal⟩

theorem KeepsEnds.refl (n : Node) : KeepsEnds n n := ⟨.refl n, rfl⟩

theorem Renewed.withContent {n : Node} {content : Content} (hkind : content.kind = n.kind) :
    Renewed n (n.withContent content) := by
  refine ⟨hkind, fun hnormal => ?_⟩
  obtain ⟨hhere, hparts⟩ := everywhere_iff.1 hnormal
  refine everywhere_iff.2 ⟨⟨fun hparagraph => ?_, hhere.ends⟩, hparts⟩
  exact hhere.paragraph (hkind.symm.trans hparagraph)

theorem forall_kind_ne_iff {nodes nodes' : List Node} (h : List.Forall₂ KeepsEnds nodes nodes')
    (kind : Kind) : (∀ n ∈ nodes', n.kind ≠ kind) ↔ ∀ n ∈ nodes, n.kind ≠ kind := by
  induction h with
  | nil => exact Iff.rfl
  | cons hn _ ih => rw [List.forall_mem_cons, List.forall_mem_cons, hn.kind, ih]

theorem EndsTold.keeps {nodes nodes' : List Node} (h : EndsTold nodes)
    (hkeeps : List.Forall₂ KeepsEnds nodes nodes') : EndsTold nodes' := by
  rintro before m after rfl isFirst isLast hends
  have hbefore := List.forall₂_take_append _ _ _ hkeeps
  have hrest := List.forall₂_drop_append _ _ _ hkeeps
  have hsplit := (List.take_append_drop before.length nodes).symm
  generalize nodes.take before.length = nodes₁ at hbefore hsplit
  generalize nodes.drop before.length = nodes₂ at hrest hsplit
  cases hrest with
  | cons hn hafter =>
      rw [hn.ends] at hends
      rw [forall_kind_ne_iff hbefore, forall_kind_ne_iff hafter, hn.kind]
      exact h _ _ _ hsplit isFirst isLast hends

theorem Renewed.withChildren {n : Node} {children : List Node}
    (h : List.Forall₂ KeepsEnds n.children children) (hkind : n.kind ≠ .paragraph) :
    Renewed n (n.withChildren children) := by
  refine ⟨rfl, fun hnormal => ?_⟩
  refine everywhere_iff.2 ⟨⟨fun hparagraph => absurd hparagraph hkind, ?_⟩, fun part hpart => ?_⟩
  · exact hnormal.here.ends.keeps h
  · rcases List.mem_append.1 hpart with hpart | hchild
    · exact hnormal.part (List.mem_append_left _ hpart)
    · obtain ⟨before, hbefore, hkeeps⟩ := exists_of_mem_right h hchild
      exact hkeeps.normal (hnormal.child hbefore)

theorem forall₂_keepsEnds_numberCells (row : Whole) (columns : List Whole) (nodes : List Node) :
    List.Forall₂ KeepsEnds nodes (numberCells row columns nodes) := by
  induction nodes generalizing columns with
  | nil =>
      unfold numberCells
      exact .nil
  | cons n rest ih =>
      unfold numberCells
      split
      · next cell column columns hcontent =>
        have hends : n.content.ends? = some (cell.isFirst, cell.isLast) := by rw [hcontent]; rfl
        exact .cons ⟨.withContent (congrArg Content.kind hcontent).symm, hends.symm⟩ (ih columns)
      · exact .cons (.refl n) (ih _)

/-- Rows keep what their cells say of their ends. -/
theorem forall₂_renewed_numberRows (index : Nat) (placed : List Grid.PlacedRow)
    (nodes : List Node) : List.Forall₂ Renewed nodes (numberRows index placed nodes) := by
  induction nodes generalizing index placed with
  | nil =>
      unfold numberRows
      exact .nil
  | cons n rest ih =>
      unfold numberRows
      split
      · next row here placed hcontent =>
        refine .cons ?_ (ih _ _)
        have hkind : n.kind = .row := congrArg Content.kind hcontent
        refine .trans (.withContent ?_) (.withChildren ?_ ?_)
        · exact hkind.symm
        · exact forall₂_keepsEnds_numberCells _ _ _
        · rintro ⟨⟩
      · exact .cons (.refl n) (ih _ _)

/-! ### First and last -/

section
variable {select : Node → Bool} {mark : Bool → Bool → Node → Node}

theorem any_markEnds_go (hmark : ∀ isFirst isLast n, select n → select (mark isFirst isLast n))
    (first : Bool) (nodes : List Node) :
    (markEnds.go select mark first nodes).any select = nodes.any select := by
  induction nodes generalizing first with
  | nil => rfl
  | cons n rest ih =>
      unfold markEnds.go
      split
      · next hselect =>
        rw [List.any_cons, List.any_cons, hmark _ _ n hselect, hselect, Bool.true_or, Bool.true_or]
      · rw [List.any_cons, List.any_cons, ih]

/-- What stands in a list that was marked got its marks from what stands around it there. -/
theorem exists_of_markEnds_go
    (hmark : ∀ isFirst isLast n, select n → select (mark isFirst isLast n)) {first : Bool}
    {nodes before after : List Node} {m : Node}
    (h : markEnds.go select mark first nodes = before ++ m :: after) :
    ∃ n ∈ nodes, m =
      if select n then mark (first && !before.any select) (!after.any select) n else n := by
  induction nodes generalizing first before with
  | nil =>
      unfold markEnds.go at h
      cases before <;> cases h
  | cons n rest ih =>
      unfold markEnds.go at h
      split at h
      · next hselect =>
        cases before with
        | nil =>
            obtain ⟨rfl, rfl⟩ := List.cons.inj h
            refine ⟨n, List.mem_cons_self, ?_⟩
            rw [if_pos hselect, any_markEnds_go hmark, List.any_nil, Bool.not_false, Bool.and_true]
        | cons b before =>
            obtain ⟨rfl, hrest⟩ := List.cons.inj h
            obtain ⟨k, hk, hm⟩ := ih hrest
            refine ⟨k, List.mem_cons_of_mem _ hk, ?_⟩
            rw [hm, List.any_cons, hmark _ _ n hselect, Bool.true_or, Bool.not_true, Bool.and_false,
              Bool.false_and]
      · next hselect =>
        cases before with
        | nil =>
            obtain ⟨rfl, rfl⟩ := List.cons.inj h
            exact ⟨n, List.mem_cons_self, (if_neg hselect).symm⟩
        | cons b before =>
            obtain ⟨rfl, hrest⟩ := List.cons.inj h
            obtain ⟨k, hk, hm⟩ := ih hrest
            refine ⟨k, List.mem_cons_of_mem _ hk, ?_⟩
            rw [hm, List.any_cons, Bool.eq_false_iff.2 hselect, Bool.false_or]

end

theorem any_isKind_eq_false {nodes : List Node} {kind : Kind} :
    (nodes.any (·.isKind kind)) = false ↔ ∀ n ∈ nodes, n.kind ≠ kind := by
  simp only [List.any_eq_false, isKind, beq_iff_eq, ne_eq]

/-- Nodes of one kind that are marked stay as they are otherwise, and say their ends rightly. -/
theorem markEnds_spec {kind : Kind} {mark : Bool → Bool → Node → Node}
    (hmark : ∀ isFirst isLast n, n.kind = kind → ∃ content : Content,
      mark isFirst isLast n = n.withContent content ∧ content.kind = kind ∧
        content.ends? = some (isFirst, isLast)) (nodes : List Node) :
    List.Forall₂ Renewed nodes (markEnds (·.isKind kind) mark nodes) ∧
      ((∀ n ∈ nodes, n.kind.hasEnds → n.kind = kind) →
        EndsTold (markEnds (·.isKind kind) mark nodes)) := by
  constructor
  · refine forall₂_markEnds Renewed.refl (fun isFirst isLast n hselect => ?_) nodes
    have hkind : n.kind = kind := beq_iff_eq.1 hselect
    obtain ⟨content, hmarked, hcontent, -⟩ := hmark isFirst isLast n hkind
    rw [hmarked]
    exact .withContent (hcontent.trans hkind.symm)
  · intro hnodes before m after heq isFirst isLast hends
    have hselected : ∀ isFirst isLast n, n.isKind kind → (mark isFirst isLast n).isKind kind := by
      intro isFirst isLast n hselect
      obtain ⟨content, hmarked, hcontent, -⟩ := hmark isFirst isLast n (beq_iff_eq.1 hselect)
      rw [hmarked]
      exact beq_iff_eq.2 hcontent
    obtain ⟨n, hn, rfl⟩ := exists_of_markEnds_go hselected heq
    by_cases hselect : n.isKind kind
    · rw [if_pos hselect] at hends ⊢
      obtain ⟨content, hmarked, hcontent, hgiven⟩ := hmark (true && !before.any (·.isKind kind))
        (!after.any (·.isKind kind)) n (beq_iff_eq.1 hselect)
      rw [hmarked, content_withContent, hgiven, Bool.true_and] at hends
      obtain ⟨rfl, rfl⟩ := Prod.mk.inj (Option.some.inj hends)
      rw [hmarked, kind_withContent, hcontent, Bool.not_eq_true', Bool.not_eq_true',
        any_isKind_eq_false, any_isKind_eq_false]
      exact ⟨Iff.rfl, Iff.rfl⟩
    · rw [if_neg hselect] at hends
      exact absurd (beq_iff_eq.2 (hnodes n hn (Content.hasEnds_of_ends? hends))) hselect

theorem markParagraphs_spec (nodes : List Node) :
    List.Forall₂ Renewed nodes (markParagraphs nodes) ∧
      ((∀ n ∈ nodes, n.kind.hasEnds → n.kind = .paragraph) → EndsTold (markParagraphs nodes)) := by
  refine markEnds_spec (fun isFirst isLast n hkind => ?_) nodes
  obtain ⟨content, flags, types, heads, children⟩ := n
  cases content <;> first
    | exact ⟨_, rfl, rfl, rfl⟩
    | cases hkind

theorem markCells_spec (nodes : List Node) :
    List.Forall₂ Renewed nodes (markCells nodes) ∧
      ((∀ n ∈ nodes, n.kind.hasEnds → n.kind = .cell) → EndsTold (markCells nodes)) := by
  refine markEnds_spec (fun isFirst isLast n hkind => ?_) nodes
  obtain ⟨content, flags, types, heads, children⟩ := n
  cases content <;> first
    | exact ⟨_, rfl, rfl, rfl⟩
    | cases hkind

theorem markParamLists_spec (nodes : List Node) :
    List.Forall₂ Renewed nodes (markParamLists nodes) ∧
      ((∀ n ∈ nodes, n.kind.hasEnds → n.kind = .paramList) → EndsTold (markParamLists nodes)) := by
  refine markEnds_spec (fun isFirst isLast n hkind => ?_) nodes
  obtain ⟨content, flags, types, heads, children⟩ := n
  cases content <;> first
    | exact ⟨_, rfl, rfl, rfl⟩
    | cases hkind

end Node

end DocMarkup
