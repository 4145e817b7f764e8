import DocMarkup.Proofs.Doc.Mapping

/-!
Marks and places depend on no numbers and change none.  Neither do the nodes in front of the
children of a node have numbers, nor the text within a line.
-/

namespace DocMarkup

namespace Node

/-! ### Nodes without their numbers -/

theorem unnumber_node (content : Content) (flags : NodeFlags) (types heads children : List Node) :
    (Node.node content flags types heads children).unnumber =
      .node content.unnumber flags (types.map unnumber) (heads.map unnumber)
        (children.map unnumber) :=
  mapContent_node ..

@[simp]
theorem content_unnumber (n : Node) : n.unnumber.content = n.content.unnumber :=
  content_mapContent ..

@[simp]
theorem kind_unnumber (n : Node) : n.unnumber.kind = n.kind := by
  rw [kind, content_unnumber, Content.kind_unnumber, kind]

@[simp]
theorem isKind_unnumber (n : Node) (kind : Kind) : n.unnumber.isKind kind = n.isKind kind := by
  rw [isKind, kind_unnumber, isKind]

@[simp]
theorem isSynthetic_unnumber (n : Node) : n.unnumber.isSynthetic = n.isSynthetic :=
  isSynthetic_mapContent ..

@[simp]
theorem heads_unnumber (n : Node) : n.unnumber.heads = n.heads.map unnumber := heads_mapContent ..

@[simp]
theorem children_unnumber (n : Node) : n.unnumber.children = n.children.map unnumber :=
  children_mapContent ..

@[simp]
theorem unnumber_leaf (content : Content) : (leaf content).unnumber = leaf content.unnumber :=
  mapContent_leaf ..

@[simp]
theorem unnumber_branch (content : Content) (children : List Node) :
    (branch content children).unnumber = branch content.unnumber (children.map unnumber) :=
  mapContent_branch ..

@[simp]
theorem unnumber_withContent (n : Node) (content : Content) :
    (n.withContent content).unnumber = n.unnumber.withContent content.unnumber :=
  mapContent_withContent ..

@[simp]
theorem unnumber_asPreformatted (n : Node) :
    n.asPreformatted.unnumber = n.unnumber.asPreformatted :=
  mapContent_asPreformatted ..

@[simp]
theorem unnumber_asSynthetic (n : Node) : n.asSynthetic.unnumber = n.unnumber.asSynthetic :=
  mapContent_asSynthetic ..

/-! ### Numbered contents -/

theorem numbered_withContent {n : Node} {content : Content} (hn : n.content.isNumbered = false)
    (hcontent : content.isNumbered = false) : (n.withContent content).numbered = n.numbered := by
  rw [numbered_eq, numbered_eq n, hn, content_withContent, hcontent, parts_withContent]
  rfl

theorem numbered_withChildren {n : Node} {children : List Node}
    (h : children.flatMap numbered = n.children.flatMap numbered) :
    (n.withChildren children).numbered = n.numbered := by
  have hparts : (n.withChildren children).parts.flatMap numbered = n.parts.flatMap numbered := by
    rw [parts_withChildren]
    simp only [parts, List.flatMap_append, h]
  rw [numbered_eq, numbered_eq n, hparts]
  rfl

@[simp]
theorem numbered_leaf (content : Content) :
    (leaf content).numbered = if content.isNumbered then [content] else [] := by
  rw [numbered_eq]
  exact List.append_nil _

@[simp]
theorem numbered_asPreformatted (n : Node) : n.asPreformatted.numbered = n.numbered := by
  rw [numbered_eq, numbered_eq n]
  rfl

@[simp]
theorem numbered_asSynthetic (n : Node) : n.asSynthetic.numbered = n.numbered := by
  rw [numbered_eq, numbered_eq n]
  rfl

/-- Without numbers in it, a tree is what it is without its numbers. -/
theorem unnumber_of_numbered {n : Node} (h : n.numbered = []) : n.unnumber = n :=
  (eq_mapContent_of_numbered (fun _ => Content.unnumber_eq) rfl (by rw [h]; rfl)).symm

theorem map_unnumber {nodes : List Node} (h : nodes.flatMap numbered = []) :
    nodes.map unnumber = nodes :=
  (List.map_congr_left fun n hn =>
    unnumber_of_numbered (List.flatMap_eq_nil_iff.1 h n hn)).trans (List.map_id' nodes)

@[simp]
theorem numbered_branch (content : Content) (children : List Node) :
    (branch content children).numbered =
      (if content.isNumbered then [content] else []) ++ children.flatMap numbered := by
  rw [numbered_eq]
  rfl

end Node

/-! ### First and last -/

section

variable {select : Node → Bool} {mark : Bool → Bool → Node → Node}

theorem map_markEnds {α : Type} {f : Node → α}
    (hmark : ∀ isFirst isLast n, f (mark isFirst isLast n) = f n) (nodes : List Node) :
    (markEnds select mark nodes).map f = nodes.map f := by
  suffices h : ∀ first, (markEnds.go select mark first nodes).map f = nodes.map f from h true
  induction nodes with
  | nil => exact fun _ => rfl
  | cons n rest ih =>
      intro first
      rw [markEnds.go]
      split
      · rw [List.map_cons, hmark, ih, List.map_cons]
      · rw [List.map_cons, ih, List.map_cons]

end

/-- Numbers stand neither in what is marked nor in cells. -/
theorem Content.keepsStructure_unnumber : Content.KeepsStructure Content.unnumber id where
  kind := Content.kind_unnumber
  paragraph _ := rfl
  paramList _ := rfl
  table _ := rfl
  row _ := rfl
  cell _ := rfl
  rowSpan _ := rfl
  columnSpan _ := rfl

@[simp]
theorem markParagraphs_unnumber (nodes : List Node) :
    markParagraphs (nodes.map Node.unnumber) = (markParagraphs nodes).map Node.unnumber :=
  Content.keepsStructure_unnumber.markParagraphs nodes

@[simp]
theorem markCells_unnumber (nodes : List Node) :
    markCells (nodes.map Node.unnumber) = (markCells nodes).map Node.unnumber :=
  Content.keepsStructure_unnumber.markCells nodes

@[simp]
theorem markParamLists_unnumber (nodes : List Node) :
    markParamLists (nodes.map Node.unnumber) = (markParamLists nodes).map Node.unnumber :=
  Content.keepsStructure_unnumber.markParamLists nodes

theorem numbered_markEnds
    (hmark : ∀ isFirst isLast n, (mark isFirst isLast n).numbered = n.numbered)
    (nodes : List Node) :
    (markEnds select mark nodes).flatMap Node.numbered = nodes.flatMap Node.numbered := by
  rw [List.flatMap_def, map_markEnds hmark, List.flatMap_def]

theorem numbered_markParagraphs (nodes : List Node) :
    (markParagraphs nodes).flatMap Node.numbered = nodes.flatMap Node.numbered := by
  refine numbered_markEnds (fun isFirst isLast n => ?_) nodes
  split
  · next hcontent => exact Node.numbered_withContent (by rw [hcontent]; rfl) rfl
  · rfl

theorem numbered_markCells (nodes : List Node) :
    (markCells nodes).flatMap Node.numbered = nodes.flatMap Node.numbered := by
  refine numbered_markEnds (fun isFirst isLast n => ?_) nodes
  split
  · next hcontent => exact Node.numbered_withContent (by rw [hcontent]; rfl) rfl
  · rfl

theorem numbered_markParamLists (nodes : List Node) :
    (markParamLists nodes).flatMap Node.numbered = nodes.flatMap Node.numbered := by
  refine numbered_markEnds (fun isFirst isLast n => ?_) nodes
  split
  · next hcontent => exact Node.numbered_withContent (by rw [hcontent]; rfl) rfl
  · rfl

/-! ### Cells -/

namespace Node

@[simp]
theorem placeCells_unnumber (n : Node) : n.unnumber.placeCells = n.placeCells.unnumber :=
  Content.keepsStructure_unnumber.placeCells n

theorem numbered_numberCells (row : Whole) (columns : List Whole) (nodes : List Node) :
    (numberCells row columns nodes).flatMap numbered = nodes.flatMap numbered := by
  induction nodes generalizing columns with
  | nil => rfl
  | cons n rest ih =>
      unfold numberCells
      split
      · next hcontent =>
        rw [List.flatMap_cons, ih, numbered_withContent (by rw [hcontent]; rfl) rfl,
          List.flatMap_cons]
      · rw [List.flatMap_cons, ih, List.flatMap_cons]

theorem numbered_numberRows (index : Nat) (placed : List Grid.PlacedRow) (nodes : List Node) :
    (numberRows index placed nodes).flatMap numbered = nodes.flatMap numbered := by
  induction nodes generalizing index placed with
  | nil => rfl
  | cons n rest ih =>
      unfold numberRows
      split
      · next hcontent =>
        refine congrArg₂ (· ++ ·) ?_ (ih ..)
        exact (numbered_withChildren (numbered_numberCells ..)).trans
          (numbered_withContent (by rw [hcontent]; rfl) rfl)
      · rw [List.flatMap_cons, ih, List.flatMap_cons]

/-! ### Nodes without any numbers -/

end Node

/-- Text, and nodes that hold nothing else and stand in front of the children of others. -/
def Kind.isTextual (kind : Kind) : Bool := kind.isInline || kind == title || kind == caption

namespace Node

/-- Text, and what holds nothing else, has nothing but text below it. -/
theorem Conforms.isTextual_part {n part : Node} (h : n.Conforms) (hn : n.kind.isTextual)
    (hpart : part ∈ n.parts) : part.kind.isTextual := by
  obtain ⟨htypes, hheads, hchildren⟩ : n.kind ≠ .paramList ∧
      (∀ before, n.kind.heads before = false) ∧
        ∀ below, n.kind.lists below → below.isTextual := by
    generalize n.kind = kind at hn
    cases kind <;> first
      | (cases hn; done)
      | exact ⟨nofun, fun _ => rfl, fun below => by cases below <;> first | exact fun _ => rfl | nofun⟩
  rcases mem_parts.1 hpart with htype | hhead | hchild
  · exact absurd (h.types part htype).1 htypes
  · exact absurd (h.heads part hhead) (Bool.eq_false_iff.1 (hheads _))
  · exact hchildren _ (h.children part hchild)

/-- There are no numbers in text, nor in what holds nothing else. -/
theorem numbered_textual {n : Node} (h : n.Everywhere Proper) (hn : n.kind.isTextual) :
    n.numbered = [] := by
  induction n using part_induct with
  | node n ih =>
      have hcontent : n.content.isNumbered = false := by
        unfold kind at hn
        cases hcontent : n.content <;> rw [hcontent] at hn <;> first
          | (cases hn; done)
          | rfl
      have hparts : n.parts.flatMap numbered = [] := List.flatMap_eq_nil_iff.2 fun part hpart =>
        ih part hpart (h.part hpart) (h.here.toConforms.isTextual_part hn hpart)
      rw [numbered_eq, hparts, hcontent]
      rfl

/-- There are no items of automatic lists in text. -/
theorem itemless_textual {n : Node} (h : n.Everywhere Proper) (hn : n.kind.isTextual) :
    n.Itemless := by
  induction n using part_induct with
  | node n ih =>
      refine itemless_of_parts (fun hitem => ?_) fun part hpart =>
        ih part hpart (h.part hpart) (h.here.toConforms.isTextual_part hn hpart)
      rw [hitem] at hn
      cases hn

/-- What may stand in front of the children of a node is text. -/
theorem Headed.textual {kind : Kind} {types heads : List Node} (h : Headed kind types heads) :
    ∀ n ∈ types ++ heads, n.Everywhere Proper ∧ n.kind.isTextual := by
  have hname : ∀ kind : Kind, kind.isName → kind.isTextual := by
    intro kind hkind
    cases kind <;> first
      | rfl
      | cases hkind
  refine List.forall_mem_append.2 ⟨fun type htype => ?_, fun head hhead => ?_⟩
  · obtain ⟨-, hkind, hproper⟩ := h.types type htype
    exact ⟨hproper, hname _ hkind⟩
  · obtain ⟨hkind, hproper⟩ := h.heads head hhead
    refine ⟨hproper, ?_⟩
    cases kind <;> first
      | exact hname _ hkind
      | (rw [eq_of_beq hkind]; rfl)
      | cases hkind

/-- Nodes in front of the children of others have no numbers in them. -/
theorem Headed.numbered_eq_nil {kind : Kind} {types heads : List Node}
    (h : Headed kind types heads) : (types ++ heads).flatMap numbered = [] :=
  List.flatMap_eq_nil_iff.2 fun n hn => numbered_textual (h.textual n hn).1 (h.textual n hn).2

end Node

end DocMarkup
