import DocMarkup.Proofs.Doc.Marks
import DocMarkup.Proofs.Doc.Numbering

/-!
Contents changed throughout a tree.  Nodes are put together, marked and placed in the same way if
the change keeps kinds, and of the attributes of cells what they span.
-/

namespace DocMarkup

/-- A change of contents that the marking of nodes and the placing of cells do not see: of what they
look at, only attributes change, and those span as much as before. -/
structure Content.KeepsStructure (f : Content → Content) (g : Attributes → Attributes) : Prop where
  kind : ∀ c, (f c).kind = c.kind
  paragraph : ∀ p : Paragraph, f (.paragraph p) = .paragraph { p with attributes := g p.attributes }
  paramList : ∀ l, f (.paramList l) = .paramList l
  table : ∀ t : Table, f (.table t) = .table { t with attributes := g t.attributes }
  row : ∀ r : TableRow, f (.row r) = .row { r with attributes := g r.attributes }
  cell : ∀ c : TableCell, f (.cell c) = .cell { c with attributes := g c.attributes }
  rowSpan : ∀ attributes, (g attributes).rowSpan = attributes.rowSpan
  columnSpan : ∀ attributes, (g attributes).columnSpan = attributes.columnSpan

namespace Node

variable (f : Content → Content)

@[simp]
theorem content_mapContent (n : Node) : (n.mapContent f).content = f n.content := by
  cases n
  rw [mapContent_node]
  rfl

@[simp]
theorem isSynthetic_mapContent (n : Node) : (n.mapContent f).isSynthetic = n.isSynthetic := by
  cases n
  rw [mapContent_node]
  rfl

@[simp]
theorem heads_mapContent (n : Node) : (n.mapContent f).heads = n.heads.map (mapContent f) := by
  cases n
  rw [mapContent_node]
  rfl

@[simp]
theorem children_mapContent (n : Node) :
    (n.mapContent f).children = n.children.map (mapContent f) := by
  cases n
  rw [mapContent_node]
  rfl

@[simp]
theorem mapContent_leaf (content : Content) : (leaf content).mapContent f = leaf (f content) :=
  mapContent_node ..

@[simp]
theorem mapContent_branch (content : Content) (children : List Node) :
    (branch content children).mapContent f = branch (f content) (children.map (mapContent f)) :=
  mapContent_node ..

@[simp]
theorem mapContent_withContent (n : Node) (content : Content) :
    (n.withContent content).mapContent f = (n.mapContent f).withContent (f content) := by
  cases n
  simp only [withContent, mapContent_node]
  rfl

@[simp]
theorem mapContent_withChildren (n : Node) (children : List Node) :
    (n.withChildren children).mapContent f =
      (n.mapContent f).withChildren (children.map (mapContent f)) := by
  cases n
  simp only [withChildren, mapContent_node]
  rfl

@[simp]
theorem mapContent_asPreformatted (n : Node) :
    n.asPreformatted.mapContent f = (n.mapContent f).asPreformatted := by
  cases n
  simp only [asPreformatted, withFlags, mapContent_node]
  rfl

@[simp]
theorem mapContent_asSynthetic (n : Node) :
    n.asSynthetic.mapContent f = (n.mapContent f).asSynthetic := by
  cases n
  simp only [asSynthetic, withFlags, mapContent_node]
  rfl

end Node

/-! ### First and last -/

theorem markEnds_map {select : Node → Bool} {mark : Bool → Bool → Node → Node} {f : Node → Node}
    (hselect : ∀ n, select (f n) = select n)
    (hmark : ∀ isFirst isLast n, mark isFirst isLast (f n) = f (mark isFirst isLast n))
    (nodes : List Node) :
    markEnds select mark (nodes.map f) = (markEnds select mark nodes).map f := by
  suffices h : ∀ first, markEnds.go select mark first (nodes.map f) =
      (markEnds.go select mark first nodes).map f from h true
  induction nodes with
  | nil => exact fun _ => rfl
  | cons n rest ih =>
      intro first
      have hany : (rest.map f).any select = rest.any select := by
        rw [List.any_map]
        exact congrArg rest.any (funext hselect)
      rw [List.map_cons, markEnds.go, markEnds.go, hselect, hany, hmark, ih, ih]
      split <;> rfl

namespace Content

variable {content : Content}

theorem exists_paragraph (h : content.kind = .paragraph) : ∃ p, content = .paragraph p := by
  cases content <;> first | exact ⟨_, rfl⟩ | cases h

theorem exists_cell (h : content.kind = .cell) : ∃ c, content = .cell c := by
  cases content <;> first | exact ⟨_, rfl⟩ | cases h

theorem exists_paramList (h : content.kind = .paramList) : ∃ l, content = .paramList l := by
  cases content <;> first | exact ⟨_, rfl⟩ | cases h

theorem exists_row (h : content.kind = .row) : ∃ r, content = .row r := by
  cases content <;> first | exact ⟨_, rfl⟩ | cases h

theorem exists_table (h : content.kind = .table) : ∃ t, content = .table t := by
  cases content <;> first | exact ⟨_, rfl⟩ | cases h

end Content

/-! ### Nodes without a place -/

namespace Node

theorem extent?_of_kind {n : Node} (h : n.kind ≠ .cell) : n.extent? = none := by
  unfold extent?
  split
  · next hcontent => exact absurd (congrArg Content.kind hcontent) h
  · rfl

theorem numberCells_of_kind {n : Node} (h : n.kind ≠ .cell) (row : Whole) (columns : List Whole)
    (rest : List Node) :
    numberCells row columns (n :: rest) = n :: numberCells row columns rest := by
  rw [numberCells]
  intro _ _ _ hcontent
  exact absurd (congrArg Content.kind hcontent) h

theorem numberRows_of_kind {n : Node} (h : n.kind ≠ .row) (index : Nat)
    (placed : List Grid.PlacedRow) (rest : List Node) :
    numberRows index placed (n :: rest) = n :: numberRows index placed rest := by
  rw [numberRows]
  intro _ _ _ hcontent
  exact absurd (congrArg Content.kind hcontent) h

theorem placeCells_of_kind {n : Node} (h : n.kind ≠ .table) : n.placeCells = n := by
  unfold placeCells
  split
  · next hcontent => exact absurd (congrArg Content.kind hcontent) h
  · rfl

end Node

namespace Content.KeepsStructure

open Node

variable {f : Content → Content} {g : Attributes → Attributes} (hf : KeepsStructure f g)
include hf

theorem node_kind (n : Node) : (n.mapContent f).kind = n.kind := by
  rw [Node.kind, content_mapContent, hf.kind]
  rfl

theorem isKind (n : Node) (kind : Kind) : (n.mapContent f).isKind kind = n.isKind kind := by
  rw [Node.isKind, hf.node_kind]
  rfl

/-! ### First and last -/

theorem markParagraphs (nodes : List Node) :
    markParagraphs (nodes.map (mapContent f)) = (markParagraphs nodes).map (mapContent f) := by
  refine markEnds_map (fun n => hf.isKind n _) (fun isFirst isLast n => ?_) nodes
  by_cases hn : n.kind = .paragraph
  · obtain ⟨p, hp⟩ := exists_paragraph hn
    simp [hp, hf.paragraph]
  · split
    · next hp => exact absurd (hf.node_kind n ▸ congrArg Content.kind hp) hn
    · split
      · next hp => exact absurd (congrArg Content.kind hp) hn
      · rfl

theorem markCells (nodes : List Node) :
    markCells (nodes.map (mapContent f)) = (markCells nodes).map (mapContent f) := by
  refine markEnds_map (fun n => hf.isKind n _) (fun isFirst isLast n => ?_) nodes
  by_cases hn : n.kind = .cell
  · obtain ⟨c, hc⟩ := exists_cell hn
    simp [hc, hf.cell]
  · split
    · next hc => exact absurd (hf.node_kind n ▸ congrArg Content.kind hc) hn
    · split
      · next hc => exact absurd (congrArg Content.kind hc) hn
      · rfl

theorem markParamLists (nodes : List Node) :
    markParamLists (nodes.map (mapContent f)) = (markParamLists nodes).map (mapContent f) := by
  refine markEnds_map (fun n => hf.isKind n _) (fun isFirst isLast n => ?_) nodes
  by_cases hn : n.kind = .paramList
  · obtain ⟨l, hl⟩ := exists_paramList hn
    simp [hl, hf.paramList]
  · split
    · next hl => exact absurd (hf.node_kind n ▸ congrArg Content.kind hl) hn
    · split
      · next hl => exact absurd (congrArg Content.kind hl) hn
      · rfl

/-! ### Cells -/

theorem extent? (n : Node) : (n.mapContent f).extent? = n.extent? := by
  by_cases hn : n.kind = .cell
  · obtain ⟨c, hc⟩ := exists_cell hn
    simp [Node.extent?, hc, hf.cell, hf.rowSpan, hf.columnSpan]
  · rw [extent?_of_kind hn, extent?_of_kind (hf.node_kind n ▸ hn)]

theorem extents (rows : List Node) : extents (rows.map (mapContent f)) = extents rows := by
  rw [Node.extents, Node.extents, List.filter_map, List.map_map]
  simp only [Function.comp_def, hf.isKind, children_mapContent, List.filterMap_map, hf.extent?]

theorem numberCells (row : Whole) (columns : List Whole) (nodes : List Node) :
    numberCells row columns (nodes.map (mapContent f)) =
      (numberCells row columns nodes).map (mapContent f) := by
  induction nodes generalizing columns with
  | nil => rfl
  | cons n rest ih =>
      rw [List.map_cons]
      by_cases hn : n.kind = .cell
      · obtain ⟨c, hc⟩ := exists_cell hn
        cases columns <;> simp [Node.numberCells, hc, hf.cell, ih]
      · rw [numberCells_of_kind hn, numberCells_of_kind (hf.node_kind n ▸ hn), ih, List.map_cons]

theorem numberRows (index : Nat) (placed : List Grid.PlacedRow) (nodes : List Node) :
    numberRows index placed (nodes.map (mapContent f)) =
      (numberRows index placed nodes).map (mapContent f) := by
  induction nodes generalizing index placed with
  | nil => rfl
  | cons n rest ih =>
      rw [List.map_cons]
      by_cases hn : n.kind = .row
      · obtain ⟨r, hr⟩ := exists_row hn
        cases placed <;> simp [Node.numberRows, hr, hf.row, hf.numberCells, ih]
      · rw [numberRows_of_kind hn, numberRows_of_kind (hf.node_kind n ▸ hn), ih, List.map_cons]

theorem placeCells (n : Node) : (n.mapContent f).placeCells = n.placeCells.mapContent f := by
  by_cases hn : n.kind = .table
  · obtain ⟨t, ht⟩ := exists_table hn
    simp [Node.placeCells, ht, hf.table, hf.extents, hf.numberRows]
  · rw [placeCells_of_kind hn, placeCells_of_kind (hf.node_kind n ▸ hn)]

end Content.KeepsStructure

end DocMarkup
