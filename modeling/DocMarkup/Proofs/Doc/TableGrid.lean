import DocMarkup.Proofs.Doc.Columns
import DocMarkup.Proofs.Doc.Contents

/-!
The grid of a table.  Once the cells of a table have been placed, rows and cells are numbered and
stand in order, and nothing but that has changed.  The same is read off a linked table when its
cells have been placed, and placing them again changes nothing.
-/

namespace DocMarkup

namespace Node

theorem shape_withoutGrid (n : Node) : n.withoutGrid.shape = n.shape := mapContent_mapContent ..

theorem shape_placeCells (n : Node) : n.placeCells.shape = n.shape := by
  rw [← shape_withoutGrid, withoutGrid_placeCells, shape_withoutGrid]

/-- A row whose cells may get other contents. -/
structure KeepsCells (n n' : Node) : Prop extends KeepsFront n n' where
  cells : List.Forall₂ (fun cell cell' => cell'.parts = cell.parts) n.children n'.children

theorem forall₂_parts_numberCells (row : Whole) (columns : List Whole) (nodes : List Node) :
    List.Forall₂ (fun cell cell' => cell'.parts = cell.parts) nodes
      (numberCells row columns nodes) := by
  fun_induction numberCells row columns nodes with
  | case1 => exact .nil
  | case2 n rest cell column columns hcontent ih => exact .cons rfl ih
  | case3 columns n rest hother ih => exact .cons rfl ih

theorem forall₂_keepsCells_numberRows (index : Nat) (placed : List Grid.PlacedRow)
    (nodes : List Node) : List.Forall₂ KeepsCells nodes (numberRows index placed nodes) := by
  fun_induction numberRows index placed nodes with
  | case1 => exact .nil
  | case2 index n rest row here placed hcontent number ih =>
      exact .cons ⟨⟨rfl, rfl⟩, forall₂_parts_numberCells ..⟩ ih
  | case3 index placed n rest hother ih =>
      exact .cons ⟨⟨rfl, rfl⟩, List.forall₂_same.2 fun _ _ => rfl⟩ ih

theorem keepsFront_placeCells (n : Node) : n.KeepsFront n.placeCells := by
  unfold placeCells
  split <;> exact ⟨rfl, rfl⟩

theorem forall₂_keepsCells_placeCells (n : Node) :
    List.Forall₂ KeepsCells n.children n.placeCells.children := by
  unfold placeCells
  split
  · exact forall₂_keepsCells_numberRows ..
  · exact List.forall₂_same.2 fun _ _ => ⟨⟨rfl, rfl⟩, List.forall₂_same.2 fun _ _ => rfl⟩

end Node

namespace LinkedTree

variable {t : LinkedTree} {id : Nat}

/-- The contents that are written when the cells of a table are placed. -/
def gridContents (t : LinkedTree) (id : Nat) (placed : Node) : List (Nat × Content) :=
  let rows := (t.children id).zip placed.children
  (id, placed.content) :: rows.map (fun (row, n) => (row, n.content)) ++
    rows.flatMap fun (row, n) => (t.children row).zip (n.children.map Node.content)

theorem mem_gridContents {placed : Node} {write : Nat × Content} :
    write ∈ t.gridContents id placed ↔ write = (id, placed.content) ∨
      ∃ row laid, (row, laid) ∈ (t.children id).zip placed.children ∧
        (write = (row, laid.content) ∨ ∃ cell inner,
          (cell, inner) ∈ (t.children row).zip laid.children ∧ write = (cell, inner.content)) := by
  rw [gridContents, List.mem_append, List.mem_cons, or_assoc]
  refine or_congr Iff.rfl ?_
  constructor
  · rintro (hrow | hcell)
    · obtain ⟨⟨row, laid⟩, hmem, rfl⟩ := List.mem_map.1 hrow
      exact ⟨row, laid, hmem, .inl rfl⟩
    · obtain ⟨⟨row, laid⟩, hrow, hcell⟩ := List.mem_flatMap.1 hcell
      dsimp only at hcell
      rw [List.zip_map_right] at hcell
      obtain ⟨⟨cell, inner⟩, hmem, rfl⟩ := List.mem_map.1 hcell
      exact ⟨row, laid, hrow, .inr ⟨cell, inner, hmem, rfl⟩⟩
  · rintro ⟨row, laid, hrow, rfl | ⟨cell, inner, hcell, rfl⟩⟩
    · exact .inl (List.mem_map.2 ⟨(row, laid), hrow, rfl⟩)
    · refine .inr (List.mem_flatMap.2 ⟨(row, laid), hrow, ?_⟩)
      dsimp only
      rw [List.zip_map_right]
      exact List.mem_map.2 ⟨(cell, inner), hcell, rfl⟩

/-- What is written when the cells of a table are placed lies where the placed table has it. -/
theorem IsTree.toNode_setContents_gridContents (h : t.IsTree id) :
    (t.placeCells id).toNode id = (t.toNode id).placeCells ∧
      ∀ write ∈ t.gridContents id (t.toNode id).placeCells,
        (t.placeCells id).content? write.1 = some write.2 := by
  have htable := (t.toNode id).keepsFront_placeCells
  have hrows := (t.toNode id).forall₂_keepsCells_placeCells
  refine h.toNode_setContents (t.toNode id).shape_placeCells ?_ ?_
  · intro write hwrite
    rcases mem_gridContents.1 hwrite with rfl | ⟨row, laid, hrow, hwrite⟩
    · exact ⟨_, .here, rfl⟩
    · have hends := h.ends.child row (List.of_mem_zip hrow).1
      have hcells := h.ends.forall₂_child hrows hrow
      rcases hwrite with rfl | ⟨cell, inner, hcell, rfl⟩
      · exact ⟨laid, .child h.ends htable hrow .here, rfl⟩
      · exact ⟨inner, .child h.ends htable hrow (.child hends hcells.toKeepsFront hcell .here), rfl⟩
  · intro place cover hcover
    rcases hcover.cases_front h.ends htable with ⟨rfl, rfl⟩ | hkept | ⟨row, laid, hrow, hcover⟩
    · exact .inl (mem_gridContents.2 (.inl rfl))
    · exact .inr hkept
    · have hends := h.ends.child row (List.of_mem_zip hrow).1
      have hcells := h.ends.forall₂_child hrows hrow
      rcases hcover.cases_front hends hcells.toKeepsFront with
        ⟨rfl, rfl⟩ | hkept | ⟨cell, inner, hcell, hcover⟩
      · exact .inl (mem_gridContents.2 (.inr ⟨_, _, hrow, .inl rfl⟩))
      · exact .inr hkept
      · have hparts := hends.forall₂_child hcells.cells hcell
        rcases hcover.cases_parts (hends.child cell (List.of_mem_zip hcell).1) hparts with
          ⟨rfl, rfl⟩ | hkept
        · exact .inl (mem_gridContents.2 (.inr ⟨_, _, hrow, .inr ⟨_, _, hcell, rfl⟩⟩))
        · exact .inr hkept

/-- Once the cells of a linked table have been placed, the placed table is read off it. -/
theorem IsTree.toNode_placeCells (h : t.IsTree id) :
    (t.placeCells id).toNode id = (t.toNode id).placeCells :=
  h.toNode_setContents_gridContents.1

theorem IsTree.placeCells_placeCells (h : t.IsTree id) :
    (t.placeCells id).placeCells id = t.placeCells id := by
  have hlinks : t.SameLinks (t.placeCells id) := sameLinks_setContents t _
  have hchildren : (t.placeCells id).children = t.children := funext hlinks.children
  have hagain : (t.placeCells id).placeCells id =
      (t.placeCells id).setContents (t.gridContents id (t.toNode id).placeCells) := by
    rw [placeCells, h.toNode_placeCells, Node.placeCells_placeCells, hchildren]
    rfl
  rw [hagain]
  exact setContents_of_content? h.toNode_setContents_gridContents.2

theorem IsTree.ensureCells_placeCells (h : t.IsTree id) :
    (t.placeCells id).ensureCells id = t.placeCells id := by
  unfold ensureCells
  split
  · split
    · exact h.placeCells_placeCells
    · rfl
  · rfl

end LinkedTree

namespace Node

/-- Once the cells of a table have been placed, they stand on a grid, and nothing but the grid has
changed; placing them again changes nothing.  The same is read off the linked nodes of a table. -/
theorem placeCells_grid {n : Node} {table : Table} (h : n.content = .table table) :
    (∃ columns, n.placeCells.content = .table { table with columns } ∧
        IsGrid columns n.placeCells.rows) ∧
      n.placeCells.withoutGrid = n.withoutGrid ∧
      n.placeCells.placeCells = n.placeCells ∧
      ∀ (t : LinkedTree) (id : Nat), t.IsTree id → t.toNode id = n →
        (t.placeCells id).toNode id = n.placeCells ∧
          (t.placeCells id).placeCells id = t.placeCells id ∧
          (t.placeCells id).ensureCells id = t.placeCells id := by
  refine ⟨isGrid_placeCells h, withoutGrid_placeCells n, placeCells_placeCells n, ?_⟩
  rintro t id htree rfl
  exact ⟨htree.toNode_placeCells, htree.placeCells_placeCells, htree.ensureCells_placeCells⟩

/-- A table of two rows.  Its first cell reaches into the second row. -/
def spanningTable : Node :=
  let row (cells : List Attributes) : Node :=
    .branch (.row { attributes := [] })
      (cells.map fun attributes => .leaf (.cell { attributes, isHeading := false }))
  let spans : Attributes := [⟨units "rowspan", units "2"⟩, ⟨units "colspan", units "2"⟩]
  .branch (.table { attributes := [] }) [row [spans, []], row [[]]]

theorem placeCells_grid_spanningTable :
    (∃ columns, spanningTable.placeCells.content = .table { attributes := [], columns } ∧
        IsGrid columns spanningTable.placeCells.rows) ∧
      spanningTable.placeCells.rows.map (fun row => row.2.map (·.column)) =
        [[.finite 0, .finite 2], [.finite 1]] ∧
      ((LinkedTree.ofNode spanningTable).placeCells 0).toNode 0 = spanningTable.placeCells := by
  have htable : spanningTable.content = .table { attributes := [] } := rfl
  have hgrid := placeCells_grid htable
  refine ⟨hgrid.1, by decide +kernel, ?_⟩
  exact (hgrid.2.2.2 _ 0 (LinkedTree.isTree_ofNode _) (LinkedTree.toNode_ofNode _)).1

end Node

end DocMarkup
