import Mathlib.Data.List.Chain
import DocMarkup.Proofs.Doc.Mapping
import DocMarkup.Proofs.Doc.Slots

/-!
The columns of a table.  The cells of a row stand one behind the other, each at least as far to the
right as the one before it reaches, and the table is as wide as its cells reach.  Placing the cells
depends on what they span alone, so placing them again changes nothing.
-/

namespace DocMarkup

open Whole (IsRounded)

namespace Grid

/-! ### Cells of a row -/

/-- Columns of the cells of a row, from a first column on: each cell stands no further to the left
than the one before it reaches, and the last one reaches up to the column `last`. -/
inductive Follows : Whole → List Whole → List Extent → Whole → Prop
  | nil {first : Whole} : Follows first [] [] first
  | cons {first column last : Whole} {cell : Extent} {columns : List Whole} {cells : List Extent}
      (hfirst : Whole.le first column) (hcolumn : IsRounded column)
      (hrest : Follows (column + cell.columns) columns cells last) :
      Follows first (column :: columns) (cell :: cells) last

/-- The cells that reach down stand in rounded columns. -/
def AreRounded (spans : List ActiveSpan) : Prop := ∀ span ∈ spans, IsRounded span.column

/-- On its way past the spans a place moves on. -/
structure Place.Reaches (place place' : Place) : Prop where
  column : Whole.le place.column place'.column
  cells : place.cells ≤ place'.cells
  isRounded : IsRounded place'.column

theorem Place.reaches_skip {spans : List ActiveSpan} (hspans : AreRounded spans) (place : Place)
    (hplace : IsRounded place.column) : place.Reaches (place.skip spans) := by
  unfold Place.skip
  induction spans generalizing place with
  | nil => exact ⟨Whole.le_refl _, Nat.le_refl _, hplace⟩
  | cons span spans ih =>
      obtain ⟨hspan, hrest⟩ := List.forall_mem_cons.1 hspans
      rw [List.foldl_cons]
      split
      · next hpasses =>
        have hcolumn : span.column = place.column := by
          rw [Bool.and_eq_true, beq_iff_eq] at hpasses
          exact hpasses.2
        obtain ⟨hnext, hle⟩ := hspan.add Whole.isNegative_one
        obtain ⟨hrestColumn, hrestCells, hrounded⟩ := ih hrest
          { column := span.column + 1, cells := place.cells + 1 } hnext
        rw [hcolumn] at hle hrestColumn hrestCells hrounded ⊢
        exact ⟨Whole.le_trans hle hrestColumn, Nat.le_of_succ_le hrestCells, hrounded⟩
      · exact ih hrest place hplace

theorem placeRow_follows {cells : List Extent} (hcells : ∀ c ∈ cells, c.columns.isNegative = false)
    {spans : List ActiveSpan} (hspans : AreRounded spans) (place : Place)
    (hplace : IsRounded place.column) :
    Follows place.column (placeRow spans place cells).1 cells
        (placeRow spans place cells).2.1.column ∧
      place.cells + cells.length ≤ (placeRow spans place cells).2.1.cells ∧
      AreRounded (placeRow spans place cells).2.2 := by
  induction cells generalizing spans place with
  | nil => exact ⟨.nil, Nat.le_refl _, hspans⟩
  | cons cell rest ih =>
      obtain ⟨hcell, hrest⟩ := List.forall_mem_cons.1 hcells
      obtain ⟨hcolumn, hcount, hhere⟩ := Place.reaches_skip hspans place hplace
      unfold placeRow
      dsimp only
      generalize hopen : (if Whole.lt 0 cell.rows then
        spans ++ [{ rowsLeft := cell.rows, column := (place.skip spans).column }] else spans) =
          spans'
      have hspans' : AreRounded spans' := by
        subst hopen
        split
        · exact List.forall_mem_append.2 ⟨hspans, List.forall_mem_singleton.2 hhere⟩
        · exact hspans
      obtain ⟨hfollows, hcells, hfinal⟩ := ih hrest hspans'
        { column := (place.skip spans).column + cell.columns
          cells := (place.skip spans).cells + 1 } (hhere.add hcell).1
      refine ⟨.cons hcolumn hhere hfollows, ?_, hfinal⟩
      have hseen : (place.skip spans).cells + 1 + rest.length ≤ _ := hcells
      rw [List.length_cons]
      exact Nat.le_trans (by omega) hseen

theorem areRounded_endRow {spans : List ActiveSpan} (h : AreRounded spans) :
    AreRounded (endRow spans) := by
  intro span hspan
  obtain ⟨before, hbefore, rfl⟩ := List.mem_map.1 hspan
  split
  · exact h before hbefore
  · exact h before hbefore

/-! ### Rows of a table -/

/-- A row is placed from its first column on, and its cells are among those that are seen. -/
structure PlacedRow.Holds (row : PlacedRow) (cells : List Extent) : Prop where
  follows : Follows 0 row.columns cells row.width
  visible : cells.length ≤ row.visibleCells

theorem placeRows_hold {rows : List (List Extent)}
    (hrows : ∀ row ∈ rows, ∀ c ∈ row, c.columns.isNegative = false) {spans : List ActiveSpan}
    (hspans : AreRounded spans) : List.Forall₂ PlacedRow.Holds (placeRows spans rows) rows := by
  induction rows generalizing spans with
  | nil => exact .nil
  | cons row rest ih =>
      obtain ⟨hrow, hrest⟩ := List.forall_mem_cons.1 hrows
      obtain ⟨hfollows, hcells, hfinal⟩ :=
        placeRow_follows hrow hspans {} Whole.isRounded_zero
      have hvisible : row.length ≤ (placeRow spans {} row).2.1.cells := by
        rwa [Nat.zero_add] at hcells
      exact .cons ⟨hfollows, hvisible⟩ (ih hrest (areRounded_endRow hfinal))

theorem foldl_max_spec (first : Whole) (rows : List PlacedRow) :
    let last := rows.foldl (fun width row => Whole.max width row.width) first
    Whole.le first last ∧ (∀ row ∈ rows, Whole.le row.width last) ∧
      (last = first ∨ ∃ row ∈ rows, last = row.width) := by
  induction rows generalizing first with
  | nil => exact ⟨Whole.le_refl first, nofun, .inl rfl⟩
  | cons row rest ih =>
      obtain ⟨hmax, hrest, hattained⟩ := ih (Whole.max first row.width)
      obtain ⟨hfirst, hrow⟩ := Whole.le_max first row.width
      refine ⟨Whole.le_trans hfirst hmax,
        List.forall_mem_cons.2 ⟨Whole.le_trans hrow hmax, hrest⟩, ?_⟩
      rw [List.foldl_cons]
      rcases hattained with hsame | ⟨widest, hwidest, hsame⟩
      · rcases Whole.max_eq first row.width with hmax | hmax
        · exact .inl (hsame.trans hmax)
        · exact .inr ⟨row, List.mem_cons_self, hsame.trans hmax⟩
      · exact .inr ⟨widest, List.mem_cons_of_mem _ hwidest, hsame⟩

end Grid

/-! ### Placed cells -/

namespace TableCell

/-- What a cell asks for. -/
def extent (cell : TableCell) : Grid.Extent :=
  { rows := cell.attributes.rowSpan, columns := cell.attributes.columnSpan }

/-- The column behind a cell. -/
def behind (cell : TableCell) : Whole := cell.column + cell.attributes.columnSpan

/-- A cell of a row, placed in columns. -/
def placeIn (row : Whole) (columns : List Whole) (cells : List TableCell) : List TableCell :=
  List.zipWith (fun column cell => { cell with row, column }) columns cells

theorem row_of_mem_placeIn {row : Whole} {columns : List Whole} {cells : List TableCell}
    {cell : TableCell} (h : cell ∈ placeIn row columns cells) : cell.row = row := by
  obtain ⟨i, -, rfl⟩ := List.mem_iff_getElem.1 h
  simp [placeIn]

theorem length_placeIn {row : Whole} {columns : List Whole} {cells : List TableCell}
    (h : columns.length = cells.length) : (placeIn row columns cells).length = cells.length := by
  rw [placeIn, List.length_zipWith, h, Nat.min_self]

end TableCell

/-- Cells of a row stand in order: the first one not to the left of a first column, each at least as
far to the right as the one before it reaches, and up to a last column. -/
structure TableCell.InOrder (first last : Whole) (cells : List TableCell) : Prop where
  starts : ∀ cell ∈ cells.head?, Whole.le first cell.column
  ordered : cells.IsChain fun cell next => Whole.le cell.behind next.column
  isRounded : ∀ cell ∈ cells, IsRounded cell.column
  bounded : ∀ cell ∈ cells, Whole.le cell.behind last
  le : Whole.le first last
  reached : cells = [] ∧ last = first ∨ ∃ cell ∈ cells, cell.behind = last

theorem Grid.Follows.inOrder {first last row : Whole} {columns : List Whole}
    {cells : List TableCell} (h : Follows first columns (cells.map TableCell.extent) last) :
    TableCell.InOrder first last (TableCell.placeIn row columns cells) := by
  induction cells generalizing first columns with
  | nil =>
      cases h
      exact ⟨nofun, .nil, nofun, nofun, Whole.le_refl _, .inl ⟨rfl, rfl⟩⟩
  | cons cell rest ih =>
      cases h with
      | @cons _ column _ _ columns _ hfirst hcolumn hrest =>
          obtain ⟨starts, ordered, isRounded, bounded, hle, reached⟩ := ih hrest
          have hbehind : Whole.le column (column + cell.attributes.columnSpan) :=
            (hcolumn.add (Attributes.isNegative_columnSpan _)).2
          refine ⟨?_, List.isChain_cons.2 ⟨starts, ordered⟩,
            List.forall_mem_cons.2 ⟨hcolumn, isRounded⟩, List.forall_mem_cons.2 ⟨hle, bounded⟩,
            Whole.le_trans hfirst (Whole.le_trans hbehind hle), .inr ?_⟩
          · rintro _ ⟨⟩
            exact hfirst
          · rcases reached with ⟨-, hlast⟩ | ⟨widest, hwidest, hlast⟩
            · exact ⟨_, List.mem_cons_self, hlast.symm⟩
            · exact ⟨widest, List.mem_cons_of_mem _ hwidest, hlast⟩

theorem Grid.Follows.length_columns {first last : Whole} {columns : List Whole}
    {cells : List Grid.Extent} (h : Follows first columns cells last) :
    columns.length = cells.length := by
  induction h with
  | nil => rfl
  | cons _ _ _ ih => rw [List.length_cons, List.length_cons, ih]

/-! ### The rows of a table -/

namespace Node

/-- A row with its cells. -/
def row? (n : Node) : Option (TableRow × List TableCell) :=
  match n.content with
  | .row row => some (row, n.children.filterMap cell?)
  | _ => none

/-- The rows of a table with their cells. -/
def rows (table : Node) : List (TableRow × List TableCell) := table.children.filterMap row?

theorem row?_of_kind {n : Node} (h : n.kind ≠ .row) : n.row? = none := by
  unfold row?
  split
  · next hrow => exact absurd (congrArg Content.kind hrow) h
  · rfl

theorem extents_of_kind {n : Node} (h : n.kind ≠ .row) (rest : List Node) :
    extents (n :: rest) = extents rest := by
  rw [extents, List.filter_cons_of_neg (by simpa [isKind] using h)]
  rfl

theorem extents_row {n : Node} (h : n.kind = .row) (rest : List Node) :
    extents (n :: rest) =
      (n.children.filterMap cell?).map TableCell.extent :: extents rest := by
  have hcells : n.children.filterMap extent? =
      (n.children.filterMap cell?).map TableCell.extent := by
    rw [List.map_filterMap]
    exact List.filterMap_congr fun child _ => extent?_eq child
  rw [extents, List.filter_cons_of_pos (by simpa [isKind] using h), List.map_cons, hcells]
  rfl

theorem cells_numberCells {row : Whole} {columns : List Whole} {nodes : List Node}
    (h : columns.length = (nodes.filterMap cell?).length) :
    (numberCells row columns nodes).filterMap cell? =
      TableCell.placeIn row columns (nodes.filterMap cell?) := by
  induction nodes generalizing columns with
  | nil =>
      obtain rfl := List.eq_nil_of_length_eq_zero h
      rfl
  | cons n rest ih =>
      by_cases hn : n.kind = .cell
      case pos =>
        obtain ⟨cell, hcell⟩ := Content.exists_cell hn
        have hfound : n.cell? = some cell := by rw [cell?, hcell]
        rw [List.filterMap_cons_some hfound, List.length_cons] at h
        cases columns with
        | nil => cases h
        | cons column columns =>
            rw [numberCells_cell hcell, List.filterMap_cons_some hfound,
              List.filterMap_cons_some (f := cell?) (b := { cell with row, column }) rfl,
              ih (Nat.succ.inj h)]
            rfl
      case neg =>
        have hnone : n.cell? = none := by
          unfold cell?
          split
          · next hcell => exact absurd (congrArg Content.kind hcell) hn
          · rfl
        rw [List.filterMap_cons_none hnone] at h
        rw [numberCells_of_kind hn, List.filterMap_cons_none hnone,
          List.filterMap_cons_none hnone, ih h]

/-- A row has been placed as the row `index` of its table. -/
structure RowPlaced (index : Nat) (here : Grid.PlacedRow) (row : TableRow × List TableCell) :
    Prop where
  number : row.1.row = .ofNat index
  cellNumbers : ∀ cell ∈ row.2, cell.row = .ofNat index
  visible : row.2.length ≤ row.1.visibleCells
  inOrder : TableCell.InOrder 0 here.width row.2

theorem rows_numberRows (index : Nat) {placed : List Grid.PlacedRow} {nodes : List Node}
    (h : List.Forall₂ Grid.PlacedRow.Holds placed (extents nodes)) :
    List.Forall₂ (fun here row => RowPlaced here.2 here.1 row) (placed.zipIdx index)
      ((numberRows index placed nodes).filterMap row?) := by
  induction nodes generalizing index placed with
  | nil =>
      cases h
      exact .nil
  | cons n rest ih =>
      by_cases hn : n.kind = .row
      case pos =>
        obtain ⟨row, hrow⟩ := Content.exists_row hn
        rw [extents_row hn] at h
        cases h with
        | @cons here _ placed _ hhere hrest =>
            obtain ⟨hfollows, hvisible⟩ := hhere
            have hlength : here.columns.length = (n.children.filterMap cell?).length := by
              rw [hfollows.length_columns, List.length_map]
            rw [numberRows_row hrow, List.zipIdx_cons, List.filterMap_cons_some (f := row?) (b :=
              ({ row with row := .ofNat index, visibleCells := here.visibleCells },
                (numberCells (.ofNat index) here.columns n.children).filterMap cell?)) rfl,
              cells_numberCells hlength]
            refine .cons ⟨by simp only, fun _ => TableCell.row_of_mem_placeIn, ?_,
              hfollows.inOrder⟩ (ih (index + 1) hrest)
            rw [TableCell.length_placeIn hlength]
            rwa [List.length_map] at hvisible
      case neg =>
        rw [extents_of_kind hn] at h
        rw [numberRows_of_kind hn, List.filterMap_cons_none (row?_of_kind hn)]
        exact ih index h

/-- A grid of rows with their cells, and the number of its columns. -/
structure IsGrid (columns : Whole) (rows : List (TableRow × List TableCell)) : Prop where
  /-- The rows are numbered in order, and every cell has the number of its row. -/
  numbered : ∀ (i : Nat) (row : TableRow × List TableCell), rows[i]? = some row →
    row.1.row = .ofNat i ∧ ∀ cell ∈ row.2, cell.row = .ofNat i
  /-- Every cell stands at least as far to the right as the one before it reaches. -/
  ordered : ∀ row ∈ rows, row.2.IsChain fun cell next => Whole.le cell.behind next.column
  /-- What a row shows are its own cells at least. -/
  visible : ∀ row ∈ rows, row.2.length ≤ row.1.visibleCells
  /-- No cell reaches further than the last column, and one cell reaches it if there are any. -/
  bounded : ∀ row ∈ rows, ∀ cell ∈ row.2, Whole.le cell.behind columns
  reached : (∀ row ∈ rows, row.2 = []) ∧ columns = 0 ∨
    ∃ row ∈ rows, ∃ cell ∈ row.2, cell.behind = columns
  /-- Sums of columns that are small are exact. -/
  exact : ∀ row ∈ rows, ∀ cell ∈ row.2, Whole.lt cell.behind (.finite Whole.exactBound) →
    ∃ column span : Nat, cell.column = .finite column ∧
      cell.attributes.columnSpan = .finite span ∧ cell.behind = .finite (column + span : Nat)

theorem isGrid_of_rowsPlaced {placed : List Grid.PlacedRow}
    {rows : List (TableRow × List TableCell)}
    (h : List.Forall₂ (fun here row => RowPlaced here.2 here.1 row) placed.zipIdx rows) :
    IsGrid (Grid.width placed) rows := by
  have hwidest := Grid.foldl_max_spec 0 placed
  have hrow {row : TableRow × List TableCell} (hrow : row ∈ rows) :
      ∃ here ∈ placed, ∃ i, RowPlaced i here row := by
    obtain ⟨⟨here, i⟩, hhere, hplaced⟩ := exists_of_mem_right h hrow
    exact ⟨here, List.fst_mem_of_mem_zipIdx hhere, i, hplaced⟩
  constructor
  case numbered =>
    intro i row hrow
    obtain ⟨hi, rfl⟩ := List.getElem?_eq_some_iff.1 hrow
    have hplaced := h.get (h.length_eq ▸ hi) hi
    rw [List.get_eq_getElem, List.get_eq_getElem, List.getElem_zipIdx, Nat.zero_add] at hplaced
    exact ⟨hplaced.number, hplaced.cellNumbers⟩
  case ordered =>
    intro row hmem
    obtain ⟨here, -, i, hplaced⟩ := hrow hmem
    exact hplaced.inOrder.ordered
  case visible =>
    intro row hmem
    obtain ⟨here, -, i, hplaced⟩ := hrow hmem
    exact hplaced.visible
  case bounded =>
    intro row hmem cell hcell
    obtain ⟨here, hhere, i, hplaced⟩ := hrow hmem
    exact Whole.le_trans (hplaced.inOrder.bounded cell hcell) (hwidest.2.1 here hhere)
  case reached =>
    have hlast : Grid.width placed = 0 ∨
        ∃ row ∈ rows, ∃ cell ∈ row.2, cell.behind = Grid.width placed := by
      rcases hwidest.2.2 with hzero | ⟨here, hhere, hwidth⟩
      · exact .inl hzero
      · have hindexed : here ∈ placed.zipIdx.map Prod.fst := by rwa [List.zipIdx_map_fst]
        obtain ⟨⟨here, i⟩, hmem, rfl⟩ := List.mem_map.1 hindexed
        obtain ⟨row, hrow, hplaced⟩ := exists_of_mem_right h.flip hmem
        rcases hplaced.inOrder.reached with ⟨-, hfirst⟩ | ⟨cell, hcell, hbehind⟩
        · exact .inl (hwidth.trans hfirst)
        · exact .inr ⟨row, hrow, cell, hcell, hbehind.trans hwidth.symm⟩
    -- every cell ends behind column zero, so a width that no cell reaches has no cells
    refine or_iff_not_imp_right.2 fun hnone => ?_
    have hzero := hlast.resolve_right hnone
    refine ⟨fun row hmem => List.eq_nil_iff_forall_not_mem.2 fun cell hcell => hnone ?_, hzero⟩
    obtain ⟨here, hhere, i, hplaced⟩ := hrow hmem
    have hcolumn := Whole.isNegative_of_isRounded (hplaced.inOrder.isRounded cell hcell)
    have hle := Whole.le_trans (hplaced.inOrder.bounded cell hcell) (hwidest.2.1 here hhere)
    refine ⟨row, hmem, cell, hcell, ?_⟩
    rw [← Grid.width, hzero] at hle
    rw [hzero]
    exact Whole.eq_zero_of_le hle
      (Whole.isNegative_add hcolumn (Attributes.isNegative_columnSpan _))
  case exact =>
    intro row hmem cell hcell hsmall
    obtain ⟨here, -, i, hplaced⟩ := hrow hmem
    have hcolumn := Whole.isNegative_of_isRounded (hplaced.inOrder.isRounded cell hcell)
    exact Whole.exact_add hcolumn (Attributes.isNegative_columnSpan _) hsmall

theorem isGrid_placeCells {n : Node} {table : Table} (h : n.content = .table table) :
    ∃ columns, n.placeCells.content = .table { table with columns } ∧
      IsGrid columns n.placeCells.rows := by
  have hrounded : Grid.AreRounded [] := nofun
  have hrows := rows_numberRows 0
    (Grid.placeRows_hold (isNegative_columns n.children) hrounded)
  unfold placeCells
  rw [h]
  exact ⟨_, rfl, isGrid_of_rowsPlaced hrows⟩

end Node

/-! ### Placing again -/

/-- The content without what the placing of cells writes. -/
def Content.withoutGrid : Content → Content
  | .table t => .table { t with columns := .finite (-1) }
  | .row r => .row { r with row := .finite (-1), visibleCells := 0 }
  | .cell c => .cell { c with row := .finite (-1), column := .finite (-1) }
  | content => content

theorem Content.kind_withoutGrid (content : Content) :
    content.withoutGrid.kind = content.kind := by
  cases content <;> rfl

theorem Content.withoutGrid_row (row : TableRow) (number : Whole) (visibleCells : Nat) :
    (Content.row { row with row := number, visibleCells }).withoutGrid =
      (Content.row row).withoutGrid := rfl

namespace Node

/-- A tree without what the placing of cells writes. -/
def withoutGrid (n : Node) : Node := n.mapContent Content.withoutGrid

theorem withoutGrid_withContent {n : Node} {content : Content}
    (h : content.withoutGrid = n.content.withoutGrid) :
    (n.withContent content).withoutGrid = n.withoutGrid := by
  obtain ⟨_, _, _, _, _⟩ := n
  rw [withoutGrid, withoutGrid, withContent, mapContent_node, mapContent_node, h]
  rfl

theorem withoutGrid_withChildren {n : Node} {children : List Node}
    (h : children.map withoutGrid = n.children.map withoutGrid) :
    (n.withChildren children).withoutGrid = n.withoutGrid := by
  obtain ⟨_, _, _, _, _⟩ := n
  rw [withoutGrid, withoutGrid, withChildren, mapContent_node, mapContent_node]
  exact congrArg _ h

theorem withoutGrid_numberCells (row : Whole) (columns : List Whole) (nodes : List Node) :
    (numberCells row columns nodes).map withoutGrid = nodes.map withoutGrid := by
  fun_induction numberCells row columns nodes with
  | case1 => rfl
  | case2 n rest cell column columns hcontent ih =>
      rw [List.map_cons, List.map_cons, ih, withoutGrid_withContent]
      rw [hcontent]
      rfl
  | case3 columns n rest hother ih => rw [List.map_cons, List.map_cons, ih]

theorem withoutGrid_numberRows (index : Nat) (placed : List Grid.PlacedRow) (nodes : List Node) :
    (numberRows index placed nodes).map withoutGrid = nodes.map withoutGrid := by
  fun_induction numberRows index placed nodes with
  | case1 => rfl
  | case2 index n rest row here placed hcontent number ih =>
      rw [List.map_cons, List.map_cons, ih, withoutGrid_withChildren, withoutGrid_withContent]
      · exact (Content.withoutGrid_row ..).trans (congrArg _ hcontent.symm)
      · exact withoutGrid_numberCells ..
  | case3 index placed n rest hother ih => rw [List.map_cons, List.map_cons, ih]

theorem withoutGrid_placeCells (n : Node) : n.placeCells.withoutGrid = n.withoutGrid := by
  unfold placeCells
  split
  · next table hcontent =>
    dsimp only
    rw [withoutGrid_withChildren, withoutGrid_withContent]
    · rw [hcontent]
      rfl
    · exact withoutGrid_numberRows ..
  · rfl

theorem extents_withoutGrid (nodes : List Node) :
    extents (nodes.map withoutGrid) = extents nodes := by
  have hkind (n : Node) : n.withoutGrid.isKind .row = n.isKind .row := by
    rw [isKind, kind, withoutGrid, content_mapContent, Content.kind_withoutGrid]
    rfl
  have hextent (n : Node) : n.withoutGrid.extent? = n.extent? := by
    unfold extent? withoutGrid
    rw [content_mapContent]
    cases n.content <;> rfl
  have hchildren (n : Node) : n.withoutGrid.children = n.children.map withoutGrid :=
    children_mapContent ..
  rw [extents, extents, List.filter_map, List.map_map]
  simp only [Function.comp_def, hkind, hchildren, List.filterMap_map, hextent]

theorem extents_numberRows (index : Nat) (placed : List Grid.PlacedRow) (nodes : List Node) :
    extents (numberRows index placed nodes) = extents nodes := by
  rw [← extents_withoutGrid, withoutGrid_numberRows, extents_withoutGrid]

theorem numberCells_numberCells (row : Whole) (columns : List Whole) (nodes : List Node) :
    numberCells row columns (numberCells row columns nodes) = numberCells row columns nodes := by
  fun_induction numberCells row columns nodes with
  | case1 => rfl
  | case2 n rest cell column columns hcontent ih =>
      rw [numberCells_cell rfl, ih]
      rfl
  | case3 columns n rest hother ih =>
      rw [numberCells, ih]
      exact hother

theorem numberRows_numberRows (index : Nat) (placed : List Grid.PlacedRow) (nodes : List Node) :
    numberRows index placed (numberRows index placed nodes) = numberRows index placed nodes := by
  fun_induction numberRows index placed nodes with
  | case1 => rfl
  | case2 index n rest row here placed hcontent number ih =>
      rw [numberRows_row rfl, ih, children_withChildren, numberCells_numberCells]
      rfl
  | case3 index placed n rest hother ih =>
      rw [numberRows, ih]
      exact hother

theorem placeCells_placeCells (n : Node) : n.placeCells.placeCells = n.placeCells := by
  by_cases hn : n.kind = .table
  case pos =>
    obtain ⟨table, htable⟩ := Content.exists_table hn
    have hplaced : n.placeCells = (n.withContent (.table { table with
        columns := Grid.width (Grid.placeRows [] (extents n.children)) })).withChildren
          (numberRows 0 (Grid.placeRows [] (extents n.children)) n.children) := by
      rw [placeCells, htable]
    rw [hplaced, placeCells]
    simp only [withChildren, withContent, content, children]
    rw [extents_numberRows, numberRows_numberRows]
    rfl
  case neg => rw [placeCells_of_kind hn, placeCells_of_kind hn]

end Node

end DocMarkup
