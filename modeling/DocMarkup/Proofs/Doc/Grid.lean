import DocMarkup.Proofs.Doc.Marks

/-!
The cells of a table are placed: every cell gets a row and a column, and neither is negative.
-/

namespace DocMarkup

namespace Whole

theorem exactBound_le : exactBound ≤ finiteBound := by decide +kernel

/-- Small numbers are exact. -/
theorem ofNat_of_lt {n : Nat} (h : n < exactBound) : ofNat n = finite n := by
  have hround : roundNat n = n := if_pos h
  have hsign : ¬ (n : Int) < 0 := by omega
  unfold ofNat ofInt
  dsimp only
  rw [Int.natAbs_natCast, hround, if_pos (Nat.lt_of_lt_of_le h exactBound_le)]
  simp [signed, hsign]

theorem zero_eq : (0 : Whole) = finite 0 := ofNat_of_lt (by decide)

theorem one_eq : (1 : Whole) = finite 1 := ofNat_of_lt (by decide)

theorem isNegative_finite (value : Int) : (finite value).isNegative = decide (value < 0) := by
  rw [isNegative, zero_eq]
  rfl

theorem isNegative_infinite (negative : Bool) : (infinite negative).isNegative = negative := by
  rw [isNegative, zero_eq]
  rfl

theorem isNegative_zero : (0 : Whole).isNegative = false := by
  rw [zero_eq, isNegative_finite]
  rfl

theorem isNegative_one : (1 : Whole).isNegative = false := by
  rw [one_eq, isNegative_finite]
  rfl

theorem isNegative_ofInt {value : Int} (h : 0 ≤ value) : (ofInt value).isNegative = false := by
  have hsign : ¬ value < 0 := by omega
  unfold ofInt
  dsimp only
  split
  · simp [isNegative_finite, signed, hsign]
  · simp [isNegative_infinite, hsign]

theorem finite_add_finite (m n : Int) : finite m + finite n = ofInt (m + n) := by
  show add (finite m) (finite n) = _
  rw [add]

theorem finite_add_infinite (m : Int) (negative : Bool) :
    finite m + infinite negative = infinite negative := rfl

theorem infinite_add (negative : Bool) (n : Whole) : infinite negative + n = infinite negative := by
  cases n <;> rfl

theorem isNegative_ofNat (n : Nat) : (ofNat n).isNegative = false := isNegative_ofInt (by omega)

theorem isNegative_add {a b : Whole} (ha : a.isNegative = false) (hb : b.isNegative = false) :
    (a + b).isNegative = false := by
  cases a with
  | infinite negative =>
      rw [infinite_add]
      exact ha
  | finite m =>
      cases b with
      | infinite negative =>
          rw [finite_add_infinite]
          exact hb
      | finite n =>
          rw [isNegative_finite, decide_eq_false_iff_not] at ha hb
          rw [finite_add_finite]
          exact isNegative_ofInt (by omega)

theorem isNegative_of_not_lt_one {n : Whole} (h : ¬ Whole.lt n 1) : n.isNegative = false := by
  rw [one_eq] at h
  cases n with
  | infinite negative =>
      rw [isNegative_infinite]
      exact Bool.eq_false_iff.2 h
  | finite value =>
      have hvalue : ¬ value < 1 := by simpa [Whole.lt] using h
      rw [isNegative_finite, decide_eq_false_iff_not]
      omega

end Whole

theorem Attributes.isNegative_columnSpan (attributes : Attributes) :
    attributes.columnSpan.isNegative = false := by
  unfold columnSpan
  split
  · split
    · exact Whole.isNegative_one
    · next hlt => exact Whole.isNegative_of_not_lt_one hlt
  · exact Whole.isNegative_one

namespace Grid

/-- No column is negative where cells reach down from above. -/
def IsSpanned (spans : List ActiveSpan) : Prop := ∀ span ∈ spans, span.column.isNegative = false

theorem Place.isNegative_skip {spans : List ActiveSpan} (h : IsSpanned spans) {place : Place}
    (hplace : place.column.isNegative = false) :
    (place.skip spans).column.isNegative = false := by
  unfold Place.skip
  induction spans generalizing place with
  | nil => exact hplace
  | cons span spans ih =>
      obtain ⟨hspan, hspans⟩ := List.forall_mem_cons.1 h
      rw [List.foldl_cons]
      refine ih hspans ?_
      split
      · show (span.column + 1).isNegative = false
        exact Whole.isNegative_add hspan Whole.isNegative_one
      · exact hplace

/-- Every cell of a row gets a column. -/
theorem placeRow_spec {cells : List Extent} (hcells : ∀ c ∈ cells, c.columns.isNegative = false)
    {spans : List ActiveSpan} (hspans : IsSpanned spans) (place : Place)
    (hplace : place.column.isNegative = false) :
    (placeRow spans place cells).1.length = cells.length ∧
      (∀ column ∈ (placeRow spans place cells).1, column.isNegative = false) ∧
      IsSpanned (placeRow spans place cells).2.2 := by
  induction cells generalizing spans place with
  | nil => exact ⟨rfl, nofun, hspans⟩
  | cons cell rest ih =>
      obtain ⟨hcell, hrest⟩ := List.forall_mem_cons.1 hcells
      have hhere := Place.isNegative_skip hspans hplace
      unfold placeRow
      dsimp only
      generalize hopen : (if Whole.lt 0 cell.rows then
        spans ++ [{ rowsLeft := cell.rows, column := (place.skip spans).column }] else spans) =
          spans'
      have hspans' : IsSpanned spans' := by
        subst hopen
        split
        · exact List.forall_mem_append.2 ⟨hspans, List.forall_mem_singleton.2 hhere⟩
        · exact hspans
      obtain ⟨hlength, hcolumns, hfinal⟩ := ih hrest hspans'
        { column := (place.skip spans).column + cell.columns, cells := (place.skip spans).cells + 1 }
        (Whole.isNegative_add hhere hcell)
      exact ⟨congrArg (· + 1) hlength, List.forall_mem_cons.2 ⟨hhere, hcolumns⟩, hfinal⟩

theorem isSpanned_endRow {spans : List ActiveSpan} (h : IsSpanned spans) :
    IsSpanned (endRow spans) := by
  intro span hspan
  obtain ⟨before, hbefore, rfl⟩ := List.mem_map.1 hspan
  split
  · exact h before hbefore
  · exact h before hbefore

/-- A row has room for its cells. -/
def PlacedRow.Fits (row : PlacedRow) (cells : List Extent) : Prop :=
  row.columns.length = cells.length ∧ ∀ column ∈ row.columns, column.isNegative = false

theorem placeRows_fit {rows : List (List Extent)}
    (hrows : ∀ row ∈ rows, ∀ c ∈ row, c.columns.isNegative = false) {spans : List ActiveSpan}
    (hspans : IsSpanned spans) : List.Forall₂ PlacedRow.Fits (placeRows spans rows) rows := by
  induction rows generalizing spans with
  | nil => exact .nil
  | cons row rest ih =>
      obtain ⟨hrow, hrest⟩ := List.forall_mem_cons.1 hrows
      obtain ⟨hlength, hcolumns, hfinal⟩ := placeRow_spec hrow hspans {} Whole.isNegative_zero
      exact .cons ⟨hlength, hcolumns⟩ (ih hrest (isSpanned_endRow hfinal))

end Grid

namespace Node

theorem isNegative_extent {n : Node} {extent : Grid.Extent} (h : n.extent? = some extent) :
    extent.columns.isNegative = false := by
  unfold extent? at h
  split at h
  · cases h
    exact Attributes.isNegative_columnSpan _
  · cases h

theorem isNegative_columns (nodes : List Node) :
    ∀ row ∈ extents nodes, ∀ c ∈ row, c.columns.isNegative = false := by
  intro row hrow c hc
  obtain ⟨n, -, rfl⟩ := List.mem_map.1 hrow
  obtain ⟨cell, -, hcell⟩ := List.mem_filterMap.1 hc
  exact isNegative_extent hcell

theorem isPlaced_of_extent?_eq_none {n : Node} (h : n.extent? = none) : n.content.isPlaced := by
  unfold extent? at h
  cases hcontent : n.content <;> rw [hcontent] at h
  case cell => cases h
  all_goals rfl

theorem numberCells_cell {n : Node} {cell : TableCell} (h : n.content = .cell cell)
    (row column : Whole) (columns : List Whole) (rest : List Node) :
    numberCells row (column :: columns) (n :: rest) =
      n.withContent (.cell { cell with row, column }) :: numberCells row columns rest := by
  rw [numberCells.eq_def]
  simp only [h]

theorem numberRows_row {n : Node} {row : TableRow} (h : n.content = .row row) (index : Nat)
    (here : Grid.PlacedRow) (placed : List Grid.PlacedRow) (rest : List Node) :
    numberRows index (here :: placed) (n :: rest) =
      (n.withContent (.row { row with
        row := .ofNat index, visibleCells := here.visibleCells })).withChildren
          (numberCells (.ofNat index) here.columns n.children) ::
        numberRows (index + 1) placed rest := by
  rw [numberRows.eq_def]
  simp only [h]

/-- A node got its place. -/
structure Placed (n m : Node) : Prop extends Keeps n m where
  isPlaced : m.content.isPlaced

theorem forall₂_numberCells {row : Whole} (hrow : row.isNegative = false) {columns : List Whole}
    (hcolumns : ∀ column ∈ columns, column.isNegative = false) {nodes : List Node}
    (hlength : columns.length = (nodes.filterMap extent?).length) :
    List.Forall₂ Placed nodes (numberCells row columns nodes) := by
  induction nodes generalizing columns with
  | nil =>
      unfold numberCells
      exact .nil
  | cons n rest ih =>
      unfold numberCells
      split
      · next cell column columns hcontent =>
        obtain ⟨hcolumn, hcolumns⟩ := List.forall_mem_cons.1 hcolumns
        have hkind : n.kind = .cell := congrArg Content.kind hcontent
        have hextent : n.extent?.isSome := by
          unfold extent?
          rw [hcontent]
          rfl
        obtain ⟨extent, hextent⟩ := Option.isSome_iff_exists.1 hextent
        rw [List.filterMap_cons_some hextent, List.length_cons, List.length_cons] at hlength
        refine .cons ⟨.withContent hkind.symm (by rw [hkind]; rfl), ?_⟩
          (ih hcolumns (Nat.succ.inj hlength))
        simp [Content.isPlaced, hrow, hcolumn]
      · next columns _ _ hcontent =>
        cases hn : n.extent? with
        | none =>
            rw [List.filterMap_cons_none hn] at hlength
            exact .cons ⟨.refl n, isPlaced_of_extent?_eq_none hn⟩ (ih hcolumns hlength)
        | some extent =>
            rw [List.filterMap_cons_some hn, List.length_cons] at hlength
            unfold extent? at hn
            split at hn
            · next cell heq =>
              cases columns with
              | nil => cases hlength
              | cons column columns => exact absurd rfl (hcontent cell column columns heq)
            · cases hn

theorem forall₂_numberRows {nodes : List Node} (hnodes : ∀ n ∈ nodes, n.kind = .row)
    {placed : List Grid.PlacedRow}
    (hplaced : List.Forall₂ Grid.PlacedRow.Fits placed (extents nodes)) (index : Nat) :
    List.Forall₂ (fun n m => Keeps n m ∧ ∀ cell ∈ m.children, cell.content.isPlaced) nodes
      (numberRows index placed nodes) := by
  induction nodes generalizing placed index with
  | nil =>
      unfold numberRows
      exact .nil
  | cons n rest ih =>
      obtain ⟨hn, hrest⟩ := List.forall_mem_cons.1 hnodes
      have hextents : extents (n :: rest) = n.children.filterMap extent? :: extents rest := by
        simp [extents, isKind, hn]
      rw [hextents] at hplaced
      cases hplaced with
      | @cons here _ placed _ hfits hplaced =>
          have hcells := forall₂_numberCells (Whole.isNegative_ofNat index) hfits.2 hfits.1
          unfold numberRows
          split
          · next row here' placed' hcontent heq =>
            obtain ⟨rfl, rfl⟩ := List.cons.inj heq
            have hmarked : n.kind.isMarked := by rw [hn]; rfl
            have hkeeps := Keeps.withContent (n := n)
              (c := .row { row with row := .ofNat index, visibleCells := here.visibleCells })
              hn.symm hmarked
            refine .cons ⟨hkeeps.trans (.withChildren ?_ ?_), ?_⟩ (ih hrest hplaced _)
            · exact hcells.imp fun _ _ h => h.toKeeps
            · exact fun h => by simp [Content.kind] at h
            · intro cell hcell
              obtain ⟨_, _, h⟩ := exists_of_mem_right hcells hcell
              exact h.isPlaced
          · next hcontent =>
            cases hrow : n.content <;> simp [kind, hrow, Content.kind] at hn
            exact absurd rfl (hcontent _ _ _ hrow)

/-- The rows of a table keep to the grammar when their cells are placed. -/
theorem placeCells_spec {n : Node} (htable : n.kind = .table)
    (hrows : ∀ row ∈ n.children, row.kind = .row) :
    List.Forall₂ Keeps n.children n.placeCells.children ∧
      ∀ row ∈ n.placeCells.children, ∀ cell ∈ row.children, cell.content.isPlaced := by
  have hspanned : Grid.IsSpanned [] := nofun
  have hplaced := Grid.placeRows_fit (isNegative_columns n.children) hspanned
  have hnumbered := forall₂_numberRows hrows hplaced 0
  cases hcontent : n.content <;> simp [kind, hcontent, Content.kind] at htable
  unfold placeCells
  rw [hcontent]
  refine ⟨hnumbered.imp fun _ _ h => h.1, fun row hrow cell hcell => ?_⟩
  obtain ⟨_, _, h⟩ := exists_of_mem_right hnumbered hrow
  exact h.2 cell hcell

end Node

end DocMarkup
