import Mathlib.Data.List.Forall2
import Mathlib.Data.List.Perm.Subperm
import DocMarkup.Parser.Basic
import DocMarkup.Proofs.Number.Rounding

/-!
The slots of a grid.  A cell takes the slot it is placed on and those below that it reaches down to.
The open spans are looked at once for a cell, in the order they were opened, so a cell that is moved
past a span may come to stand below a cell of an earlier row.  This is the only way in which two
cells come to take the same slot.
-/

namespace DocMarkup

namespace Whole

/-- One more is exact for small numbers. -/
theorem finite_add_one {n : Nat} (h : n + 1 < exactBound) :
    finite n + 1 = finite (n + 1 : Nat) := by
  rw [one_eq, finite_add_finite]
  exact ofNat_of_lt h

theorem lt_finite (m n : Int) : lt (finite m) (finite n) = decide (m < n) := rfl

theorem zero_lt_finite (n : Int) : lt 0 (finite n) = decide (0 < n) := by
  rw [zero_eq]
  rfl

theorem lt_of_le {m n : Int} {number : Whole} (hle : m ≤ n) (h : lt (finite n) number) :
    lt (finite m) number := by
  cases number with
  | infinite negative => exact h
  | finite k =>
      rw [lt_finite, decide_eq_true_iff] at h ⊢
      omega

end Whole

namespace Grid

open Whole (exactBound)

/-! ### Rows left -/

/-- What is left of the rows a cell asks for, some rows below its own.  Numbers that are not exact
stay above the number of rows that a table can have. -/
def Remains (rows : Whole) (below : Nat) (left : Whole) : Prop :=
  (∃ k : Nat, rows = .finite k ∧ k ≤ exactBound ∧ left = .finite (k - below : Nat)) ∨
    (Whole.lt (.finite exactBound) rows ∧
      Whole.lt left (.finite (exactBound - below : Nat)) = false)

theorem remains_start {rows : Whole} (h : Whole.lt 0 rows) : Remains rows 0 rows := by
  rw [Whole.zero_eq] at h
  cases rows with
  | infinite negative =>
      cases negative with
      | true => cases h
      | false => exact .inr ⟨rfl, rfl⟩
  | finite n =>
      have hpositive : (0 : Int) < n := of_decide_eq_true h
      lift n to Nat using Int.le_of_lt hpositive
      by_cases hn : n ≤ exactBound
      · exact .inl ⟨n, rfl, hn, rfl⟩
      · have hlarge : (exactBound : Int) < n := by omega
        refine .inr ⟨by rwa [Whole.lt_finite, decide_eq_true_iff], ?_⟩
        rw [Whole.lt_finite, decide_eq_false_iff_not, Nat.sub_zero]
        omega

/-- One row further down, a span that is still open has a row less. -/
theorem Remains.next {rows left : Whole} {below : Nat} (h : Remains rows below left) :
    Remains rows (below + 1) (if Whole.lt 0 left then left.pred else left) := by
  -- few rows are counted down exactly; many stay many, whatever rounding does to them
  rcases h with ⟨k, hrows, hk, rfl⟩ | ⟨hrows, hleft⟩
  · refine .inl ⟨k, hrows, hk, ?_⟩
    rw [Whole.zero_lt_finite]
    split
    · next hopen =>
      have hlt : k - (below + 1) < exactBound := by
        have hopen := of_decide_eq_true hopen
        omega
      rw [Whole.pred, Whole.finite_add_finite, ← Whole.ofNat_of_lt hlt]
      have hopen := of_decide_eq_true hopen
      exact congrArg Whole.ofInt (by omega)
    · next hclosed =>
      have hclosed : ¬ 0 < ((k - below : Nat) : Int) := fun h => hclosed (decide_eq_true h)
      exact congrArg Whole.finite (by omega)
  · refine .inr ⟨hrows, ?_⟩
    cases left with
    | infinite negative =>
        cases negative with
        | true => cases hleft
        | false =>
            rw [Whole.zero_eq]
            rfl
    | finite n =>
        have hn : (exactBound - below : Nat) ≤ n := by simpa [Whole.lt] using hleft
        rw [Whole.zero_lt_finite]
        split
        · next hopen =>
          have hopen := of_decide_eq_true hopen
          lift n to Nat using Int.le_of_lt hopen
          have hpred : Whole.pred (.finite n) = Whole.ofNat (n - 1) := by
            rw [Whole.pred, Whole.finite_add_finite]
            exact congrArg Whole.ofInt (by omega)
          rw [hpred]
          rcases Nat.lt_or_ge (n - 1) exactBound with hsmall | hlarge
          · rw [Whole.ofNat_of_lt hsmall]
            exact decide_eq_false (by omega)
          · have hround := Whole.le_roundNat hlarge
            have hsign : ¬ ((n - 1 : Nat) : Int) < 0 := by omega
            unfold Whole.ofNat Whole.ofInt
            dsimp only
            split
            · simp only [Int.natAbs_natCast, hsign, decide_false, Whole.signed, Whole.lt,
                Bool.false_eq_true, if_false]
              exact decide_eq_false (by omega)
            · simp [hsign, Whole.lt]
        · next hclosed =>
          have hclosed : ¬ 0 < n := fun h => hclosed (decide_eq_true h)
          exact decide_eq_false (by omega)

/-- A span is open in the rows that its cell reaches down to. -/
theorem Remains.lt_iff {rows left : Whole} {below : Nat} (h : Remains rows below left)
    (hbelow : below < exactBound) : Whole.lt 0 left = Whole.lt (.finite below) rows := by
  rcases h with ⟨k, rfl, -, rfl⟩ | ⟨hrows, hleft⟩
  · rw [Whole.zero_lt_finite]
    exact decide_eq_decide.2 (by omega)
  · have hopen : Whole.lt 0 left = true := by
      rw [Whole.zero_eq]
      cases left with
      | infinite negative =>
          cases negative with
          | true => cases hleft
          | false => rfl
      | finite n =>
          have hn : (exactBound - below : Nat) ≤ n := by simpa [Whole.lt] using hleft
          exact decide_eq_true (by omega)
    have hreaches : Whole.lt (.finite below) rows = true := by
      cases rows with
      | infinite negative => exact hrows
      | finite n =>
          have hn : (exactBound : Int) < n := of_decide_eq_true hrows
          exact decide_eq_true (by omega)
    rw [hopen, hreaches]

/-! ### Blocks -/

/-- A cell on the grid: where it is placed, and the rows it asks for. -/
structure Block where
  row : Nat
  column : Nat
  rows : Whole

namespace Block

/-- A block takes the slots of its column in its own row and the rows it reaches down to. -/
def Takes (b : Block) (row column : Nat) : Prop :=
  b.column = column ∧ ∃ below, row = b.row + below ∧ (below = 0 ∨ Whole.lt (.finite below) b.rows)

/-- Whether a block opens a span. -/
def opensSpan (b : Block) : Bool := Whole.lt 0 b.rows

/-- Two blocks take no slot together. -/
def Apart (a b : Block) : Prop := ∀ row column, ¬ (a.Takes row column ∧ b.Takes row column)

/-- The later of two blocks does not reach down along the left side of the earlier. -/
def Clear (earlier later : Block) : Prop :=
  ∀ row column, later.Takes row column → earlier.Takes row (column + 1) → later.row = row

/-- A block takes the slots of all rows from its own to the last. -/
theorem takes_between {b : Block} {row between column : Nat} (h : b.Takes row column)
    (hstarts : b.row ≤ between) (hends : between ≤ row) : b.Takes between column := by
  obtain ⟨hcolumn, below, hrow, hbelow⟩ := h
  refine ⟨hcolumn, between - b.row, by omega, ?_⟩
  rcases hbelow with rfl | hbelow
  · exact .inl (by omega)
  · exact .inr (Whole.lt_of_le (by omega) hbelow)

end Block

/-- A span reaches into this row. -/
def ActiveSpan.IsOpen (span : ActiveSpan) : Prop := Whole.lt 0 span.rowsLeft

/-- A span is that of a block, as it is seen in a row. -/
structure Opened (row : Nat) (b : Block) (span : ActiveSpan) : Prop where
  column : span.column = .finite b.column
  starts : b.row ≤ row
  left : Remains b.rows (row - b.row) span.rowsLeft

/-- The spans are those of the blocks that ask for rows, in the order in which they were placed. -/
def Tracks (row : Nat) (done : List Block) (spans : List ActiveSpan) : Prop :=
  List.Forall₂ (Opened row) (done.filter Block.opensSpan) spans

theorem Opened.takes {row : Nat} {b : Block} {span : ActiveSpan} (h : Opened row b span)
    (hrow : row < exactBound) (hopen : span.IsOpen) : b.Takes row b.column := by
  have hstarts := h.starts
  refine ⟨rfl, row - b.row, by omega, .inr ?_⟩
  rwa [← h.left.lt_iff (by omega)]

theorem Opened.isOpen {row : Nat} {b : Block} {span : ActiveSpan} (h : Opened row b span)
    (hrow : row < exactBound) {below : Nat} (hbelow : row = b.row + below)
    (hlt : Whole.lt (.finite below) b.rows) : span.IsOpen := by
  rw [ActiveSpan.IsOpen, h.left.lt_iff (by omega), show row - b.row = below by omega]
  exact hlt

theorem tracks_endRow {row : Nat} {done : List Block} {spans : List ActiveSpan}
    (h : Tracks row done spans) : Tracks (row + 1) done (endRow spans) := by
  unfold Tracks endRow
  rw [List.forall₂_map_right_iff]
  refine h.imp fun b span hopened => ?_
  have hstarts := hopened.starts
  have hnext := hopened.left.next
  rw [show row - b.row + 1 = row + 1 - b.row by omega] at hnext
  split
  · next hopen =>
    rw [if_pos hopen] at hnext
    exact ⟨hopened.column, by omega, hnext⟩
  · next hclosed =>
    rw [if_neg hclosed] at hnext
    exact ⟨hopened.column, by omega, hnext⟩

/-! ### The way past the spans -/

/-- The spans were passed on the way from one column to another. -/
structure Skips (spans : List ActiveSpan) (first last : Nat) : Prop where
  le : first ≤ last
  passes : ∀ k, first ≤ k → k < last → ∃ span ∈ spans, span.IsOpen ∧ span.column = .finite k
  /-- An open span in the way was looked at too early: a later one led up to it. -/
  blocked : ∀ before span after, spans = before ++ span :: after → span.IsOpen →
    span.column = .finite last →
      first < last ∧ ∃ later ∈ after, later.IsOpen ∧ later.column = .finite (last - 1 : Nat)

theorem Skips.keep {spans : List ActiveSpan} {span : ActiveSpan} {first last : Nat}
    (h : Skips spans first last) (hspan : span.IsOpen → span.column ≠ .finite first) :
    Skips (span :: spans) first last where
  le := h.le
  passes k hfirst hlast := by
    obtain ⟨passed, hpassed, hopen⟩ := h.passes k hfirst hlast
    exact ⟨passed, List.mem_cons_of_mem _ hpassed, hopen⟩
  blocked before here after hspans hopen hcolumn := by
    cases before with
    | nil =>
        obtain ⟨rfl, rfl⟩ := List.cons.inj hspans
        have hne : first ≠ last := by
          rintro rfl
          exact hspan hopen hcolumn
        have hlt : first < last := Nat.lt_of_le_of_ne h.le hne
        obtain ⟨later, hlater⟩ := h.passes (last - 1) (by omega) (by omega)
        exact ⟨hlt, later, hlater⟩
    | cons _ before =>
        obtain ⟨rfl, hrest⟩ := List.cons.inj hspans
        exact h.blocked before here after hrest hopen hcolumn

theorem Skips.pass {spans : List ActiveSpan} {span : ActiveSpan} {first last : Nat}
    (h : Skips spans (first + 1) last) (hopen : span.IsOpen) (hcolumn : span.column = .finite first) :
    Skips (span :: spans) first last where
  le := Nat.le_of_succ_le h.le
  passes k hfirst hlast := by
    rcases Nat.eq_or_lt_of_le hfirst with rfl | hfirst
    · exact ⟨span, List.mem_cons_self, hopen, hcolumn⟩
    · obtain ⟨passed, hpassed, hopen⟩ := h.passes k hfirst hlast
      exact ⟨passed, List.mem_cons_of_mem _ hpassed, hopen⟩
  blocked before here after hspans hopen' hcolumn' := by
    cases before with
    | nil =>
        obtain ⟨rfl, rfl⟩ := List.cons.inj hspans
        have hle := h.le
        rw [hcolumn, Whole.finite.injEq] at hcolumn'
        omega
    | cons _ before =>
        obtain ⟨rfl, hrest⟩ := List.cons.inj hspans
        obtain ⟨hlt, hlater⟩ := h.blocked before here after hrest hopen' hcolumn'
        exact ⟨by omega, hlater⟩

theorem exists_skips {spans : List ActiveSpan}
    (hspans : ∀ span ∈ spans, ∃ k : Nat, span.column = .finite k ∧ k + 1 < exactBound)
    {place : Place} {first : Nat} (h : place.column = .finite first) :
    ∃ last : Nat, (place.skip spans).column = .finite last ∧ Skips spans first last := by
  unfold Place.skip
  induction spans generalizing place first with
  | nil => exact ⟨first, h, Nat.le_refl _, fun k _ _ => by omega, fun before _ _ hnone => by simp at hnone⟩
  | cons span spans ih =>
      obtain ⟨⟨k, hk, hbound⟩, hspans⟩ := List.forall_mem_cons.1 hspans
      rw [List.foldl_cons]
      split
      · next hhere =>
        obtain ⟨hopen, hcolumn⟩ := Bool.and_eq_true_iff.1 hhere
        have hcolumn := (eq_of_beq hcolumn).trans h
        obtain rfl : k = first := by
          rw [hk, Whole.finite.injEq] at hcolumn
          omega
        have hnext : ({ column := span.column + 1, cells := place.cells + 1 } : Place).column =
            .finite (k + 1 : Nat) := by
          rw [← Whole.finite_add_one hbound, ← hk]
        obtain ⟨last, hlast, hskips⟩ := ih hspans hnext
        exact ⟨last, hlast, hskips.pass hopen hcolumn⟩
      · next hhere =>
        obtain ⟨last, hlast, hskips⟩ := ih hspans h
        refine ⟨last, hlast, hskips.keep fun hopen hcolumn => hhere ?_⟩
        exact Bool.and_eq_true_iff.2 ⟨hopen, beq_iff_eq.2 (hcolumn.trans h.symm)⟩

/-! ### Placing -/

/-- What has been placed before the next cell of a row. -/
structure Standing (row : Nat) (done : List Block) (spans : List ActiveSpan) (place : Place)
    (column : Nat) : Prop where
  place : place.column = .finite column
  tracks : Tracks row done spans
  above : ∀ b ∈ done, b.row ≤ row
  /-- The cells of the row stand before the place. -/
  before : ∀ b ∈ done, b.row = row → b.column < column
  /-- Every column before the place has been passed. -/
  passed : ∀ k < column, ∃ b ∈ done, b.column = k
  bounded : ∀ b ∈ done, b.column < done.length

theorem exists_opened {row : Nat} {blocks : List Block} {spans : List ActiveSpan}
    (h : Tracks row blocks spans) {span : ActiveSpan} (hspan : span ∈ spans) :
    ∃ b ∈ blocks, Opened row b span := by
  obtain ⟨b, hb, hopened⟩ := Node.exists_of_mem_right h hspan
  exact ⟨b, List.mem_of_mem_filter hb, hopened⟩

/-- The spans behind that of a block are those of the blocks behind it. -/
theorem Tracks.split {row : Nat} {before after : List Block} {b : Block}
    {spans : List ActiveSpan} (h : Tracks row (before ++ b :: after) spans) (hb : b.opensSpan) :
    ∃ spansBefore span spansAfter, spans = spansBefore ++ span :: spansAfter ∧
      Opened row b span ∧ Tracks row after spansAfter := by
  unfold Tracks at h
  rw [List.filter_append, List.filter_cons_of_pos hb] at h
  have hrest := List.forall₂_drop_append _ _ _ h.flip
  obtain ⟨span, spansAfter, hspan, hafter, hdrop⟩ := List.forall₂_cons_right_iff.1 hrest
  refine ⟨spans.take (before.filter Block.opensSpan).length, span, spansAfter, ?_, hspan,
    hafter.flip⟩
  rw [← hdrop, List.take_append_drop]

namespace Standing

variable {row column last : Nat} {done : List Block} {spans : List ActiveSpan} {place : Place}

/-- As many cells have been placed as there are columns before the place. -/
theorem le_length (hpassed : ∀ k < column, ∃ b ∈ done, b.column = k) : column ≤ done.length := by
  have hsubset : List.range column ⊆ done.map Block.column := by
    intro k hk
    obtain ⟨b, hb, hcolumn⟩ := hpassed k (List.mem_range.1 hk)
    exact List.mem_map.2 ⟨b, hb, hcolumn⟩
  have hlength := (List.nodup_range.subperm hsubset).length_le
  rwa [List.length_range, List.length_map] at hlength

theorem exists_skips (h : Standing row done spans place column)
    (hlength : done.length < exactBound) :
    ∃ last : Nat, (place.skip spans).column = .finite last ∧ Skips spans column last := by
  refine Grid.exists_skips (fun span hspan => ?_) h.place
  obtain ⟨b, hb, hopened⟩ := exists_opened h.tracks hspan
  have hbounded := h.bounded b hb
  exact ⟨b.column, hopened.column, by omega⟩

theorem passed_last (h : Standing row done spans place column) (hskips : Skips spans column last) :
    ∀ k < last, ∃ b ∈ done, b.column = k := by
  intro k hk
  rcases Nat.lt_or_ge k column with hbefore | hbehind
  · exact h.passed k hbefore
  · obtain ⟨span, hspan, -, hcolumn⟩ := hskips.passes k hbehind hk
    obtain ⟨b, hb, hopened⟩ := exists_opened h.tracks hspan
    have hsame := hopened.column.symm.trans hcolumn
    rw [Whole.finite.injEq] at hsame
    exact ⟨b, hb, by omega⟩

/-- A cell takes no slot of one that was placed before, unless a third one is in the way. -/
theorem apart (h : Standing row done spans place column) (hrow : row < exactBound)
    (hskips : Skips spans column last) (rows : Whole) (hclear : done.Pairwise Block.Clear) :
    ∀ b ∈ done, b.Apart { row, column := last, rows } := by
  rintro b hb row' column' ⟨htakes, rfl, below, hbelow, -⟩
  dsimp only at hbelow
  have hstarts := h.above b hb
  have htakes := Block.takes_between htakes hstarts (by omega)
  obtain ⟨hcolumn, below', hbelow', hreaches⟩ := htakes
  dsimp only at hcolumn
  have hle := hskips.le
  have hrow' : b.row < row := by
    refine Nat.lt_of_le_of_ne hstarts fun hsame => ?_
    have hbefore := h.before b hb hsame
    omega
  have hreaches := hreaches.resolve_left (by omega)
  have hopens : b.opensSpan := by
    rw [Block.opensSpan, Whole.zero_eq]
    exact Whole.lt_of_le (by omega) hreaches
  -- The span of the block was passed over, so one that was opened later led up to its column.
  obtain ⟨before, after, rfl⟩ := List.append_of_mem hb
  obtain ⟨spansBefore, span, spansAfter, rfl, hopened, hafter⟩ := h.tracks.split hopens
  obtain ⟨hlt, span', hspan', hopen', hcolumn'⟩ := hskips.blocked _ _ _ rfl
    (hopened.isOpen hrow hbelow' hreaches) (by rw [hopened.column, hcolumn])
  obtain ⟨later, hlater, hopenedLater⟩ := exists_opened hafter hspan'
  have hbeside : later.column = last - 1 := by
    have hsame := hopenedLater.column.symm.trans hcolumn'
    rw [Whole.finite.injEq] at hsame
    omega
  have hclear := (List.pairwise_cons.1 (List.pairwise_append.1 hclear).2.1).1 later hlater
  have hlaterRow := hclear row later.column (hopenedLater.takes hrow hopen')
    ⟨by omega, below', hbelow', .inr hreaches⟩
  have hbefore := h.before later (by simp [hlater]) hlaterRow
  omega

/-- Placing a cell keeps all of this, behind the column that the spans leave to it. -/
theorem next (h : Standing row done spans place column) (hlength : done.length + 1 < exactBound)
    {cell : Extent} (hcell : cell.columns = 1) (hlast : (place.skip spans).column = .finite last)
    (hskips : Skips spans column last) :
    Standing row (done ++ [{ row, column := last, rows := cell.rows }])
      (if Whole.lt 0 cell.rows then
        spans ++ [{ rowsLeft := cell.rows, column := (place.skip spans).column }] else spans)
      { column := (place.skip spans).column + cell.columns, cells := (place.skip spans).cells + 1 }
      (last + 1) := by
  have hpassed := h.passed_last hskips
  have hle := hskips.le
  have hcount := le_length hpassed
  refine
    { place := ?place, tracks := ?tracks, above := ?above, before := ?before, passed := ?passed,
      bounded := ?bounded }
  case place =>
    dsimp only
    rw [hcell, hlast, Whole.finite_add_one (by omega)]
  case tracks =>
    -- the new block is tracked exactly if it asks for rows below its own
    unfold Tracks
    rw [List.filter_append]
    split
    case isTrue hasks =>
      have hopens : Block.opensSpan { row, column := last, rows := cell.rows } := hasks
      rw [List.filter_cons_of_pos hopens, List.filter_nil, hlast]
      refine List.rel_append h.tracks (.cons ⟨rfl, Nat.le_refl _, ?_⟩ .nil)
      rw [Nat.sub_self]
      exact remains_start hasks
    case isFalse hnone =>
      have hcloses : ¬ Block.opensSpan { row, column := last, rows := cell.rows } := hnone
      rw [List.filter_cons_of_neg hcloses, List.filter_nil, List.append_nil]
      exact h.tracks
  case above =>
    exact List.forall_mem_append.2 ⟨h.above, List.forall_mem_singleton.2 (Nat.le_refl _)⟩
  case before =>
    refine List.forall_mem_append.2 ⟨fun b hb hsame => ?_, ?_⟩
    · have hbefore := h.before b hb hsame
      omega
    · exact List.forall_mem_singleton.2 fun _ => Nat.lt_succ_self _
  case passed =>
    intro k hk
    rcases Nat.lt_succ_iff_lt_or_eq.1 hk with hk | rfl
    · obtain ⟨b, hb, hcolumn⟩ := hpassed k hk
      exact ⟨b, List.mem_append_left _ hb, hcolumn⟩
    · exact ⟨_, List.mem_append_right _ (List.mem_singleton_self _), rfl⟩
  case bounded =>
    rw [List.length_append, List.length_singleton]
    refine List.forall_mem_append.2 ⟨fun b hb => ?_, List.forall_mem_singleton.2 ?_⟩
    · have hbounded := h.bounded b hb
      omega
    · dsimp only
      omega

end Standing

/-! ### Rows -/

/-- The blocks of a row: where its cells are placed, with the rows they ask for. -/
structure IsRow (row : Nat) (columns : List Whole) (cells : List Extent) (blocks : List Block) :
    Prop where
  columns : columns = blocks.map fun b => .finite b.column
  cells : cells.map Extent.rows = blocks.map Block.rows
  row : ∀ b ∈ blocks, b.row = row

theorem exists_row {row column : Nat} {done : List Block} {spans : List ActiveSpan} {place : Place}
    (h : Standing row done spans place column) (hrow : row < exactBound) {cells : List Extent}
    (hcells : ∀ cell ∈ cells, cell.columns = 1)
    (hlength : done.length + cells.length < exactBound) :
    ∃ blocks column', IsRow row (placeRow spans place cells).1 cells blocks ∧
      Standing row (done ++ blocks) (placeRow spans place cells).2.2
        (placeRow spans place cells).2.1 column' ∧
      ((done ++ blocks).Pairwise Block.Clear → done.Pairwise Block.Apart →
        (done ++ blocks).Pairwise Block.Apart) := by
  induction cells generalizing done spans place column with
  | nil =>
      refine ⟨[], column, ⟨rfl, rfl, List.forall_mem_nil _⟩, ?_, ?_⟩
      · rw [List.append_nil]
        exact h
      · rw [List.append_nil]
        exact fun _ hapart => hapart
  | cons cell rest ih =>
      obtain ⟨hcell, hrest⟩ := List.forall_mem_cons.1 hcells
      rw [List.length_cons] at hlength
      obtain ⟨last, hlast, hskips⟩ := h.exists_skips (by omega)
      have hnext := h.next (by omega) hcell hlast hskips
      obtain ⟨blocks, column', hblocks, hstanding, hapart⟩ :=
        ih hnext hrest (by rw [List.length_append, List.length_singleton]; omega)
      rw [List.append_assoc, List.singleton_append] at hstanding hapart
      refine ⟨{ row, column := last, rows := cell.rows } :: blocks, column', ?_, hstanding, ?_⟩
      · refine ⟨?_, ?_, List.forall_mem_cons.2 ⟨rfl, hblocks.row⟩⟩
        · rw [List.map_cons, ← hblocks.columns, ← hlast]
          rfl
        · rw [List.map_cons, List.map_cons, hblocks.cells]
      · intro hclear hdone
        refine hapart hclear (List.pairwise_append.2 ⟨hdone, List.pairwise_singleton .., ?_⟩)
        intro b hb here hhere
        rw [List.mem_singleton.1 hhere]
        exact h.apart hrow hskips cell.rows (List.pairwise_append.1 hclear).1 b hb

/-- The blocks of a table, row by row. -/
inductive AreRows : Nat → List PlacedRow → List (List Extent) → List Block → Prop
  | nil (row : Nat) : AreRows row [] [] []
  | cons {row : Nat} {placed : PlacedRow} {cells : List Extent} {blocks : List Block}
      {later : List PlacedRow} {rest : List (List Extent)} {more : List Block}
      (here : IsRow row placed.columns cells blocks) (below : AreRows (row + 1) later rest more) :
      AreRows row (placed :: later) (cells :: rest) (blocks ++ more)

theorem tracks_above {row : Nat} {done : List Block} {spans : List ActiveSpan}
    (h : Tracks row done spans) (habove : ∀ b ∈ done, b.row < row)
    (hbounded : ∀ b ∈ done, b.column < done.length) : Standing row done spans {} 0 where
  place := Whole.zero_eq
  tracks := h
  above b hb := Nat.le_of_lt (habove b hb)
  before b hb hsame := by
    have hlt := habove b hb
    omega
  passed k hk := by omega
  bounded := hbounded

theorem exists_rows {row : Nat} {done : List Block} {spans : List ActiveSpan}
    {rows : List (List Extent)} (h : Tracks row done spans) (habove : ∀ b ∈ done, b.row < row)
    (hbounded : ∀ b ∈ done, b.column < done.length) (hrow : row + rows.length ≤ exactBound)
    (hcells : ∀ cell ∈ rows.flatten, cell.columns = 1)
    (hlength : done.length + rows.flatten.length < exactBound) :
    ∃ blocks, AreRows row (placeRows spans rows) rows blocks ∧
      ((done ++ blocks).Pairwise Block.Clear → done.Pairwise Block.Apart →
        (done ++ blocks).Pairwise Block.Apart) := by
  induction rows generalizing row done spans with
  | nil =>
      refine ⟨[], .nil row, ?_⟩
      rw [List.append_nil]
      exact fun _ hapart => hapart
  | cons cells rest ih =>
      rw [List.flatten_cons] at hcells hlength
      rw [List.length_append] at hlength
      rw [List.length_cons] at hrow
      obtain ⟨hhere, hrest⟩ := List.forall_mem_append.1 hcells
      obtain ⟨blocks, column, hblocks, hstanding, hapart⟩ :=
        exists_row (tracks_above h habove hbounded) (by omega) hhere (by omega)
      have hcount : blocks.length = cells.length := by
        simpa using (congrArg List.length hblocks.cells).symm
      obtain ⟨more, hmore, hapartMore⟩ := ih (tracks_endRow hstanding.tracks)
        (fun b hb => Nat.lt_succ_of_le (hstanding.above b hb)) hstanding.bounded (by omega) hrest
        (by rw [List.length_append]; omega)
      rw [List.append_assoc] at hapartMore
      refine ⟨blocks ++ more, .cons hblocks hmore, fun hclear hdone => hapartMore hclear ?_⟩
      rw [← List.append_assoc] at hclear
      exact hapart (List.pairwise_append.1 hclear).1 hdone

end Grid

/-! ### Tables -/

namespace TableCell

/-- A cell that has been placed takes the slots of its column in its own row and in those it
reaches down to. -/
def Takes (cell : TableCell) (row column : Nat) : Prop :=
  cell.column = .finite column ∧ ∃ first below : Nat, cell.row = .finite first ∧
    row = first + below ∧ (below = 0 ∨ Whole.lt (.finite below) cell.attributes.rowSpan)

/-- Two cells take no slot together. -/
def Apart (cell other : TableCell) : Prop :=
  ∀ row column, ¬ (cell.Takes row column ∧ other.Takes row column)

/-- The later of two cells does not reach down along the left side of the earlier. -/
def Clear (earlier later : TableCell) : Prop :=
  ∀ row column : Nat, later.Takes row column → earlier.Takes row (column + 1) →
    later.row = .finite row

/-- A cell that does not reach down, or stands elsewhere, is in the way of none. -/
theorem clear_of {earlier later : TableCell}
    (h : earlier.column.toNat ≠ later.column.toNat + 1 ∨
      Whole.lt 1 later.attributes.rowSpan = false) : Clear earlier later := by
  rintro row column ⟨hcolumn, first, below, hfirst, hrow, hbelow⟩ ⟨hnext, -⟩
  rcases h with hcolumns | hrows
  · rw [hcolumn, hnext] at hcolumns
    exact absurd rfl hcolumns
  · rcases hbelow with rfl | hbelow
    · rw [hfirst, hrow, Nat.add_zero]
    · rcases Nat.eq_zero_or_pos below with rfl | hpositive
      · rw [hfirst, hrow, Nat.add_zero]
      · rw [Whole.one_eq, Whole.lt_of_le (by omega) hbelow] at hrows
        cases hrows

/-- A cell was placed as a block. -/
structure StandsAs (cell : TableCell) (b : Grid.Block) : Prop where
  row : cell.row = .finite b.row
  column : cell.column = .finite b.column
  rows : cell.attributes.rowSpan = b.rows

theorem StandsAs.takes_iff {cell : TableCell} {b : Grid.Block} (h : cell.StandsAs b)
    (row column : Nat) : cell.Takes row column ↔ b.Takes row column := by
  unfold Takes Grid.Block.Takes
  rw [h.row, h.column, h.rows]
  constructor
  · rintro ⟨hcolumn, first, below, hfirst, hrow, hbelow⟩
    rw [Whole.finite.injEq] at hcolumn hfirst
    exact ⟨by omega, below, by omega, hbelow⟩
  · rintro ⟨rfl, below, hrow, hbelow⟩
    exact ⟨rfl, _, below, rfl, hrow, hbelow⟩

end TableCell

/-- What holds between the later and the earlier of some things holds between those they stand
for. -/
theorem pairwise_of_forall₂ {α β : Type} {P : α → β → Prop} {R : α → α → Prop} {S : β → β → Prop}
    {as : List α} {bs : List β} (h : List.Forall₂ P as bs)
    (himp : ∀ {a b a' b'}, P a b → P a' b' → S b b' → R a a') (hpairs : bs.Pairwise S) :
    as.Pairwise R := by
  induction h with
  | nil => exact .nil
  | @cons a b as bs hab hrest ih =>
      obtain ⟨hfirst, hlater⟩ := List.pairwise_cons.1 hpairs
      refine List.pairwise_cons.2 ⟨fun a' ha' => ?_, ih hlater⟩
      obtain ⟨b', hb', hab'⟩ := Node.exists_of_mem_right hrest.flip ha'
      exact himp hab hab' (hfirst b' hb')

namespace Node

def cell? (n : Node) : Option TableCell :=
  match n.content with
  | .cell cell => some cell
  | _ => none

/-- The cells of a table, row by row. -/
def tableCells (table : Node) : List TableCell :=
  (table.children.filter (·.isKind .row)).flatMap fun row => row.children.filterMap cell?

theorem extent?_eq (n : Node) :
    n.extent? = n.cell?.map fun cell =>
      { rows := cell.attributes.rowSpan, columns := cell.attributes.columnSpan } := by
  unfold extent? cell?
  cases n.content <;> rfl

theorem flatten_extents (nodes : List Node) :
    (extents nodes).flatten = ((nodes.filter (·.isKind .row)).flatMap fun row =>
      row.children.filterMap cell?).map fun cell =>
        { rows := cell.attributes.rowSpan, columns := cell.attributes.columnSpan } := by
  have hrow : ∀ n : Node, n.children.filterMap extent? =
      (n.children.filterMap cell?).map fun cell =>
        { rows := cell.attributes.rowSpan, columns := cell.attributes.columnSpan } := by
    intro n
    rw [List.map_filterMap]
    exact List.filterMap_congr fun child _ => extent?_eq child
  rw [extents, List.flatten_eq_flatMap, List.flatMap_map, List.map_flatMap]
  exact List.flatMap_congr fun n _ => hrow n

theorem standsAs_numberCells {row : Nat} (hrow : row < Whole.exactBound) {columns : List Whole}
    {nodes : List Node} {blocks : List Grid.Block}
    (h : Grid.IsRow row columns (nodes.filterMap extent?) blocks) :
    List.Forall₂ TableCell.StandsAs ((numberCells (.ofNat row) columns nodes).filterMap cell?)
      blocks := by
  rw [Whole.ofNat_of_lt hrow]
  induction nodes generalizing columns blocks with
  | nil =>
      obtain rfl : blocks = [] := List.map_eq_nil_iff.1 h.cells.symm
      unfold numberCells
      exact .nil
  | cons n rest ih =>
      obtain ⟨hcolumns, hcells, hblocks⟩ := h
      cases hcell : n.cell? with
      | none =>
          have hextent : n.extent? = none := by rw [extent?_eq, hcell]; rfl
          rw [List.filterMap_cons_none hextent] at hcells
          have hkept : numberCells (.finite row) columns (n :: rest) =
              n :: numberCells (.finite row) columns rest := by
            rw [numberCells.eq_def]
            dsimp only
            split
            · next hcontent =>
              rw [cell?, hcontent] at hcell
              cases hcell
            · rfl
          rw [hkept, List.filterMap_cons_none hcell]
          exact ih ⟨hcolumns, hcells, hblocks⟩
      | some cell =>
          have hcontent : n.content = .cell cell := by
            unfold cell? at hcell
            split at hcell
            · next found hfound => rw [hfound, Option.some.inj hcell]
            · cases hcell
          have hextent := extent?_eq n
          rw [hcell, Option.map_some] at hextent
          rw [List.filterMap_cons_some hextent, List.map_cons] at hcells
          obtain ⟨b, more, rfl, hb, hmore⟩ := List.map_eq_cons_iff.1 hcells.symm
          rw [List.map_cons] at hcolumns
          obtain ⟨hhere, hbelow⟩ := List.forall_mem_cons.1 hblocks
          subst hcolumns
          rw [numberCells_cell hcontent, List.filterMap_cons_some (f := cell?) (b := { cell with
            row := .finite row, column := .finite b.column }) rfl]
          have hrow : (.finite row : Whole) = .finite b.row := by rw [hhere]
          exact .cons ⟨hrow, rfl, hb.symm⟩ (ih ⟨rfl, hmore.symm, hbelow⟩)

theorem standsAs_numberRows {nodes : List Node} {row : Nat} {placed : List Grid.PlacedRow}
    {blocks : List Grid.Block} (h : Grid.AreRows row placed (extents nodes) blocks)
    (hrow : row + nodes.length ≤ Whole.exactBound) :
    List.Forall₂ TableCell.StandsAs (((numberRows row placed nodes).filter (·.isKind .row)).flatMap
      fun row => row.children.filterMap cell?) blocks := by
  induction nodes generalizing row placed blocks with
  | nil =>
      cases h
      exact .nil
  | cons n rest ih =>
      rw [List.length_cons] at hrow
      cases hkind : n.isKind .row with
      | false =>
          have hextents : extents (n :: rest) = extents rest := by simp [extents, hkind]
          have hkept : numberRows row placed (n :: rest) = n :: numberRows row placed rest := by
            rw [numberRows.eq_def]
            dsimp only
            split
            · next hcontent =>
              rw [isKind, kind, hcontent] at hkind
              cases hkind
            · rfl
          rw [hextents] at h
          rw [hkept, List.filter_cons_of_neg (by simp [hkind])]
          exact ih h (by omega)
      | true =>
          have hextents : extents (n :: rest) = n.children.filterMap extent? :: extents rest := by
            simp [extents, hkind]
          rw [hextents] at h
          cases h with
          | @cons _ here _ blocks placed _ more hhere hbelow =>
              obtain ⟨tableRow, hcontent⟩ : ∃ tableRow, n.content = .row tableRow := by
                rw [isKind, kind, beq_iff_eq] at hkind
                cases hcontent : n.content <;> rw [hcontent] at hkind <;> first
                  | exact ⟨_, rfl⟩
                  | cases hkind
              rw [numberRows_row hcontent, List.filter_cons_of_pos rfl, List.flatMap_cons]
              exact List.rel_append (standsAs_numberCells (by omega) hhere) (ih hbelow (by omega))

/-- No two cells of a table take the same slot when every cell takes one column and none reaches down
along the left side of a cell of an earlier row.  Tables have fewer cells than there are exact
numbers. -/
theorem placeCells_apart {table : Node} (hkind : table.kind = .table)
    (hcolumns : ∀ cell ∈ table.tableCells, cell.attributes.columnSpan = 1)
    (hrows : table.children.length ≤ Whole.exactBound)
    (hcells : table.tableCells.length < Whole.exactBound)
    (hclear : table.placeCells.tableCells.Pairwise TableCell.Clear) :
    (∀ cell ∈ table.placeCells.tableCells, ∃ row column : Nat,
        cell.row = .finite row ∧ cell.column = .finite column) ∧
      table.placeCells.tableCells.Pairwise TableCell.Apart := by
  obtain ⟨content, hcontent⟩ : ∃ content, table.content = .table content := by
    rw [kind] at hkind
    cases hcontent : table.content <;> rw [hcontent] at hkind <;> first
      | exact ⟨_, rfl⟩
      | cases hkind
  have hone : ∀ cell ∈ (extents table.children).flatten, cell.columns = 1 := by
    intro cell hcell
    rw [flatten_extents] at hcell
    obtain ⟨found, hfound, rfl⟩ := List.mem_map.1 hcell
    exact hcolumns found hfound
  have hlength : (extents table.children).flatten.length = table.tableCells.length := by
    rw [flatten_extents, List.length_map]
    rfl
  have hcount : (extents table.children).length ≤ table.children.length := by
    rw [extents, List.length_map]
    exact List.length_filter_le ..
  have hnone : Grid.Tracks 0 [] [] := .nil
  obtain ⟨blocks, hblocks, hapart⟩ := Grid.exists_rows hnone (List.forall_mem_nil _)
    (List.forall_mem_nil _) (by omega) hone (by rw [List.length_nil]; omega)
  have hplaced : table.placeCells.children =
      numberRows 0 (Grid.placeRows [] (extents table.children)) table.children := by
    unfold placeCells
    rw [hcontent]
    rfl
  have hstands : List.Forall₂ TableCell.StandsAs table.placeCells.tableCells blocks := by
    rw [tableCells, hplaced]
    exact standsAs_numberRows hblocks (by omega)
  refine ⟨fun cell hcell => ?_, ?_⟩
  · obtain ⟨b, -, hb⟩ := exists_of_mem_right hstands.flip hcell
    exact ⟨b.row, b.column, hb.row, hb.column⟩
  -- cells and blocks take the same slots, so clearance goes over and the result comes back
  · refine pairwise_of_forall₂ hstands (fun ha hb h row column => ?_) (hapart ?_ .nil)
    · rw [ha.takes_iff, hb.takes_iff]
      exact h row column
    · refine pairwise_of_forall₂ hstands.flip (fun ha hb h row column => ?_) hclear
      intro hlater hearlier
      have hrow := h row column ((hb.takes_iff ..).2 hlater) ((ha.takes_iff ..).2 hearlier)
      rw [hb.row, Whole.finite.injEq] at hrow
      omega

/-- Two cells that reach down, and cells that are moved to the right of them. -/
theorem placeCells_apart_beside_spans :
    let root := (({} : Parser).parse { text := units <|
      "<table><tr><td rowspan=2>a</td><td rowspan=3>b</td></tr><tr><td>c</td></tr>" ++
        "<tr><td>d</td><td>e</td></tr></table>" }).1.root
    let table := ((root.children.flatMap children).head?).getD root
    table.kind = .table ∧
      (∀ cell ∈ table.tableCells, cell.attributes.columnSpan = 1) ∧
      table.children.length ≤ Whole.exactBound ∧
      table.tableCells.length < Whole.exactBound ∧
      table.placeCells.tableCells.Pairwise TableCell.Clear ∧
      table.placeCells.tableCells.map (fun cell => (cell.row, cell.column)) =
        [(0, 0), (0, 1), (1, 2), (2, 0), (2, 2)] ∧
      table.placeCells.tableCells.Pairwise TableCell.Apart := by
  intro root table
  -- one evaluation of the comment serves all the facts about its table
  obtain ⟨hkind, hcolumns, hrows, hcells, hpairs, hplaces⟩ :
      table.kind = .table ∧
        (∀ cell ∈ table.tableCells, cell.attributes.columnSpan = 1) ∧
        table.children.length ≤ Whole.exactBound ∧
        table.tableCells.length < Whole.exactBound ∧
        (table.placeCells.tableCells.Pairwise fun earlier later =>
          earlier.column.toNat ≠ later.column.toNat + 1 ∨
            Whole.lt 1 later.attributes.rowSpan = false) ∧
        table.placeCells.tableCells.map (fun cell => (cell.row, cell.column)) =
          [(0, 0), (0, 1), (1, 2), (2, 0), (2, 2)] := by
    decide +kernel
  have hclear : table.placeCells.tableCells.Pairwise TableCell.Clear :=
    hpairs.imp TableCell.clear_of
  exact ⟨hkind, hcolumns, hrows, hcells, hclear, hplaces,
    (placeCells_apart hkind hcolumns hrows hcells hclear).2⟩

/-- A span that is opened later is looked at later, so a cell that it moves comes to stand below a
cell of the first row. -/
theorem placeCells_overlap :
    let root := (({} : Parser).parse { text := units <|
      "<table><tr><td>a</td><td rowspan=3>b</td></tr><tr><td rowspan=2>c</td></tr>" ++
        "<tr><td>d</td></tr></table>" }).1.root
    let table := ((root.children.flatMap children).head?).getD root
    table.kind = .table ∧
      (∀ cell ∈ table.tableCells, cell.attributes.columnSpan = 1) ∧
      ¬ table.placeCells.tableCells.Pairwise TableCell.Apart := by
  intro root table
  obtain ⟨hkind, hcolumns, hcells⟩ :
      table.kind = .table ∧
        (∀ cell ∈ table.tableCells, cell.attributes.columnSpan = 1) ∧
        table.placeCells.tableCells.map (fun cell =>
          (cell.row, cell.column, cell.attributes.rowSpan)) =
            [(.finite 0, .finite 0, .finite 0), (.finite 0, .finite 1, .finite 3),
              (.finite 1, .finite 0, .finite 2), (.finite 2, .finite 1, .finite 0)] := by
    decide +kernel
  refine ⟨hkind, hcolumns, fun hapart => ?_⟩
  generalize table.placeCells.tableCells = cells at hcells hapart
  obtain ⟨a, rest, rfl, -, hcells⟩ := List.map_eq_cons_iff.1 hcells
  obtain ⟨b, rest, rfl, hb, hcells⟩ := List.map_eq_cons_iff.1 hcells
  obtain ⟨c, rest, rfl, -, hcells⟩ := List.map_eq_cons_iff.1 hcells
  obtain ⟨d, rest, rfl, hd, -⟩ := List.map_eq_cons_iff.1 hcells
  simp only [Prod.mk.injEq] at hb hd
  have hboth := (List.pairwise_cons.1 (List.pairwise_cons.1 hapart).2).1 d (by simp) 2 1
  refine hboth ⟨⟨hb.2.1, 0, 2, hb.1, rfl, .inr ?_⟩, hd.2.1, 2, 0, hd.1, rfl, .inl rfl⟩
  rw [hb.2.2]
  rfl

end Node

end DocMarkup
