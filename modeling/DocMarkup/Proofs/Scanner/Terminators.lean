import Mathlib.Order.Bounds.Image
import DocMarkup.Proofs.Scanner.Tiling

/-!
Where a raw block ends.  A marker ends it at a place where the marker stands whole: if the marker
ends like an identifier, no identifier goes on behind it.  The block is read up to the first place
where one of the markers ends it, and of the markers that do there the first given counts.
-/

namespace DocMarkup

open IncludeBuffer (slice)

namespace Scanner

/-- A marker ends a raw block at an offset of a text. -/
def EndsRawAt (t marker : Text) (i : Nat) : Prop :=
  ∃ before after, t = before ++ marker ++ after ∧ before.length = i ∧
    ¬(marker.getLast?.any CodeUnit.isIdentifierChar ∧ after.head?.any CodeUnit.isIdentifierChar)

/-- The offsets from `start` on where one of the markers ends a raw block. -/
def rawEnds (markers : List Text) (t : Text) (start : Nat) : Set Nat :=
  {i | start ≤ i ∧ ∃ marker ∈ markers, EndsRawAt t marker i}

/-- Of the markers that end a raw block at an offset, the first. -/
def FirstMarker (markers : List Text) (t : Text) (i : Nat) (marker : Text) : Prop :=
  ∃ earlier later, markers = earlier ++ marker :: later ∧ EndsRawAt t marker i ∧
    ∀ other ∈ earlier, ¬EndsRawAt t other i

variable {markers : List Text} {t rest marker : Text} {u : CodeUnit} {i : Nat}

/-! ### Markers at a place -/

theorem endsRawAt_zero : EndsRawAt t marker 0 ↔ marksHere marker t = true := by
  rw [marksHere, Bool.and_eq_true, List.isPrefixOf_iff_prefix, Bool.not_eq_true',
    ← Bool.not_eq_true, Bool.and_eq_true]
  constructor
  · rintro ⟨before, after, rfl, hbefore, hends⟩
    obtain rfl := List.eq_nil_of_length_eq_zero hbefore
    rw [List.nil_append, List.drop_left]
    exact ⟨List.prefix_append _ _, hends⟩
  · rintro ⟨⟨after, rfl⟩, hends⟩
    rw [List.drop_left] at hends
    exact ⟨[], after, rfl, rfl, hends⟩

theorem endsRawAt_append (before : Text) :
    EndsRawAt (before ++ t) marker (before.length + i) ↔ EndsRawAt t marker i := by
  constructor
  · rintro ⟨longer, after, htext, hlength, hends⟩
    obtain ⟨behind, rfl⟩ : before <+: longer := by
      refine List.prefix_of_prefix_length_le (List.prefix_append before t) ?_ (by omega)
      rw [htext, List.append_assoc]
      exact List.prefix_append _ _
    refine ⟨behind, after, ?_, ?_, hends⟩
    · simpa using htext
    · rw [List.length_append] at hlength
      exact Nat.add_left_cancel hlength
  · rintro ⟨behind, after, rfl, rfl, hends⟩
    exact ⟨before ++ behind, after, by simp, List.length_append, hends⟩

theorem EndsRawAt.le_length (h : EndsRawAt t marker i) : i + marker.length ≤ t.length := by
  obtain ⟨before, after, rfl, rfl, -⟩ := h
  simp

theorem EndsRawAt.isPrefix (h : EndsRawAt t marker i) : marker <+: t.drop i := by
  obtain ⟨before, after, rfl, rfl, -⟩ := h
  rw [List.append_assoc, List.drop_left]
  exact List.prefix_append _ _

/-- What ends a raw block behind the start of a text ends one behind any text before it. -/
theorem rawEnds_append (before : Text) :
    rawEnds markers (before ++ t) before.length = (before.length + ·) '' rawEnds markers t 0 := by
  ext i
  constructor
  · rintro ⟨hle, marker, hmarker, hends⟩
    obtain ⟨j, rfl⟩ := Nat.exists_eq_add_of_le hle
    exact ⟨j, ⟨Nat.zero_le j, marker, hmarker, (endsRawAt_append _).1 hends⟩, rfl⟩
  · rintro ⟨j, ⟨-, marker, hmarker, hends⟩, rfl⟩
    exact ⟨Nat.le_add_right _ j, marker, hmarker, (endsRawAt_append _).2 hends⟩

theorem FirstMarker.append (h : FirstMarker markers t i marker) (before : Text) :
    FirstMarker markers (before ++ t) (before.length + i) marker := by
  obtain ⟨earlier, later, hmarkers, hends, hearlier⟩ := h
  exact ⟨earlier, later, hmarkers, (endsRawAt_append _).2 hends, fun other hother hends =>
    hearlier other hother ((endsRawAt_append _).1 hends)⟩

theorem FirstMarker.mem (h : FirstMarker markers t i marker) : marker ∈ markers := by
  obtain ⟨earlier, later, rfl, -⟩ := h
  simp

theorem FirstMarker.endsRawAt (h : FirstMarker markers t i marker) : EndsRawAt t marker i := by
  obtain ⟨-, -, -, hends, -⟩ := h
  exact hends

theorem FirstMarker.mem_rawEnds (h : FirstMarker markers t i marker) : i ∈ rawEnds markers t 0 :=
  ⟨Nat.zero_le i, marker, h.mem, h.endsRawAt⟩

/-! ### The first place -/

/-- The first marker that ends a block right where a text begins. -/
theorem find?_marksHere_eq_some (h : markers.find? (marksHere · t) = some marker) :
    IsLeast (rawEnds markers t 0) 0 ∧ FirstMarker markers t 0 marker := by
  obtain ⟨hhere, earlier, later, hmarkers, hearlier⟩ := List.find?_eq_some_iff_append.1 h
  have hfirst : FirstMarker markers t 0 marker := by
    refine ⟨earlier, later, hmarkers, endsRawAt_zero.2 hhere, fun other hother hends => ?_⟩
    simpa [endsRawAt_zero.1 hends] using hearlier other hother
  exact ⟨⟨hfirst.mem_rawEnds, fun _ _ => Nat.zero_le _⟩, hfirst⟩

theorem zero_notMem_rawEnds (h : markers.find? (marksHere · t) = none) :
    0 ∉ rawEnds markers t 0 := by
  rintro ⟨-, marker, hmarker, hends⟩
  exact List.find?_eq_none.1 h marker hmarker (endsRawAt_zero.1 hends)

/-- Where no marker ends a block right at the beginning, one unit may be left out. -/
theorem rawEnds_cons (h : markers.find? (marksHere · (u :: rest)) = none) :
    rawEnds markers (u :: rest) 0 = (1 + ·) '' rawEnds markers rest 0 := by
  have hlater : rawEnds markers (u :: rest) 1 = (1 + ·) '' rawEnds markers rest 0 :=
    rawEnds_append [u]
  rw [← hlater]
  ext i
  constructor
  · intro hi
    refine ⟨Nat.one_le_iff_ne_zero.2 ?_, hi.2⟩
    rintro rfl
    exact zero_notMem_rawEnds h hi
  · exact fun hi => ⟨Nat.zero_le i, hi.2⟩

theorem findMarker?_eq_some (h : findMarker? markers t = some (i, marker)) :
    IsLeast (rawEnds markers t 0) i ∧ FirstMarker markers t i marker := by
  induction t generalizing i with
  | nil =>
      rw [findMarker?, Option.map_eq_some_iff] at h
      obtain ⟨found, hfound, heq⟩ := h
      cases heq
      exact find?_marksHere_eq_some hfound
  | cons u rest ih =>
      rw [findMarker?] at h
      split at h
      · next found hfound =>
        cases h
        exact find?_marksHere_eq_some hfound
      · next hnone =>
        obtain ⟨⟨j, found⟩, hfound, heq⟩ := Option.map_eq_some_iff.1 h
        cases heq
        obtain ⟨hleast, hfirst⟩ := ih hfound
        rw [rawEnds_cons hnone, Nat.add_comm]
        have hmono : Monotone fun k => 1 + k := fun _ _ hle => Nat.add_le_add_left hle 1
        exact ⟨hmono.map_isLeast hleast, hfirst.append [u]⟩

theorem findMarker?_eq_none (h : findMarker? markers t = none) : rawEnds markers t 0 = ∅ := by
  induction t with
  | nil =>
      rw [findMarker?, Option.map_eq_none_iff] at h
      refine Set.eq_empty_of_forall_notMem fun i hi => ?_
      obtain ⟨-, marker, hmarker, hends⟩ := id hi
      obtain rfl : i = 0 := by
        have := hends.le_length
        rw [List.length_nil] at this
        omega
      exact zero_notMem_rawEnds h hi
  | cons u rest ih =>
      rw [findMarker?] at h
      split at h
      · cases h
      · next hnone =>
        rw [rawEnds_cons hnone, ih (Option.map_eq_none_iff.1 h), Set.image_empty]

/-! ### Reading a block -/

variable {s : Scanner}

theorem offset_eq_length_behind (s : Scanner) : s.offset = s.cursor.behind.reverse.length := by
  rw [List.length_reverse]
  exact s.cursor.offset_eq

/-- What ends a block that the scanner begins to read, seen from the place of the scanner. -/
theorem rawEnds_text (s : Scanner) (markers : List Text) :
    rawEnds markers s.text s.offset = (s.offset + ·) '' rawEnds markers s.cursor.ahead 0 := by
  rw [offset_eq_length_behind]
  exact rawEnds_append s.cursor.behind.reverse

theorem readRaw_of_some (h : findMarker? markers s.cursor.ahead = some (i, marker)) :
    (s.readRaw markers).1 =
        { text := slice s.text s.offset (s.offset + i), terminated := true, marker } ∧
      (s.readRaw markers).2.offset = s.offset + i + marker.length := by
  have hle := (findMarker?_eq_some h).2.endsRawAt.le_length
  have hslice : slice s.text s.offset (s.offset + i) = s.cursor.ahead.take i := by
    rw [slice, Nat.add_sub_cancel_left]
    exact congrArg (List.take i) s.cursor.drop_offset
  rw [hslice, readRaw, h]
  refine ⟨rfl, ?_⟩
  show (s.cursor.advance _).offset = _
  rw [Cursor.offset_advance, Nat.min_eq_left hle, Nat.add_assoc]
  rfl

theorem readRaw_of_none (h : findMarker? markers s.cursor.ahead = none) :
    (s.readRaw markers).1 = { text := s.text.drop s.offset, terminated := false, marker := [] } ∧
      (s.readRaw markers).2.offset = s.text.length := by
  have hdrop : s.text.drop s.offset = s.cursor.ahead := s.cursor.drop_offset
  rw [hdrop, readRaw, h]
  refine ⟨rfl, ?_⟩
  show (s.cursor.advance _).offset = _
  rw [Cursor.offset_advance, Nat.min_self]
  exact s.cursor.offset_add_length_ahead

/-- A raw block is read from the place of the scanner up to the first place where one of the markers
ends it, and the scanner goes on behind the first marker that does there; where no marker ends it,
the block takes the rest of the text.  Nothing but the place of the scanner changes. -/
theorem readRaw_ends_first (s : Scanner) (markers : List Text) :
    let block := (s.readRaw markers).1
    let after := (s.readRaw markers).2
    let ends := rawEnds markers s.text s.offset
    (ends.Nonempty → ∃ stop, IsLeast ends stop ∧
      FirstMarker markers s.text stop block.marker ∧ block.terminated = true ∧
      block.text = slice s.text s.offset stop ∧ after.offset = stop + block.marker.length) ∧
    (ends = ∅ → block = { text := s.text.drop s.offset, terminated := false, marker := [] } ∧
      after.offset = s.text.length) ∧
    after.text = s.text ∧ { after with cursor := s.cursor } = s := by
  intro block after ends
  have hends : ends = (s.offset + ·) '' rawEnds markers s.cursor.ahead 0 := rawEnds_text s markers
  refine ⟨fun hsome => ?found, fun hempty => ?unended, (advances_readRaw s markers).text, ?kept⟩
  case found =>
    cases hfound : findMarker? markers s.cursor.ahead with
    | none =>
        rw [hends, findMarker?_eq_none hfound, Set.image_empty] at hsome
        exact absurd hsome Set.not_nonempty_empty
    | some found =>
        obtain ⟨hleast, hfirst⟩ := findMarker?_eq_some hfound
        obtain ⟨hblock, hafter⟩ : block = _ ∧ after.offset = _ := readRaw_of_some hfound
        have hmono : Monotone (s.offset + ·) := fun _ _ hle => Nat.add_le_add_left hle _
        have htext := hfirst.append s.cursor.behind.reverse
        rw [← offset_eq_length_behind] at htext
        rw [hends, hblock]
        exact ⟨s.offset + found.1, hmono.map_isLeast hleast, htext, rfl, rfl, hafter⟩
  case unended =>
    cases hfound : findMarker? markers s.cursor.ahead with
    | none => exact readRaw_of_none hfound
    | some found =>
        have hmem := (findMarker?_eq_some hfound).1.1
        rw [Set.image_eq_empty.1 (hends.symm.trans hempty)] at hmem
        exact absurd hmem (Set.notMem_empty _)
  case kept =>
    simp only [after, readRaw]
    split <;> rfl

end Scanner

end DocMarkup
