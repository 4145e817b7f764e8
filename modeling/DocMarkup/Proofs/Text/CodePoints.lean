import Mathlib.Data.List.Basic
import DocMarkup.Text.Units

/-!
Texts and their code points.  Reading the code points of a text and writing them gives the text
back, and a text may be cut anywhere but between the halves of a surrogate pair.  A text in which
every half has its partner is the text of a string.
-/

namespace DocMarkup

namespace CodeUnit

variable {u v : CodeUnit}

theorem isHighSurrogate_iff : isHighSurrogate u ↔ 0xD800 ≤ u.toNat ∧ u.toNat ≤ 0xDBFF := by
  rw [isHighSurrogate, Bool.and_eq_true, decide_eq_true_iff, decide_eq_true_iff,
    UInt16.le_iff_toNat_le, UInt16.le_iff_toNat_le]
  rfl

theorem isLowSurrogate_iff : isLowSurrogate u ↔ 0xDC00 ≤ u.toNat ∧ u.toNat ≤ 0xDFFF := by
  rw [isLowSurrogate, Bool.and_eq_true, decide_eq_true_iff, decide_eq_true_iff,
    UInt16.le_iff_toNat_le, UInt16.le_iff_toNat_le]
  rfl

theorem toNat_highSurrogate {n : Nat} (h : n < 0x400) :
    (0xD800 + n).toUInt16.toNat = 0xD800 + n := by
  rw [Nat.toUInt16, UInt16.toNat_ofNat']
  omega

theorem toNat_lowSurrogate {n : Nat} (h : n < 0x400) :
    (0xDC00 + n).toUInt16.toNat = 0xDC00 + n := by
  rw [Nat.toUInt16, UInt16.toNat_ofNat']
  omega

end CodeUnit

theorem unitsOfCodePoint_toNat (u : CodeUnit) : unitsOfCodePoint u.toNat = [u] := by
  rw [unitsOfCodePoint, if_pos u.toNat_lt]
  exact congrArg (· :: []) (UInt16.ofNat_toNat)

namespace Text

open CodeUnit

/-- A cut between two texts falls between the halves of a surrogate pair. -/
def splitsPair (a b : Text) : Bool := a.getLast?.any isHighSurrogate && b.head?.any isLowSurrogate

/-- The code point of a surrogate pair. -/
def pairPoint (high low : CodeUnit) : Nat :=
  0x10000 + (high.toNat - 0xD800) * 0x400 + (low.toNat - 0xDC00)

variable {u v : CodeUnit} {t rest : Text}

/-! ### One code point -/

theorem codePoints_pair (hu : isHighSurrogate u) (hv : isLowSurrogate v) :
    codePoints (u :: v :: rest) = pairPoint u v :: codePoints rest := by
  rw [codePoints, hu, hv]
  rfl

theorem codePoints_single (h : splitsPair [u] rest = false) :
    codePoints (u :: rest) = u.toNat :: codePoints rest := by
  cases rest with
  | nil => rfl
  | cons v rest =>
      have hpair : (isHighSurrogate u && isLowSurrogate v) = false := h
      rw [codePoints, hpair]
      rfl

/-- A text begins with a surrogate pair or with a unit that is a code point. -/
theorem codePoints_induct {motive : Text → Prop} (nil : motive [])
    (pair : ∀ u v rest, isHighSurrogate u → isLowSurrogate v → motive rest →
      motive (u :: v :: rest))
    (single : ∀ u rest, splitsPair [u] rest = false → motive rest → motive (u :: rest))
    (t : Text) : motive t := by
  fun_induction codePoints t with
  | case1 => exact nil
  | case2 u => exact single u [] (Bool.and_false _) nil
  | case3 u v rest hpair ih =>
      rw [Bool.and_eq_true] at hpair
      exact pair u v rest hpair.1 hpair.2 ih
  | case4 u v rest hpair ih => exact single u (v :: rest) (Bool.eq_false_iff.2 hpair) ih

theorem unitsOfCodePoint_pairPoint (hu : isHighSurrogate u) (hv : isLowSurrogate v) :
    unitsOfCodePoint (pairPoint u v) = [u, v] := by
  rw [isHighSurrogate_iff] at hu
  rw [isLowSurrogate_iff] at hv
  have hhigh : 0xD800 + (pairPoint u v - 0x10000) / 0x400 = u.toNat := by
    unfold pairPoint
    omega
  have hlow : 0xDC00 + (pairPoint u v - 0x10000) % 0x400 = v.toNat := by
    unfold pairPoint
    omega
  rw [unitsOfCodePoint, if_neg (by unfold pairPoint; omega)]
  dsimp only
  rw [hhigh, hlow]
  simp

theorem pairPoint_bounds (hu : isHighSurrogate u) (hv : isLowSurrogate v) :
    0xFFFF < pairPoint u v ∧ pairPoint u v < 0x110000 := by
  rw [isHighSurrogate_iff] at hu
  rw [isLowSurrogate_iff] at hv
  unfold pairPoint
  omega

/-! ### All code points -/

/-- A text is what its code points write. -/
theorem ofCodePoints_codePoints (t : Text) : ofCodePoints (codePoints t) = t := by
  induction t using codePoints_induct with
  | nil => rfl
  | pair u v rest hu hv ih =>
      rw [codePoints_pair hu hv, ofCodePoints, List.flatMap_cons, unitsOfCodePoint_pairPoint hu hv,
        ← ofCodePoints, ih]
      rfl
  | single u rest h ih =>
      rw [codePoints_single h, ofCodePoints, List.flatMap_cons, unitsOfCodePoint_toNat,
        ← ofCodePoints, ih]
      rfl

/-- The code points of a text that is cut between two of them. -/
theorem codePoints_append {a b : Text} (h : splitsPair a b = false) :
    codePoints (a ++ b) = codePoints a ++ codePoints b := by
  induction a using codePoints_induct with
  | nil => rfl
  | pair u v rest hu hv ih =>
      have hrest : splitsPair rest b = false := by
        cases rest with
        | nil => rfl
        | cons w rest => simpa [splitsPair] using h
      rw [List.cons_append, List.cons_append, codePoints_pair hu hv, codePoints_pair hu hv,
        ih hrest]
      rfl
  | single u rest hu ih =>
      cases rest with
      | nil => exact codePoints_single h
      | cons w rest =>
          have hrest : splitsPair (w :: rest) b = false := by simpa [splitsPair] using h
          have hfirst : splitsPair [u] (w :: rest ++ b) = false := hu
          rw [List.cons_append, codePoints_single hu, codePoints_single hfirst, ih hrest]
          rfl

theorem codePoints_lt {t : Text} : ∀ point ∈ codePoints t, point < 0x110000 := by
  induction t using codePoints_induct with
  | nil => exact nofun
  | pair u v rest hu hv ih =>
      rw [codePoints_pair hu hv]
      exact List.forall_mem_cons.2 ⟨(pairPoint_bounds hu hv).2, ih⟩
  | single u rest h ih =>
      rw [codePoints_single h]
      have hu := u.toNat_lt
      exact List.forall_mem_cons.2 ⟨by omega, ih⟩

/-- A code point of the basic plane is a unit of the text. -/
theorem exists_unit_of_mem_codePoints {t : Text} {point : Nat} (hpoint : point ∈ codePoints t)
    (hsmall : point ≤ 0xFFFF) : ∃ u ∈ t, u.toNat = point := by
  induction t using codePoints_induct with
  | nil => cases hpoint
  | pair u v rest hu hv ih =>
      rw [codePoints_pair hu hv] at hpoint
      rcases List.mem_cons.1 hpoint with hpair | hrest
      · have hbounds := pairPoint_bounds hu hv
        omega
      · obtain ⟨w, hw, hpoint⟩ := ih hrest
        exact ⟨w, List.mem_cons_of_mem _ (List.mem_cons_of_mem _ hw), hpoint⟩
  | single u rest h ih =>
      rw [codePoints_single h] at hpoint
      rcases List.mem_cons.1 hpoint with rfl | hrest
      · exact ⟨u, List.mem_cons_self, rfl⟩
      · obtain ⟨w, hw, hpoint⟩ := ih hrest
        exact ⟨w, List.mem_cons_of_mem _ hw, hpoint⟩

theorem ofCodePoints_append (a b : List Nat) :
    ofCodePoints (a ++ b) = ofCodePoints a ++ ofCodePoints b := List.flatMap_append

/-! ### Strings -/

theorem codePoints_surrogates {high low : Nat} (hhigh : high < 0x400) (hlow : low < 0x400)
    (t : Text) : codePoints ((0xD800 + high).toUInt16 :: (0xDC00 + low).toUInt16 :: t) =
      (0x10000 + high * 0x400 + low) :: codePoints t := by
  have hu := toNat_highSurrogate hhigh
  have hv := toNat_lowSurrogate hlow
  generalize (0xD800 + high).toUInt16 = u at hu ⊢
  generalize (0xDC00 + low).toUInt16 = v at hv ⊢
  have hpoint : pairPoint u v = 0x10000 + high * 0x400 + low := by
    unfold pairPoint
    omega
  rw [codePoints_pair, hpoint]
  · rw [isHighSurrogate_iff, hu]
    omega
  · rw [isLowSurrogate_iff, hv]
    omega

theorem codePoints_unitsOfCodePoint_append (c : Char) (t : Text) :
    codePoints (unitsOfCodePoint c.toNat ++ t) = c.toNat :: codePoints t := by
  have hvalid : c.toNat < 0xD800 ∨ 0xDFFF < c.toNat ∧ c.toNat < 0x110000 := c.valid
  unfold unitsOfCodePoint
  split
  · next hsmall =>
    have hunit : c.toNat.toUInt16.toNat = c.toNat := UInt16.toNat_ofNat_of_lt' hsmall
    have hhigh : isHighSurrogate c.toNat.toUInt16 = false := by
      rw [Bool.eq_false_iff, ne_eq, isHighSurrogate_iff, hunit]
      omega
    rw [List.singleton_append, codePoints_single, hunit]
    simp [splitsPair, hhigh]
  · next hlarge =>
    have hhigh : (c.toNat - 0x10000) / 0x400 < 0x400 := by omega
    have hlow : (c.toNat - 0x10000) % 0x400 < 0x400 := by omega
    refine (codePoints_surrogates hhigh hlow t).trans ?_
    exact congrArg (· :: codePoints t) (by omega)

/-- The code points of a string are its characters. -/
theorem codePoints_units (s : String) : codePoints (units s) = s.toList.map Char.toNat := by
  unfold units
  induction s.toList with
  | nil => rfl
  | cons c rest ih =>
      rw [List.flatMap_cons, codePoints_unitsOfCodePoint_append, ih]
      rfl

/-- Every half of a surrogate pair has its partner. -/
def IsWellFormed (t : Text) : Prop := ∀ point ∈ codePoints t, point < 0xD800 ∨ 0xDFFF < point

instance (t : Text) : Decidable t.IsWellFormed :=
  inferInstanceAs (Decidable (∀ point ∈ codePoints t, point < 0xD800 ∨ 0xDFFF < point))

theorem isWellFormed_units (s : String) : (units s).IsWellFormed := by
  intro point hpoint
  rw [codePoints_units] at hpoint
  obtain ⟨c, -, rfl⟩ := List.mem_map.1 hpoint
  have hvalid : c.toNat < 0xD800 ∨ 0xDFFF < c.toNat ∧ c.toNat < 0x110000 := c.valid
  omega

theorem toNat_scalar {point : Nat} (hlt : point < 0x110000)
    (h : point < 0xD800 ∨ 0xDFFF < point) : (scalar point).toNat = point := by
  have hvalid : point.isValidChar := h.imp_right fun hlarge => ⟨hlarge, hlt⟩
  rw [scalar, if_neg (by simp; omega), Char.ofNat, dif_pos hvalid]
  rfl

/-- A well-formed text is that of its string. -/
theorem units_toString (h : t.IsWellFormed) : units t.toString = t := by
  have hscalars : (codePoints t).map (fun point => (scalar point).toNat) = codePoints t := by
    rw [List.map_congr_left fun point hpoint => toNat_scalar (codePoints_lt point hpoint)
      (h point hpoint), List.map_id']
  calc units t.toString
      = ofCodePoints ((codePoints t).map fun point => (scalar point).toNat) := by
        rw [toString, units, String.toList_ofList, List.flatMap_map, ofCodePoints,
          List.flatMap_map]
    _ = t := by rw [hscalars, ofCodePoints_codePoints]

/-! ### Places between characters -/

/-- A place between whole characters: a string ends there, and a string begins. -/
def IsBoundary (t : Text) (p : Nat) : Prop :=
  ∃ before after : String, t = units before ++ units after ∧ (units before).length = p

/-- A place between the halves of a surrogate pair. -/
def cutsPair (t : Text) (p : Nat) : Bool := splitsPair (t.take p) (t.drop p)

theorem isLowSurrogate_eq_false (hu : isHighSurrogate u) : isLowSurrogate u = false := by
  rw [isHighSurrogate_iff] at hu
  rw [Bool.eq_false_iff, ne_eq, isLowSurrogate_iff]
  omega

/-- No half stands without its partner at the end of a well-formed text. -/
theorem IsWellFormed.getLast?_eq (h : t.IsWellFormed) : t.getLast?.any isHighSurrogate = false := by
  cases hlast : t.getLast? with
  | none => rfl
  | some u =>
      rw [Option.any_some, Bool.eq_false_iff]
      intro hu
      obtain ⟨before, rfl⟩ := List.getLast?_eq_some_iff.1 hlast
      have hcut : splitsPair before [u] = false := by
        simp [splitsPair, isLowSurrogate_eq_false hu]
      have hpoint : u.toNat ∈ codePoints (before ++ [u]) := by
        rw [codePoints_append hcut]
        exact List.mem_append_right _ (List.mem_singleton.2 rfl)
      have hscalar := h _ hpoint
      rw [isHighSurrogate_iff] at hu
      omega

/-- In a well-formed text a place is between whole characters unless it cuts a pair. -/
theorem isBoundary_iff (h : t.IsWellFormed) {p : Nat} :
    t.IsBoundary p ↔ p ≤ t.length ∧ t.cutsPair p = false := by
  constructor
  · rintro ⟨before, after, rfl, rfl⟩
    refine ⟨by simp, ?_⟩
    rw [cutsPair, List.take_left, splitsPair, (isWellFormed_units before).getLast?_eq]
    rfl
  · rintro ⟨hp, hcut⟩
    have hpoints : codePoints t = codePoints (t.take p) ++ codePoints (t.drop p) := by
      rw [← codePoints_append hcut, List.take_append_drop]
    have hbefore : IsWellFormed (t.take p) := fun point hpoint =>
      h point (by rw [hpoints]; exact List.mem_append_left _ hpoint)
    have hafter : IsWellFormed (t.drop p) := fun point hpoint =>
      h point (by rw [hpoints]; exact List.mem_append_right _ hpoint)
    refine ⟨Text.toString (t.take p), Text.toString (t.drop p), ?_, ?_⟩
    · rw [units_toString hbefore, units_toString hafter, List.take_append_drop]
    · rw [units_toString hbefore, List.length_take_of_le hp]

end Text

end DocMarkup
