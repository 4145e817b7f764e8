import Mathlib.Algebra.Group.Nat.Defs
import DocMarkup.Proofs.Doc.Grid

/-!
Rounding keeps the order of numbers, and what has been rounded stays as it is.  So sums of numbers
that are not negative do not lead below what they are formed of, however large they are.
-/

namespace DocMarkup.Whole

/-! ### Quotients -/

theorem roundDiv_mul (k : Nat) {d : Nat} (hd : 0 < d) : roundDiv (k * d) d = k := by
  unfold roundDiv
  dsimp only
  rw [Nat.mul_div_cancel k hd, Nat.mul_mod_left]
  exact if_neg (by simp; omega)

theorem roundDiv_mono {m n d : Nat} (h : m ≤ n) : roundDiv m d ≤ roundDiv n d := by
  have hdiv : m / d ≤ n / d := Nat.div_le_div_right h
  unfold roundDiv
  dsimp only
  rcases Nat.lt_or_eq_of_le hdiv with hlt | heq
  · split_ifs <;> omega
  · have hm := Nat.div_add_mod m d
    have hn := Nat.div_add_mod n d
    have hmod : m % d ≤ n % d := by
      rw [heq] at hm
      omega
    rw [heq]
    simp only [Bool.or_eq_true, decide_eq_true_iff, Bool.and_eq_true, beq_iff_eq]
    split_ifs <;> omega

/-! ### Steps -/

/-- Numbers as large as this one are rounded to multiples of so large a power of two. -/
def stepOf (n : Nat) : Nat := n.log2 - 52

theorem roundNat_eq (n : Nat) : roundNat n = roundDiv n (2 ^ stepOf n) * 2 ^ stepOf n := by
  unfold roundNat
  split
  · next hsmall =>
    have hstep : stepOf n = 0 := by
      rcases Nat.eq_zero_or_pos n with rfl | hpos
      · rfl
      · have hlog : n.log2 < 53 := (Nat.log2_lt (by omega)).2 hsmall
        unfold stepOf
        omega
    have hone := roundDiv_mul n Nat.one_pos
    rw [Nat.mul_one] at hone
    rw [hstep, Nat.pow_zero, hone, Nat.mul_one]
  · rfl

theorem lt_of_stepOf (n : Nat) : n < 2 ^ (53 + stepOf n) := by
  have hlog : n < 2 ^ (n.log2 + 1) := Nat.lt_log2_self
  refine Nat.lt_of_lt_of_le hlog (Nat.pow_le_pow_right (by decide) ?_)
  unfold stepOf
  omega

theorem stepOf_mono {m n : Nat} (h : m ≤ n) : stepOf m ≤ stepOf n := by
  rcases Nat.eq_zero_or_pos m with rfl | hpos
  · exact Nat.zero_le _
  · have hlog : m.log2 ≤ n.log2 := by
      rw [Nat.le_log2 (by omega)]
      exact Nat.le_trans (Nat.log2_self_le (by omega)) h
    unfold stepOf
    omega

/-- Rounding does not lead out of the numbers with one step, but for the power of two behind
them. -/
theorem roundNat_le (n : Nat) : roundNat n ≤ 2 ^ (53 + stepOf n) := by
  have hround : roundDiv n (2 ^ stepOf n) ≤ 2 ^ 53 := by
    rw [← roundDiv_mul (2 ^ 53) (Nat.two_pow_pos (stepOf n)), ← Nat.pow_add]
    exact roundDiv_mono (Nat.le_of_lt (lt_of_stepOf n))
  rw [roundNat_eq, Nat.pow_add]
  exact Nat.mul_le_mul_right _ hround

theorem le_roundNat_of_step {n : Nat} (h : 0 < stepOf n) : 2 ^ (52 + stepOf n) ≤ roundNat n := by
  have hlog : 2 ^ (52 + stepOf n) ≤ n := by
    have hstep : 52 + stepOf n = n.log2 := by
      unfold stepOf at h ⊢
      omega
    rw [hstep]
    refine Nat.log2_self_le ?_
    rintro rfl
    exact absurd h (by decide)
  have hround : 2 ^ 52 ≤ roundDiv n (2 ^ stepOf n) := by
    rw [← roundDiv_mul (2 ^ 52) (Nat.two_pow_pos (stepOf n)), ← Nat.pow_add]
    exact roundDiv_mono hlog
  rw [roundNat_eq, Nat.pow_add]
  exact Nat.mul_le_mul_right _ hround

/-! ### Rounded numbers -/

theorem roundNat_mono {m n : Nat} (h : m ≤ n) : roundNat m ≤ roundNat n := by
  rcases Nat.lt_or_eq_of_le (stepOf_mono h) with hlt | heq
  · calc roundNat m ≤ 2 ^ (53 + stepOf m) := roundNat_le m
      _ ≤ 2 ^ (52 + stepOf n) := Nat.pow_le_pow_right (by decide) (by omega)
      _ ≤ roundNat n := le_roundNat_of_step (by omega)
  · rw [roundNat_eq, roundNat_eq, heq]
    exact Nat.mul_le_mul_right _ (roundDiv_mono h)

theorem roundNat_of_dvd {n : Nat} (h : 2 ^ stepOf n ∣ n) : roundNat n = n := by
  obtain ⟨k, hk⟩ := h
  have hround := roundDiv_mul k (Nat.two_pow_pos (stepOf n))
  rw [Nat.mul_comm, ← hk] at hround
  rw [roundNat_eq, hround, Nat.mul_comm, ← hk]

theorem roundNat_two_pow (k : Nat) : roundNat (2 ^ k) = 2 ^ k := by
  refine roundNat_of_dvd ?_
  rw [stepOf, Nat.log2_two_pow]
  exact Nat.pow_dvd_pow 2 (Nat.sub_le ..)

/-- Rounding does not lead below the numbers that are exact. -/
theorem le_roundNat {n : Nat} (h : exactBound ≤ n) : exactBound ≤ roundNat n := by
  have hround : roundNat exactBound = exactBound := roundNat_two_pow 53
  rw [← hround]
  exact roundNat_mono h

theorem roundNat_roundNat (n : Nat) : roundNat (roundNat n) = roundNat n := by
  refine roundNat_of_dvd ?_
  rcases Nat.lt_or_eq_of_le (roundNat_le n) with hlt | heq
  · have hstep : stepOf (roundNat n) ≤ stepOf n := by
      rcases Nat.eq_zero_or_pos (roundNat n) with hzero | hpos
      · rw [hzero]
        exact Nat.zero_le _
      · have hlog : (roundNat n).log2 < 53 + stepOf n := (Nat.log2_lt (by omega)).2 hlt
        unfold stepOf at hlog ⊢
        omega
    rw [roundNat_eq n] at hstep ⊢
    exact Nat.dvd_trans (Nat.pow_dvd_pow 2 hstep) (Nat.dvd_mul_left ..)
  · rw [heq, stepOf, Nat.log2_two_pow]
    exact Nat.pow_dvd_pow 2 (Nat.sub_le ..)

/-! ### Order -/

theorem le_refl (a : Whole) : le a a := by
  cases a with
  | finite n => simp [le, lt]
  | infinite negative => cases negative <;> rfl

theorem le_trans {a b c : Whole} (hab : le a b) (hbc : le b c) : le a c := by
  cases a with
  | finite l =>
      cases b with
      | finite m =>
          cases c with
          | finite n =>
              simp only [le, lt, Bool.not_eq_true', decide_eq_false_iff_not] at hab hbc ⊢
              omega
          | infinite negative => exact hbc
      | infinite negative =>
          cases negative with
          | true => cases hab
          | false =>
              cases c with
              | finite n => cases hbc
              | infinite negative => cases negative <;> first | rfl | cases hbc
  | infinite negative =>
      cases negative with
      | true => cases c <;> simp [le, lt]
      | false =>
          cases b with
          | finite m => cases hab
          | infinite negative =>
              cases negative with
              | true => cases hab
              | false => exact hbc

theorem eq_zero_of_le {a : Whole} (h : le a 0) (ha : a.isNegative = false) : a = 0 := by
  rw [zero_eq] at h ⊢
  cases a with
  | finite n =>
      rw [isNegative_finite, decide_eq_false_iff_not] at ha
      simp only [le, lt, Bool.not_eq_true', decide_eq_false_iff_not] at h
      exact congrArg finite (by omega)
  | infinite negative =>
      rw [isNegative_infinite] at ha
      rw [ha] at h
      cases h

theorem le_of_lt {a b : Whole} (h : lt a b) : le a b := by
  cases a with
  | finite m =>
      cases b with
      | finite n =>
          simp only [le, lt, decide_eq_true_iff, Bool.not_eq_true', decide_eq_false_iff_not] at h ⊢
          omega
      | infinite negative => exact h
  | infinite negative =>
      cases negative with
      | true => cases b <;> simp [le, lt]
      | false => cases b <;> cases h

theorem le_max (a b : Whole) : le a (max a b) ∧ le b (max a b) := by
  unfold max
  split
  · next hlt => exact ⟨le_of_lt hlt, le_refl b⟩
  · next hlt => exact ⟨le_refl a, by simpa [le] using hlt⟩

theorem max_eq (a b : Whole) : max a b = a ∨ max a b = b := by
  unfold max
  split
  · exact .inr rfl
  · exact .inl rfl

theorem ofNat_eq (n : Nat) :
    ofNat n = if roundNat n < finiteBound then finite (roundNat n) else infinite false := by
  have hsign : ¬ (n : Int) < 0 := by omega
  unfold ofNat ofInt
  simp only [Int.natAbs_natCast, hsign, decide_false, signed, Bool.false_eq_true, if_false]

theorem ofNat_exactBound : ofNat exactBound = finite exactBound := by decide +kernel

theorem le_ofNat {m n : Nat} (h : m ≤ n) : le (ofNat m) (ofNat n) := by
  have hround := roundNat_mono h
  rw [ofNat_eq, ofNat_eq]
  generalize finiteBound = bound
  split_ifs
  · simp only [le, lt, Bool.not_eq_true', decide_eq_false_iff_not]
    omega
  · rfl
  · omega
  · rfl

/-! ### Sums -/

/-- A number that is not negative and has been rounded. -/
def IsRounded (a : Whole) : Prop := a = infinite false ∨ ∃ n : Nat, a = ofNat n

theorem isRounded_zero : IsRounded 0 := .inr ⟨0, rfl⟩

theorem ofNat_add {m : Nat} {b : Whole} (hb : b.isNegative = false) :
    IsRounded (ofNat m + b) ∧ le (ofNat m) (ofNat m + b) := by
  by_cases hfinite : roundNat m < finiteBound
  case neg =>
    rw [ofNat_eq, if_neg hfinite, infinite_add]
    exact ⟨.inl rfl, le_refl _⟩
  case pos =>
    have hm : ofNat m = finite (roundNat m) := by rw [ofNat_eq, if_pos hfinite]
    cases b with
    | infinite negative =>
        rw [isNegative_infinite] at hb
        rw [hm, finite_add_infinite, hb]
        exact ⟨.inl rfl, rfl⟩
    | finite k =>
        rw [isNegative_finite, decide_eq_false_iff_not, Int.not_lt] at hb
        lift k to Nat using hb
        have hsum : ofNat m + finite k = ofNat (roundNat m + k) := by
          rw [hm, finite_add_finite]
          rfl
        have hsame : ofNat m = ofNat (roundNat m) := by
          rw [hm, ofNat_eq, roundNat_roundNat, if_pos hfinite]
        rw [hsum]
        refine ⟨.inr ⟨_, rfl⟩, ?_⟩
        rw [hsame]
        exact le_ofNat (Nat.le_add_right ..)

/-- A sum is not below its first part. -/
theorem IsRounded.add {a b : Whole} (ha : IsRounded a) (hb : b.isNegative = false) :
    IsRounded (a + b) ∧ le a (a + b) := by
  rcases ha with hinfinite | ⟨m, hm⟩
  · rw [hinfinite, infinite_add]
    exact ⟨.inl rfl, le_refl _⟩
  · rw [hm]
    exact ofNat_add hb

theorem isNegative_of_isRounded {a : Whole} (ha : IsRounded a) : a.isNegative = false := by
  rcases ha with hinfinite | ⟨m, hm⟩
  · rw [hinfinite, isNegative_infinite]
  · rw [hm]
    exact isNegative_ofNat m

/-- A sum that is small is exact. -/
theorem exact_add {a b : Whole} (ha : a.isNegative = false) (hb : b.isNegative = false)
    (h : lt (a + b) (finite exactBound)) :
    ∃ m n : Nat, a = finite m ∧ b = finite n ∧ a + b = finite (m + n : Nat) := by
  cases a with
  | infinite negative =>
      rw [isNegative_infinite] at ha
      rw [infinite_add, ha] at h
      cases h
  | finite m =>
      cases b with
      | infinite negative =>
          rw [isNegative_infinite] at hb
          rw [finite_add_infinite, hb] at h
          cases h
      | finite n =>
          rw [isNegative_finite, decide_eq_false_iff_not, Int.not_lt] at ha hb
          lift m to Nat using ha
          lift n to Nat using hb
          have hsum : finite m + finite n = ofNat (m + n) := by
            rw [finite_add_finite]
            rfl
          have hsmall : m + n < exactBound := by
            refine Nat.lt_of_not_le fun hlarge => ?_
            have hle := le_ofNat hlarge
            rw [ofNat_exactBound, le, ← hsum, h] at hle
            cases hle
          exact ⟨m, n, rfl, rfl, by rw [hsum, ofNat_of_lt hsmall]⟩

end DocMarkup.Whole
