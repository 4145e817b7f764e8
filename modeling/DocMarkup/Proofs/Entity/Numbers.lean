import Mathlib.Data.Nat.Digits.Lemmas
import DocMarkup.Entity.Basic
import DocMarkup.Proofs.Number.Rounding

/-!
Numbered characters.  Which texts are numeric entities is said by a grammar of its own, digits with
their values and what they write in a base; decoding accepts that grammar and nothing else, and
every character is decoded from each of its spellings.
-/

namespace DocMarkup.Entity

/-! ### Numerals -/

/-- The decimal digits with their values. -/
def decimalDigits : List (Char × Nat) := "0123456789".toList.zipIdx

/-- The hexadecimal digits of either case with their values. -/
def hexDigits : List (Char × Nat) :=
  decimalDigits ++ "abcdef".toList.zipIdx 10 ++ "ABCDEF".toList.zipIdx 10

/-- One digit or more write a number in a base, the last of them counting ones. -/
def Writes (digits : List (Char × Nat)) (base : Nat) (t : Text) (n : Nat) : Prop :=
  ∃ written : List (Char × Nat), written ≠ [] ∧ (∀ digit ∈ written, digit ∈ digits) ∧
    t = written.map (fun digit => unit digit.1) ∧
    n = Nat.ofDigits base (written.map Prod.snd).reverse

/-- The number of a character: decimal digits, or hexadecimal ones behind an `x` of either case. -/
inductive Numeral : Text → Nat → Prop
  | decimal {t : Text} {n : Nat} (h : Writes decimalDigits 10 t n) : Numeral t n
  | hexadecimal {mark : Char} {t : Text} {n : Nat} (hmark : mark = 'x' ∨ mark = 'X')
      (h : Writes hexDigits 16 t n) : Numeral (unit mark :: t) n

/-- The number that is read from digits, the first one first. -/
def readFrom (base start : Nat) (t : Text) : Nat :=
  t.foldl (fun n u => n * base + CodeUnit.digitValue u) start

theorem readFrom_eq (base start : Nat) (t : Text) :
    readFrom base start t =
      Nat.ofDigits base (t.map CodeUnit.digitValue).reverse + base ^ t.length * start := by
  induction t generalizing start with
  | nil => simp [readFrom]
  | cons u t ih =>
      have hstep : readFrom base start (u :: t) =
          readFrom base (start * base + CodeUnit.digitValue u) t := rfl
      rw [hstep, ih, List.map_cons, Nat.ofDigits_reverse_cons, List.length_map, List.length_cons,
        pow_succ]
      ring

/-- Digits as they are told apart by the decoder are those of a table, with its values. -/
theorem writes_iff {digits : List (Char × Nat)} {base : Nat} {isDigit : CodeUnit → Bool}
    (hvalue : ∀ digit ∈ digits, isDigit (unit digit.1) ∧
      CodeUnit.digitValue (unit digit.1) = digit.2)
    (hlisted : ∀ u, isDigit u → ∃ digit ∈ digits, unit digit.1 = u) (t : Text) (n : Nat) :
    Writes digits base t n ↔ t ≠ [] ∧ t.all isDigit ∧ n = readFrom base 0 t := by
  rw [readFrom_eq, Nat.mul_zero, Nat.add_zero]
  constructor
  · rintro ⟨written, hsome, hdigits, rfl, rfl⟩
    have hvalues : (written.map fun digit => unit digit.1).map CodeUnit.digitValue =
        written.map Prod.snd := by
      rw [List.map_map]
      exact List.map_congr_left fun digit hdigit => (hvalue digit (hdigits digit hdigit)).2
    refine ⟨mt List.map_eq_nil_iff.1 hsome, List.all_eq_true.2 fun u hu => ?_, by rw [hvalues]⟩
    obtain ⟨digit, hdigit, rfl⟩ := List.mem_map.1 hu
    exact (hvalue digit (hdigits digit hdigit)).1
  · rintro ⟨hsome, hall, rfl⟩
    have hwritten : ∃ written : List (Char × Nat), (∀ digit ∈ written, digit ∈ digits) ∧
        t = written.map fun digit => unit digit.1 := by
      clear hsome
      induction t with
      | nil => exact ⟨[], List.forall_mem_nil _, rfl⟩
      | cons u t ih =>
          obtain ⟨hu, ht⟩ := Bool.and_eq_true_iff.1 (List.all_cons ▸ hall)
          obtain ⟨digit, hdigit, rfl⟩ := hlisted u hu
          obtain ⟨written, hdigits, rfl⟩ := ih ht
          exact ⟨digit :: written, List.forall_mem_cons.2 ⟨hdigit, hdigits⟩, rfl⟩
    obtain ⟨written, hdigits, rfl⟩ := hwritten
    refine ⟨written, mt List.map_eq_nil_iff.2 hsome, hdigits, rfl, ?_⟩
    rw [List.map_map]
    congr 2
    exact List.map_congr_left fun digit hdigit => (hvalue digit (hdigits digit hdigit)).2

/-- Of the units below `2 ^ 7`, each can be tried in turn. -/
theorem ascii_forall {p : CodeUnit → Prop} (h : ∀ n < 128, p (UInt16.ofNat n)) {u : CodeUnit}
    (hu : u.toNat < 128) : p u := by
  have hp := h u.toNat hu
  rwa [UInt16.ofNat_toNat] at hp

theorem toNat_lt_of_isHexDigit {u : CodeUnit} (hu : CodeUnit.isHexDigit u) : u.toNat < 128 := by
  simp only [CodeUnit.isHexDigit, CodeUnit.isDigit, Bool.or_eq_true, Bool.and_eq_true,
    decide_eq_true_eq, UInt16.le_iff_toNat_le, UInt16.reduceToNat] at hu
  omega

theorem exists_hexDigit (u : CodeUnit) (hu : CodeUnit.isHexDigit u) :
    ∃ digit ∈ hexDigits, unit digit.1 = u :=
  ascii_forall (p := fun u => CodeUnit.isHexDigit u → ∃ digit ∈ hexDigits, unit digit.1 = u)
    (by decide) (toNat_lt_of_isHexDigit hu) hu

theorem exists_decimalDigit (u : CodeUnit) (hu : CodeUnit.isDigit u) :
    ∃ digit ∈ decimalDigits, unit digit.1 = u := by
  have hhex : CodeUnit.isHexDigit u := by simp [CodeUnit.isHexDigit, hu]
  exact ascii_forall
    (p := fun u => CodeUnit.isDigit u → ∃ digit ∈ decimalDigits, unit digit.1 = u)
    (by decide) (toNat_lt_of_isHexDigit hhex) hu

theorem writes_decimal (t : Text) (n : Nat) :
    Writes decimalDigits 10 t n ↔ t ≠ [] ∧ t.all CodeUnit.isDigit ∧ n = Whole.natOfDigits t :=
  writes_iff (by decide) exists_decimalDigit t n

theorem writes_hex (t : Text) (n : Nat) :
    Writes hexDigits 16 t n ↔
      t ≠ [] ∧ t.all CodeUnit.isHexDigit ∧ n = Whole.natOfHexDigits t :=
  writes_iff (by decide) exists_hexDigit t n

/-! ### Decoding -/

theorem number?_mark {mark : Char} (hmark : mark = 'x' ∨ mark = 'X') (t : Text) (n : Nat) :
    number? (unit mark :: t) = some n ↔
      t ≠ [] ∧ t.all CodeUnit.isHexDigit ∧ n = Whole.natOfHexDigits t := by
  have hletter : (unit mark == unit 'x' || unit mark == unit 'X') = true := by
    rcases hmark with rfl | rfl <;> decide
  rw [number?, if_pos hletter]
  split_ifs with h
  · simp only [false_iff, not_and]
    intro hsome hdigits
    simp [hsome, hdigits] at h
  · rw [Bool.or_eq_true, not_or, List.isEmpty_iff, Bool.not_eq_true', Bool.not_eq_false] at h
    simp [h, eq_comm]

theorem number?_digits {t : Text} (ht : t ≠ []) (n : Nat)
    (hmark : t.head? ≠ some (unit 'x') ∧ t.head? ≠ some (unit 'X')) :
    number? t = some n ↔ t ≠ [] ∧ t.all CodeUnit.isDigit ∧ n = Whole.natOfDigits t := by
  obtain ⟨u, rest, rfl⟩ := List.exists_cons_of_ne_nil ht
  have hletter : ¬ ((u == unit 'x' || u == unit 'X') = true) := by simpa using hmark
  rw [number?, if_neg hletter]
  split_ifs with h <;> simp [h, eq_comm]

theorem head?_of_digits {t : Text} (h : t.all CodeUnit.isDigit) :
    t.head? ≠ some (unit 'x') ∧ t.head? ≠ some (unit 'X') := by
  cases t with
  | nil => simp
  | cons u rest =>
      have hu := List.all_eq_true.1 h u (List.mem_cons_self ..)
      constructor
      all_goals
        intro hletter
        rw [Option.some.inj hletter] at hu
        exact absurd hu (by decide)

theorem number?_eq_some_iff (t : Text) (n : Nat) : number? t = some n ↔ Numeral t n := by
  constructor
  · intro hread
    by_cases hmark : ∃ mark rest, (mark = 'x' ∨ mark = 'X') ∧ t = unit mark :: rest
    case pos =>
      obtain ⟨mark, rest, hletter, rfl⟩ := hmark
      exact .hexadecimal hletter ((writes_hex rest n).2 ((number?_mark hletter rest n).1 hread))
    case neg =>
      have ht : t ≠ [] := by
        rintro rfl
        cases hread
      have hletter : t.head? ≠ some (unit 'x') ∧ t.head? ≠ some (unit 'X') := by
        refine ⟨fun hx => hmark ⟨'x', t.tail, .inl rfl, ?_⟩,
          fun hx => hmark ⟨'X', t.tail, .inr rfl, ?_⟩⟩
        all_goals exact List.eq_cons_of_mem_head? hx
      exact .decimal ((writes_decimal t n).2 ((number?_digits ht n hletter).1 hread))
  · intro hnumeral
    cases hnumeral with
    | decimal h =>
        have hdigits := (writes_decimal t n).1 h
        exact (number?_digits hdigits.1 n (head?_of_digits hdigits.2.1)).2 hdigits
    | hexadecimal hmark h => exact (number?_mark hmark _ n).2 ((writes_hex _ n).1 h)

theorem isScalar_iff (n : Nat) :
    isScalar n ↔ n ≤ 0x10FFFF ∧ ¬ (0xD800 ≤ n ∧ n ≤ 0xDFFF) := by
  simp only [isScalar, Bool.and_eq_true, decide_eq_true_eq, Bool.not_eq_true',
    Bool.and_eq_false_imp]
  simp

/-- The body of an entity stands between a number sign and the end. -/
theorem delimited_iff (t : Text) :
    ((units "&#").isPrefixOf t && Text.endsWith (units ";") t) = true ↔
      t = units "&#" ++ (t.drop 2).dropLast ++ units ";" := by
  have hsign : units "&#" = [unit '&', unit '#'] := rfl
  have hend : units ";" = [unit ';'] := rfl
  rw [Bool.and_eq_true, Text.endsWith, List.isPrefixOf_iff_prefix, List.isSuffixOf_iff_suffix]
  constructor
  · rintro ⟨⟨rest, rfl⟩, front, hfront⟩
    rw [hsign, hend] at hfront ⊢
    -- The semicolon is neither of the first two units, so it ends what stands behind them.
    have hrest : rest ≠ [] := by
      rintro rfl
      rw [List.append_nil] at hfront
      have hlast := congrArg List.getLast? hfront
      rw [List.getLast?_concat] at hlast
      exact absurd hlast (by decide)
    have hlast : rest.getLast? = some (unit ';') := by
      have hwhole := congrArg List.getLast? hfront
      rw [List.getLast?_concat, List.getLast?_append_of_ne_nil _ hrest] at hwhole
      exact hwhole.symm
    rw [List.append_assoc, List.append_cancel_left_eq]
    exact (List.dropLast_append_getLast? _ hlast).symm
  · intro ht
    exact ⟨⟨_, by rw [← List.append_assoc]; exact ht.symm⟩, ⟨_, ht.symm⟩⟩

/-- A text is decoded just when it holds the number of a character between a number sign and a
semicolon. -/
theorem decode?_eq_some_iff (t value : Text) :
    decode? t = some value ↔
      ∃ body n, t = units "&#" ++ body ++ units ";" ∧ Numeral body n ∧ isScalar n ∧
        value = unitsOfCodePoint n := by
  have hbody (body : Text) : ((units "&#" ++ body ++ units ";").drop 2).dropLast = body :=
    List.dropLast_concat
  have hdecode : decode? t = some value ↔
      t = units "&#" ++ (t.drop 2).dropLast ++ units ";" ∧
        ∃ n, number? ((t.drop 2).dropLast) = some n ∧ isScalar n ∧ value = unitsOfCodePoint n := by
    rw [decode?, ← delimited_iff]
    split_ifs with h
    · rw [and_iff_right h]
      cases number? ((t.drop 2).dropLast) with
      | none => simp
      | some n =>
          simp only [Option.some.injEq, exists_eq_left']
          split_ifs with hn
          · rw [Option.some.injEq, and_iff_right hn, eq_comm]
          · exact iff_of_false not_false fun hread => hn hread.1
    · exact iff_of_false not_false fun hread => h hread.1
  rw [hdecode]
  constructor
  · rintro ⟨ht, n, hread, hn⟩
    exact ⟨_, n, ht, (number?_eq_some_iff _ n).1 hread, hn⟩
  · rintro ⟨body, n, rfl, hnumeral, hn⟩
    rw [hbody]
    exact ⟨rfl, n, (number?_eq_some_iff body n).2 hnumeral, hn⟩

/-! ### Characters -/

theorem units_singleton (c : Char) : units (String.singleton c) = unitsOfCodePoint c.toNat := by
  simp [units]

theorem toNat_ofNat_of_isScalar {n : Nat} (h : isScalar n) : (Char.ofNat n).toNat = n := by
  have hvalid : n.isValidChar := by
    rw [isScalar_iff] at h
    unfold Nat.isValidChar
    omega
  rw [Char.ofNat, dif_pos hvalid]
  rfl

theorem isScalar_toNat (c : Char) : isScalar c.toNat := by
  have hvalid : c.toNat.isValidChar := c.valid
  rw [isScalar_iff]
  unfold Nat.isValidChar at hvalid
  omega

theorem lt_exactBound_of_isScalar {n : Nat} (h : isScalar n) : n < Whole.exactBound :=
  Nat.lt_of_le_of_lt ((isScalar_iff n).1 h).1 (by decide)

/-- It makes no difference to a character whether its number is kept to fifty-three bits: a number
with more of them is past the last character however it is rounded. -/
theorem isScalar_whole (n k : Nat) :
    Whole.ofNat n = .finite k ∧ isScalar k ↔ k = n ∧ isScalar n := by
  by_cases hsmall : n < Whole.exactBound
  case pos =>
    rw [Whole.ofNat_of_lt hsmall, Whole.finite.injEq, Nat.cast_inj]
    constructor
    all_goals
      rintro ⟨rfl, h⟩
      exact ⟨rfl, h⟩
  case neg =>
    refine iff_of_false ?_ fun h => hsmall (lt_exactBound_of_isScalar h.2)
    rintro ⟨hvalue, hk⟩
    rw [Whole.ofNat_eq] at hvalue
    split at hvalue
    case isFalse => cases hvalue
    case isTrue =>
      have hround : Whole.roundNat n = k := by exact_mod_cast Whole.finite.inj hvalue
      have hlarge := Whole.le_roundNat (Nat.le_of_not_lt hsmall)
      exact absurd (lt_exactBound_of_isScalar hk) (Nat.not_lt.2 (hround ▸ hlarge))

/-! ### Spellings -/

/-- The text of a numeric entity. -/
def spell (mark : Text) (digits : List Char) : Text :=
  units "&#" ++ (mark ++ digits.map unit) ++ units ";"

/-- The digits of a number in a base behind some zeros. -/
def padded (base zeros n : Nat) : List Char := List.replicate zeros '0' ++ Nat.toDigits base n

/-- The digits of a number are those of its values. -/
theorem exists_toDigits {base : Nat} (hbase : 1 < base) (n : Nat) :
    ∃ values : List Nat, values ≠ [] ∧ (∀ v ∈ values, v < base) ∧
      Nat.toDigits base n = values.map Nat.digitChar ∧ Nat.ofDigits base values.reverse = n := by
  induction n using Nat.strong_induction_on with
  | h n ih =>
      by_cases hsmall : n < base
      case pos =>
        refine ⟨[n], by simp, by simpa using hsmall, ?_, by simp⟩
        exact Nat.toDigits_of_lt_base hsmall
      case neg =>
        have hlarge : base ≤ n := Nat.le_of_not_lt hsmall
        have hless : n / base < n := Nat.div_lt_self (by omega) hbase
        obtain ⟨values, -, hvalues, hdigits, hvalue⟩ := ih (n / base) hless
        refine ⟨values ++ [n % base], by simp, ?_, ?_, ?_⟩
        · intro v hv
          rcases List.mem_append.1 hv with hv | hv
          · exact hvalues v hv
          · rw [List.mem_singleton.1 hv]
            exact Nat.mod_lt n (by omega)
        · rw [Nat.toDigits_of_base_le hbase hlarge, hdigits, List.map_append, List.map_singleton]
        · rw [List.reverse_append, List.reverse_singleton, List.singleton_append,
            Nat.ofDigits_cons, hvalue]
          exact Nat.mod_add_div n base

/-- The digits of a number, in a case that the table of digits has, write the number, with any
number of zeros in front. -/
theorem writes_padded {digits : List (Char × Nat)} {base : Nat} (hbase : 1 < base)
    {letter : Char → Char} (hdigits : ∀ v < base, (letter (Nat.digitChar v), v) ∈ digits)
    (zeros n : Nat) : Writes digits base (((padded base zeros n).map letter).map unit) n := by
  obtain ⟨values, hsome, hvalues, hwritten, hvalue⟩ := exists_toDigits hbase n
  have hpadded : padded base zeros n =
      (List.replicate zeros 0 ++ values).map Nat.digitChar := by
    rw [padded, hwritten, List.map_append, List.map_replicate]
    rfl
  refine ⟨(List.replicate zeros 0 ++ values).map fun v => (letter (Nat.digitChar v), v),
    by simp [hsome], ?_, ?_, ?_⟩
  · intro digit hdigit
    obtain ⟨v, hv, rfl⟩ := List.mem_map.1 hdigit
    refine hdigits v ?_
    rcases List.mem_append.1 hv with hzero | hv
    · rw [List.eq_of_mem_replicate hzero]
      omega
    · exact hvalues v hv
  · rw [hpadded, List.map_map, List.map_map, List.map_map]
    rfl
  · have hsnd : (Prod.snd ∘ fun v : Nat => (letter (Nat.digitChar v), v)) = id := rfl
    rw [List.map_map, hsnd, List.map_id, List.reverse_append, List.reverse_replicate,
      Nat.ofDigits_append_replicate_zero, hvalue]

/-- A text is decoded if and only if it holds a decimal or a hexadecimal number between a number
sign and a semicolon, and a character has that number; what it stands for is the character.  Every
character is decoded from its decimal and its hexadecimal number, with capital letters or small
ones and any number of zeros in front. -/
theorem decode?_exact :
    (∀ t value : Text, decode? t = some value ↔
      ∃ body n, t = units "&#" ++ body ++ units ";" ∧ Numeral body n ∧
        n ≤ 0x10FFFF ∧ ¬ (0xD800 ≤ n ∧ n ≤ 0xDFFF) ∧
        value = units (String.singleton (Char.ofNat n))) ∧
    ∀ (c : Char) (zeros : Nat),
      decode? (spell [] (padded 10 zeros c.toNat)) = some (units (String.singleton c)) ∧
      ∀ capitalMark capitals : Bool,
        decode? (spell [unit (if capitalMark then 'X' else 'x')]
          ((padded 16 zeros c.toNat).map fun d => if capitals then d.toUpper else d)) =
            some (units (String.singleton c)) := by
  refine ⟨fun t value => ?_, fun c zeros => ⟨?_, fun capitalMark capitals => ?_⟩⟩
  · rw [decode?_eq_some_iff]
    refine exists_congr fun body => exists_congr fun n => ?_
    constructor
    · rintro ⟨ht, hnumeral, hscalar, rfl⟩
      obtain ⟨hmost, hsurrogate⟩ := (isScalar_iff n).1 hscalar
      refine ⟨ht, hnumeral, hmost, hsurrogate, ?_⟩
      rw [units_singleton, toNat_ofNat_of_isScalar hscalar]
    · rintro ⟨ht, hnumeral, hmost, hsurrogate, rfl⟩
      have hscalar := (isScalar_iff n).2 ⟨hmost, hsurrogate⟩
      refine ⟨ht, hnumeral, hscalar, ?_⟩
      rw [units_singleton, toNat_ofNat_of_isScalar hscalar]
  · rw [units_singleton]
    refine (decode?_eq_some_iff ..).2 ⟨_, c.toNat, rfl, .decimal ?_, isScalar_toNat c, rfl⟩
    have hwrites : Writes decimalDigits 10 (((padded 10 zeros c.toNat).map id).map unit) c.toNat :=
      writes_padded (by decide) (by decide) zeros c.toNat
    rwa [List.map_id] at hwrites
  · rw [units_singleton]
    refine (decode?_eq_some_iff ..).2 ⟨_, c.toNat, rfl, .hexadecimal ?_ ?_, isScalar_toNat c, rfl⟩
    · cases capitalMark
      · exact .inl rfl
      · exact .inr rfl
    · refine writes_padded (by decide) ?_ zeros c.toNat
      cases capitals <;> decide

end DocMarkup.Entity
