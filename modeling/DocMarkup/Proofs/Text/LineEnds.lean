import Mathlib.Data.List.Infix
import DocMarkup.Attribute
import DocMarkup.Number.Read
import DocMarkup.Text.Lines
import DocMarkup.Text.Path

/-!
Line ends of two units.  A carriage return before every line feed is white space before white
space, so what looks at a text through predicates that take the two alike sees no difference.
-/

namespace DocMarkup

namespace Text

open CodeUnit

/-- The text with a carriage return before every line feed. -/
def crlf (t : Text) : Text :=
  t.flatMap fun u => if u = lineFeed then [carriageReturn, lineFeed] else [u]

/-- The offset in the text with carriage returns that belongs to an offset in the text. -/
def crlfOffset (t : Text) (offset : Nat) : Nat := (crlf (t.take offset)).length

variable {t : Text} {p : CodeUnit → Bool}

@[simp] theorem crlf_nil : crlf [] = [] := rfl

theorem crlf_lineFeed (t : Text) : crlf (lineFeed :: t) = carriageReturn :: lineFeed :: crlf t := rfl

theorem crlf_cons {u : CodeUnit} (h : u ≠ lineFeed) (t : Text) : crlf (u :: t) = u :: crlf t := by
  rw [crlf, List.flatMap_cons, if_neg h]
  rfl

@[simp]
theorem crlf_append (s t : Text) : crlf (s ++ t) = crlf s ++ crlf t := List.flatMap_append

theorem crlf_eq_self (h : lineFeed ∉ t) : crlf t = t := by
  induction t with
  | nil => rfl
  | cons u t ih =>
      rw [List.mem_cons, not_or] at h
      rw [crlf_cons (Ne.symm h.1), ih h.2]

@[simp]
theorem crlf_eq_nil : crlf t = [] ↔ t = [] := by
  refine ⟨fun h => ?_, fun h => by rw [h, crlf_nil]⟩
  cases t with
  | nil => rfl
  | cons u t =>
      by_cases hu : u = lineFeed
      · rw [hu, crlf_lineFeed] at h
        cases h
      · rw [crlf_cons hu] at h
        cases h

@[simp]
theorem isEmpty_crlf (t : Text) : (crlf t).isEmpty = t.isEmpty := by
  rw [Bool.eq_iff_iff, List.isEmpty_iff, List.isEmpty_iff, crlf_eq_nil]

theorem length_le_crlf (t : Text) : t.length ≤ (crlf t).length := by
  induction t with
  | nil => exact le_rfl
  | cons u t ih =>
      by_cases hu : u = lineFeed
      · rw [hu, crlf_lineFeed]
        simp only [List.length_cons]
        omega
      · rw [crlf_cons hu]
        exact Nat.succ_le_succ ih

/-- Carriage returns can be taken out again. -/
theorem crlf_injective : Function.Injective crlf := by
  intro s
  induction s with
  | nil => exact fun t h => (crlf_eq_nil.1 h.symm).symm
  | cons u s ih =>
      intro t h
      cases t with
      | nil => exact absurd (crlf_eq_nil.1 h) (List.cons_ne_nil _ _)
      | cons v t =>
          -- a carriage return of the text itself is never followed by the line feed of another
          have hfirst (w : CodeUnit) (r : Text) :
              (crlf (w :: r)).head? = some carriageReturn ∧
                  (crlf (w :: r))[1]? = some lineFeed ↔ w = lineFeed := by
            by_cases hw : w = lineFeed
            · rw [hw, crlf_lineFeed]
              simp
            · rw [crlf_cons hw]
              refine iff_of_false ?_ hw
              rintro ⟨-, hsecond⟩
              cases r with
              | nil => cases hsecond
              | cons x r =>
                  by_cases hx : x = lineFeed
                  · rw [hx, crlf_lineFeed] at hsecond
                    exact absurd (Option.some.inj hsecond) (by decide)
                  · rw [crlf_cons hx] at hsecond
                    exact hx (Option.some.inj hsecond)
          have hboth : u = lineFeed ↔ v = lineFeed := by rw [← hfirst u s, ← hfirst v t, h]
          by_cases hu : u = lineFeed
          · have hv := hboth.1 hu
            rw [hu, hv, crlf_lineFeed, crlf_lineFeed] at h
            rw [hu, hv, ih (List.cons.inj (List.cons.inj h).2).2]
          · rw [crlf_cons hu, crlf_cons (mt hboth.2 hu)] at h
            rw [(List.cons.inj h).1, ih (List.cons.inj h).2]

/-! ### Cutting -/

@[simp]
theorem take_crlf (t : Text) (n : Nat) : (crlf t).take (t.crlfOffset n) = crlf (t.take n) := by
  conv_lhs => rw [← List.take_append_drop n t, crlf_append]
  exact List.take_left' (by rw [List.take_append_drop, crlfOffset])

@[simp]
theorem drop_crlf (t : Text) (n : Nat) : (crlf t).drop (t.crlfOffset n) = crlf (t.drop n) := by
  conv_lhs => rw [← List.take_append_drop n t, crlf_append]
  exact List.drop_left' (by rw [List.take_append_drop, crlfOffset])

theorem crlfOffset_length (t : Text) : t.crlfOffset t.length = (crlf t).length := by
  rw [crlfOffset, List.take_length]

theorem crlfOffset_le (t : Text) (n : Nat) : t.crlfOffset n ≤ (crlf t).length := by
  rw [← crlfOffset_length, crlfOffset, crlfOffset, List.take_length]
  conv_rhs => rw [← List.take_append_drop n t, crlf_append, List.length_append]
  exact Nat.le_add_right _ _

/-- Offsets in two steps. -/
theorem crlfOffset_add (t : Text) (m n : Nat) :
    t.crlfOffset (m + n) = t.crlfOffset m + crlfOffset (t.drop m) n := by
  rw [crlfOffset, List.take_add, crlf_append, List.length_append]
  rfl

/-- Where there is no line feed, nothing moves. -/
theorem crlfOffset_eq_self {n : Nat} (h : lineFeed ∉ t.take n) (hn : n ≤ t.length) :
    t.crlfOffset n = n := by
  rw [crlfOffset, crlf_eq_self h, List.length_take_of_le hn]

/-! ### Predicates that take the two alike -/

theorem any_head?_crlf (h : p carriageReturn = p lineFeed) (t : Text) :
    (crlf t).head?.any p = t.head?.any p := by
  cases t with
  | nil => rfl
  | cons u t =>
      by_cases hu : u = lineFeed
      · rw [hu, crlf_lineFeed]
        exact h
      · rw [crlf_cons hu]
        rfl

theorem head?_crlf_eq {c : CodeUnit} (hfeed : c ≠ lineFeed) (hreturn : c ≠ carriageReturn)
    (t : Text) : ((crlf t).head? == some c) = (t.head? == some c) := by
  have hany := any_head?_crlf (p := (· == c)) (by
    rw [beq_eq_false_iff_ne.2 (Ne.symm hfeed), beq_eq_false_iff_ne.2 (Ne.symm hreturn)]) t
  cases h : (crlf t).head? <;> cases h' : t.head? <;> simp_all

theorem takeWhile_crlf (h : p carriageReturn = p lineFeed) (t : Text) :
    (crlf t).takeWhile p = crlf (t.takeWhile p) := by
  induction t with
  | nil => rfl
  | cons u t ih =>
      by_cases hu : u = lineFeed
      · rw [hu, crlf_lineFeed, List.takeWhile_cons, List.takeWhile_cons, List.takeWhile_cons, h]
        split
        · rw [crlf_lineFeed, ih]
        · rfl
      · rw [crlf_cons hu, List.takeWhile_cons, List.takeWhile_cons]
        split
        · rw [crlf_cons hu, ih]
        · rfl

theorem dropWhile_crlf (h : p carriageReturn = p lineFeed) (t : Text) :
    (crlf t).dropWhile p = crlf (t.dropWhile p) := by
  induction t with
  | nil => rfl
  | cons u t ih =>
      by_cases hu : u = lineFeed
      · rw [hu, crlf_lineFeed, List.dropWhile_cons, List.dropWhile_cons, List.dropWhile_cons, h]
        split
        · exact ih
        · rw [crlf_lineFeed]
      · rw [crlf_cons hu, List.dropWhile_cons, List.dropWhile_cons]
        split
        · exact ih
        · rw [crlf_cons hu]

theorem all_crlf (h : p carriageReturn = p lineFeed) (t : Text) : (crlf t).all p = t.all p := by
  induction t with
  | nil => rfl
  | cons u t ih =>
      by_cases hu : u = lineFeed
      · rw [hu, crlf_lineFeed, List.all_cons, List.all_cons, List.all_cons, h, ih]
        cases p lineFeed <;> rfl
      · rw [crlf_cons hu, List.all_cons, List.all_cons, ih]

/-- What ends before the first line feed is the same text. -/
theorem takeWhile_crlf_eq (hreturn : p carriageReturn = false) (hfeed : p lineFeed = false)
    (t : Text) : (crlf t).takeWhile p = t.takeWhile p := by
  rw [takeWhile_crlf (hreturn.trans hfeed.symm)]
  refine crlf_eq_self fun hmem => ?_
  have hp := List.all_eq_true.1 (List.all_takeWhile (l := t) (p := p)) _ hmem
  rw [hp] at hfeed
  cases hfeed

theorem dropWhileRight_crlf (h : p carriageReturn = p lineFeed) (t : Text) :
    dropWhileRight p (crlf t) = crlf (dropWhileRight p t) := by
  induction t using List.reverseRecOn with
  | nil => rfl
  | append_singleton t u ih =>
      have hsnoc (s : Text) (v : CodeUnit) :
          dropWhileRight p (s ++ [v]) = if p v then dropWhileRight p s else s ++ [v] := by
        rw [dropWhileRight, List.reverse_append, List.reverse_singleton, List.singleton_append,
          List.dropWhile_cons]
        split
        · rfl
        · rw [List.reverse_cons, List.reverse_reverse]
      by_cases hu : u = lineFeed
      · have hcrlf : crlf (t ++ [lineFeed]) = crlf t ++ [carriageReturn] ++ [lineFeed] := by
          rw [crlf_append, List.append_assoc]
          rfl
        rw [hu, hcrlf, hsnoc, hsnoc, hsnoc, h, ih]
        split
        · rfl
        · rw [hcrlf]
      · have hcrlf : crlf (t ++ [u]) = crlf t ++ [u] := by
          rw [crlf_append, crlf_cons hu, crlf_nil]
        rw [hcrlf, hsnoc, hsnoc, ih]
        split
        · rfl
        · rw [hcrlf]

theorem trim_crlf (t : Text) : trim (crlf t) = crlf (trim t) := by
  rw [trim, dropWhile_crlf (by decide), dropWhileRight_crlf (by decide)]
  rfl

/-! ### Finding -/

/-- A text without line ends. -/
def IsUnbroken (t : Text) : Prop := ∀ u ∈ t, isLineBreak u = false

instance (t : Text) : Decidable t.IsUnbroken := List.decidableBAll _ t

theorem isUnbroken_cons {u : CodeUnit} :
    IsUnbroken (u :: t) ↔ isLineBreak u = false ∧ IsUnbroken t :=
  List.forall_mem_cons

theorem ne_of_not_isLineBreak {u : CodeUnit} (h : isLineBreak u = false) :
    u ≠ lineFeed ∧ u ≠ carriageReturn := by
  constructor <;> (rintro rfl; exact absurd h (by decide))

theorem isPrefixOf_crlf {needle : Text} (h : needle.IsUnbroken) (t : Text) :
    needle.isPrefixOf (crlf t) = needle.isPrefixOf t := by
  induction needle generalizing t with
  | nil => rw [List.isPrefixOf_nil_left, List.isPrefixOf_nil_left]
  | cons c needle ih =>
      obtain ⟨hc, hneedle⟩ := isUnbroken_cons.1 h
      obtain ⟨hfeed, hreturn⟩ := ne_of_not_isLineBreak hc
      cases t with
      | nil => rfl
      | cons u t =>
          by_cases hu : u = lineFeed
          · rw [hu, crlf_lineFeed, List.isPrefixOf_cons_cons, List.isPrefixOf_cons_cons,
              beq_eq_false_iff_ne.2 hfeed, beq_eq_false_iff_ne.2 hreturn]
            rfl
          · rw [crlf_cons hu, List.isPrefixOf_cons_cons, List.isPrefixOf_cons_cons, ih hneedle]

theorem crlfOffset_succ {u : CodeUnit} (t : Text) (n : Nat) :
    crlfOffset (u :: t) (n + 1) = (crlf [u]).length + t.crlfOffset n := by
  rw [crlfOffset, List.take_succ_cons, ← List.singleton_append, crlf_append, List.length_append]
  rfl

theorem indexOf?_crlf {needle : Text} (h : needle.IsUnbroken) (hne : needle ≠ []) (t : Text) :
    indexOf? needle (crlf t) = (indexOf? needle t).map t.crlfOffset := by
  obtain ⟨c, needle, rfl⟩ := List.exists_cons_of_ne_nil hne
  obtain ⟨hfeed, hreturn⟩ := ne_of_not_isLineBreak (isUnbroken_cons.1 h).1
  have hskip {v : CodeUnit} (hv : c ≠ v) (rest : Text) :
      indexOf? (c :: needle) (v :: rest) = (indexOf? (c :: needle) rest).map (· + 1) := by
    rw [indexOf?, List.isPrefixOf_cons_cons, beq_eq_false_iff_ne.2 hv]
    rfl
  induction t with
  | nil => rfl
  | cons u t ih =>
      by_cases hu : u = lineFeed
      · rw [hu, crlf_lineFeed, hskip hreturn, hskip hfeed, hskip hfeed, ih]
        simp only [Option.map_map]
        refine congrArg (Option.map · _) (funext fun n => ?_)
        show crlfOffset t n + 1 + 1 = crlfOffset (lineFeed :: t) (n + 1)
        rw [crlfOffset_succ]
        exact Nat.add_comm _ 2
      · rw [crlf_cons hu, indexOf?, indexOf?, ← crlf_cons hu, isPrefixOf_crlf h, ih]
        split
        · rfl
        · simp only [Option.map_map]
          refine congrArg (Option.map · _) (funext fun n => ?_)
          show crlfOffset t n + 1 = crlfOffset (u :: t) (n + 1)
          rw [crlfOffset_succ, crlf_cons hu]
          exact Nat.add_comm _ 1

theorem lineFeed_mem_crlf : lineFeed ∈ crlf t ↔ lineFeed ∈ t := by
  induction t with
  | nil => rfl
  | cons u t ih =>
      by_cases hu : u = lineFeed
      · rw [hu, crlf_lineFeed]
        simp
      · rw [crlf_cons hu, List.mem_cons, List.mem_cons, ih]

/-- A unit is found before an offset if it is there. -/
theorem any_indexOf?_lt (c : CodeUnit) (t : Text) (n : Nat) :
    (indexOf? [c] t).any (· < n) ↔ c ∈ t.take n := by
  induction t generalizing n with
  | nil => simp [indexOf?]
  | cons u t ih =>
      rw [indexOf?, List.isPrefixOf_cons_cons, List.isPrefixOf_nil_left, Bool.and_true]
      cases n with
      | zero => cases indexOf? [c] t <;> (split <;> simp)
      | succ n =>
          rw [List.take_succ_cons, List.mem_cons, ← ih]
          split
          · next hu => simp [eq_of_beq hu]
          · next hu =>
            have hne : ¬ c = u := fun heq => hu (beq_iff_eq.2 heq)
            rw [or_iff_right hne]
            cases indexOf? [c] t <;> simp

/-! ### Blocks of lines -/

theorem lastIndexOf?_crlf (t : Text) :
    lastIndexOf? lineFeed (crlf t) = (lastIndexOf? lineFeed t).map (t.crlfOffset · + 1) := by
  have hcons (v : CodeUnit) (rest : Text) : lastIndexOf? lineFeed (v :: rest) =
      ((lastIndexOf? lineFeed rest).map (· + 1)).or (if v == lineFeed then some 0 else none) := by
    rw [lastIndexOf?]
    cases lastIndexOf? lineFeed rest <;> rfl
  induction t with
  | nil => rfl
  | cons u t ih =>
      by_cases hu : u = lineFeed
      · rw [hu, crlf_lineFeed, hcons, hcons, hcons, ih]
        cases lastIndexOf? lineFeed t with
        | none => rfl
        | some n =>
            show some (crlfOffset t n + 1 + 1 + 1) = some (crlfOffset (lineFeed :: t) (n + 1) + 1)
            rw [crlfOffset_succ, show (crlf [lineFeed]).length = 2 from rfl]
            congr 1
            omega
      · rw [crlf_cons hu, hcons, hcons, ih, if_neg (by simpa using hu)]
        cases lastIndexOf? lineFeed t with
        | none => rfl
        | some n =>
            show some (crlfOffset t n + 1 + 1) = some (crlfOffset (u :: t) (n + 1) + 1)
            rw [crlfOffset_succ, crlf_cons hu, Nat.add_comm]
            rfl

theorem drop_of_lastIndexOf? {u : CodeUnit} {n : Nat} (h : lastIndexOf? u t = some n) :
    t.drop n = u :: t.drop (n + 1) := by
  induction t generalizing n with
  | nil => cases h
  | cons v t ih =>
      rw [lastIndexOf?] at h
      cases hrest : lastIndexOf? u t with
      | some k =>
          rw [hrest] at h
          obtain rfl := Option.some.inj h
          exact ih hrest
      | none =>
          rw [hrest] at h
          obtain ⟨hv, hn⟩ := Option.ite_some_none_eq_some.1 h
          rw [← hn, eq_of_beq hv]
          rfl

/-- A block keeps its lines.  A carriage return in the text itself would be taken for a part of the
line end that the block begins with. -/
theorem trimBlock_crlf (h : carriageReturn ∉ t) : trimBlock (crlf t) = crlf (trimBlock t) := by
  -- the cut behind the last line feed, the same in all three cases
  have hcut {s : Text} {n : Nat} (hlast : lastIndexOf? lineFeed s = some n) :
      (if ((crlf s).drop (s.crlfOffset n + 1 + 1)).all isBlank then
        (crlf s).take (s.crlfOffset n + 1 + 1) else crlf s) =
      crlf (if (s.drop (n + 1)).all isBlank then s.take (n + 1) else s) := by
    have hnext : s.crlfOffset n + 1 + 1 = s.crlfOffset (n + 1) := by
      rw [crlfOffset_add, drop_of_lastIndexOf? hlast]
      rfl
    rw [hnext, drop_crlf, take_crlf, all_crlf (by decide), ← apply_ite crlf]
  unfold trimBlock
  rw [dropWhile_crlf (by decide)]
  cases hbody : t.dropWhile isHorizontalSpace with
  | nil =>
      dsimp only [crlf_nil]
      rw [lastIndexOf?_crlf]
      cases hlast : lastIndexOf? lineFeed t with
      | none => rfl
      | some n => exact hcut hlast
  | cons u rest =>
      by_cases hu : u = lineFeed
      · rw [hu, crlf_lineFeed]
        have hreturn : (carriageReturn == lineFeed) = false := by decide
        simp only [hreturn, beq_self_eq_true, List.head?_cons, Bool.and_self, if_true,
          Bool.false_eq_true, if_false, List.drop_succ_cons, List.drop_zero]
        rw [lastIndexOf?_crlf]
        cases hlast : lastIndexOf? lineFeed rest with
        | none => rfl
        | some n => exact hcut hlast
      · have hmem : u ∈ t := by
          have hbegins : u ∈ t.dropWhile isHorizontalSpace := hbody ▸ List.mem_cons_self
          exact (List.dropWhile_suffix _).subset hbegins
        have hreturn : (u == carriageReturn) = false :=
          beq_eq_false_iff_ne.2 fun heq => h (heq ▸ hmem)
        have hfeed : (u == lineFeed) = false := beq_eq_false_iff_ne.2 hu
        rw [crlf_cons hu]
        simp only [hfeed, hreturn, Bool.false_and, Bool.false_eq_true, if_false]
        rw [lastIndexOf?_crlf]
        cases hlast : lastIndexOf? lineFeed t with
        | none => rfl
        | some n => exact hcut hlast

/-! ### Without carriage returns -/

/-- The text without the carriage returns before its line feeds. -/
def dropReturns : Text → Text
  | [] => []
  | u :: t =>
    let rest := dropReturns t
    if u == carriageReturn && rest.head? == some lineFeed then rest else u :: rest

theorem dropReturns_cons {u : CodeUnit} (h : u ≠ carriageReturn) (t : Text) :
    dropReturns (u :: t) = u :: dropReturns t := by
  rw [dropReturns, beq_false_of_ne h]
  rfl

/-- It makes no difference whether carriage returns were added before. -/
@[simp]
theorem dropReturns_crlf (t : Text) : dropReturns (crlf t) = dropReturns t := by
  induction t with
  | nil => rfl
  | cons u t ih =>
      by_cases hu : u = lineFeed
      · rw [hu, crlf_lineFeed, dropReturns, dropReturns_cons (by decide), ih,
          dropReturns_cons (by decide)]
        rfl
      · rw [crlf_cons hu, dropReturns, ih, dropReturns]

/-! ### Numbers and addresses -/

/-- A change that white space and digits are not touched by is not seen where a number is read. -/
theorem read?_congr {f : Text → Text} (hnil : f [] = [])
    (hcons : ∀ {u : CodeUnit}, isBlank u = false → ∀ t, f (u :: t) = u :: f t)
    (hblanks : ∀ t, (f t).dropWhile isBlank = f (t.dropWhile isBlank))
    (hdigits : ∀ t, (f t).takeWhile isDigit = t.takeWhile isDigit) (t : Text) :
    Whole.read? (f t) = Whole.read? t := by
  unfold Whole.read?
  rw [hblanks]
  cases hbody : t.dropWhile isBlank with
  | nil => rw [hnil]
  | cons u rest =>
      have hu : isBlank u = false := by
        have hne : t.dropWhile isBlank ≠ [] := by
          rw [hbody]
          exact List.cons_ne_nil _ _
        have hhead := List.head_dropWhile_not isBlank hne
        simpa only [hbody, List.head_cons] using hhead
      have hwhole := hdigits (u :: rest)
      rw [hcons hu] at hwhole ⊢
      dsimp only
      by_cases hminus : (u == unit '-') = true
      · rw [if_pos hminus, if_pos hminus, hdigits]
      · rw [if_neg hminus, if_neg hminus]
        by_cases hplus : (u == unit '+') = true
        · rw [if_pos hplus, if_pos hplus, hdigits]
        · rw [if_neg hplus, if_neg hplus, hwhole]

theorem ne_of_isBlank {u c : CodeUnit} (hu : isBlank u = false) (hc : isBlank c = true) : u ≠ c := by
  rintro rfl
  rw [hc] at hu
  cases hu

@[simp]
theorem read?_crlf (t : Text) : Whole.read? (crlf t) = Whole.read? t :=
  read?_congr rfl (fun hu => crlf_cons (ne_of_isBlank hu rfl)) (dropWhile_crlf (by decide))
    (takeWhile_crlf_eq (by decide) (by decide)) t

@[simp]
theorem read?_dropReturns (t : Text) : Whole.read? (dropReturns t) = Whole.read? t := by
  refine read?_congr rfl (fun hu => dropReturns_cons (ne_of_isBlank hu rfl)) (fun t => ?_)
    (fun t => ?_) t
  · induction t with
    | nil => rfl
    | cons u t ih =>
        cases hu : isBlank u with
        | true =>
            rw [List.dropWhile_cons_of_pos hu, ← ih, dropReturns]
            split
            · rfl
            · exact List.dropWhile_cons_of_pos hu
        | false =>
            rw [dropReturns_cons (ne_of_isBlank hu rfl), List.dropWhile_cons_of_neg (by simp [hu]),
              List.dropWhile_cons_of_neg (by simp [hu]), dropReturns_cons (ne_of_isBlank hu rfl)]
  · induction t with
    | nil => rfl
    | cons u t ih =>
        cases hu : isDigit u with
        | true =>
            have hne : u ≠ carriageReturn := by
              rintro rfl
              cases hu
            rw [dropReturns_cons hne, List.takeWhile_cons_of_pos hu, List.takeWhile_cons_of_pos hu,
              ih]
        | false =>
            rw [List.takeWhile_cons_of_neg (by simp [hu]), dropReturns]
            split
            · next hreturn =>
              obtain ⟨rest, hrest⟩ :=
                List.head?_eq_some_iff.1 (eq_of_beq (Bool.and_eq_true_iff.1 hreturn).2)
              rw [hrest]
              rfl
            · exact List.takeWhile_cons_of_neg (by simp [hu])

@[simp]
theorem isAbsolute_crlf (t : Text) : Path.isAbsolute (crlf t) = Path.isAbsolute t := by
  cases t with
  | nil => rfl
  | cons u t =>
      by_cases hu : u = lineFeed
      · rw [hu, crlf_lineFeed]
        rfl
      · rw [crlf_cons hu, Path.isAbsolute, Path.isAbsolute, dropWhile_crlf (by decide),
          head?_crlf_eq (by decide) (by decide)]

end Text

/-! ### Attributes -/

namespace Attributes

open Text (crlf dropReturns)

/-- Attributes with their values changed. -/
def mapValues (f : Text → Text) (attributes : Attributes) : Attributes :=
  attributes.map fun a => { a with value := f a.value }

variable {f g : Text → Text} (attributes : Attributes)

@[simp]
theorem get?_mapValues (name : Text) :
    (attributes.mapValues f).get? name = (attributes.get? name).map f := by
  rw [get?, get?, mapValues, List.find?_map, Option.map_map, Option.map_map]
  rfl

@[simp]
theorem without_mapValues (name : Text) :
    (attributes.mapValues f).without name = (attributes.without name).mapValues f :=
  List.filter_map ..

theorem mapValues_mapValues :
    (attributes.mapValues g).mapValues f = attributes.mapValues (f ∘ g) := List.map_map ..

@[simp]
theorem dropReturns_mapValues :
    (attributes.mapValues crlf).mapValues dropReturns = attributes.mapValues dropReturns := by
  rw [mapValues_mapValues]
  exact congrArg attributes.mapValues (funext Text.dropReturns_crlf)

/-- A number in an attribute is read past the white space before it. -/
theorem read?_mapValues (hread : ∀ t, Whole.read? (f t) = Whole.read? t) (name : Text) :
    Whole.read? (((attributes.mapValues f).get? name).getD []) =
      Whole.read? ((attributes.get? name).getD []) := by
  rw [get?_mapValues]
  cases attributes.get? name with
  | none => rfl
  | some value => exact hread value

end Attributes

end DocMarkup
