import DocMarkup.IncludeBuffer
import DocMarkup.Proofs.Scanner.Tiling

/-!
An included text is read once, in order and in whole lines.  Whatever operators are applied to a
buffer one after the other, the place the next one starts at only moves forward, from the start of
one line to the start of another or to the end of the text, and what an operator shows lies between
the place it started at and the place it stopped at.
-/

namespace DocMarkup

namespace Text

theorem isInfix_of_occursIn {needle t : Text} (h : occursIn needle t = true) : needle <:+: t := by
  obtain ⟨i, hi⟩ := Option.isSome_iff_exists.1 h
  exact (of_indexOf?_eq_some hi).1.isInfix.trans (List.drop_suffix i t).isInfix

theorem not_isInfix_of_occursIn {needle t : Text} (h : ¬ occursIn needle t = true) :
    ¬ needle <:+: t := by
  apply not_isInfix_of_indexOf?_eq_none
  rwa [occursIn, Option.not_isSome_iff_eq_none] at h

end Text

namespace IncludeBuffer

variable {t pattern : Text} {o a b position start lineStart : Nat} {seen : Bool}

/-! ### Lines of a text -/

/-- The beginning of the text, and every place behind a line feed. -/
def IsLineStart (t : Text) (i : Nat) : Prop :=
  i = 0 ∨ ∃ j, i = j + 1 ∧ t[j]? = some CodeUnit.lineFeed

/-- Where an operator may start: the start of a line or the end of the text. -/
def IsStop (t : Text) (i : Nat) : Prop := i = t.length ∨ IsLineStart t i

/-- The end of the text, and every place before a line feed. -/
def IsLineEnd (t : Text) (i : Nat) : Prop :=
  i = t.length ∨ t[i]? = some CodeUnit.lineFeed

/-- From `a` to `b` the text has one line, without its line feed. -/
structure IsLine (t : Text) (a b : Nat) : Prop where
  start : IsLineStart t a
  stop : IsLineEnd t b
  le : a ≤ b
  within : ∀ i, a ≤ i → i < b → t[i]? ≠ some CodeUnit.lineFeed

/-- Something other than blanks stands between two places. -/
def HasInk (t : Text) (a b : Nat) : Prop :=
  ∃ i u, a ≤ i ∧ i < b ∧ t[i]? = some u ∧ CodeUnit.isBlank u = false

/-- From `o` on, the blank lines before the first line with ink are passed over unless the text ends
with them; every other line is looked at. -/
structure LooksAt (t : Text) (o a b : Nat) : Prop where
  more : o < t.length
  le : o ≤ a
  line : IsLine t a b
  inked : HasInk t o b ∨ b = t.length

theorem IsLineEnd.le_length (h : IsLineEnd t b) : b ≤ t.length := by
  obtain rfl | h := h
  · exact Nat.le_refl _
  · exact (List.getElem?_eq_some_iff.1 h).1.le

/-- Behind the end of a line a line starts, unless the text is over. -/
theorem IsLineEnd.lineStart_succ (h : IsLineEnd t b) (hb : b + 1 ≤ t.length) :
    IsLineStart t (b + 1) := by
  obtain rfl | h := h
  · omega
  · exact .inr ⟨b, rfl, h⟩

/-- A line that starts within another ends with it, so one that starts later is behind its end. -/
theorem IsLine.lt_of_lt {a' b' : Nat} (h : IsLine t a b) (h' : IsLine t a' b') (hlt : a < a') :
    b < a' := by
  obtain rfl | ⟨j, rfl, hj⟩ := h'.start
  · omega
  · by_contra hle
    exact h.within j (by omega) (by omega) hj

theorem IsLine.stop_le {b' : Nat} (h : IsLine t a b) (h' : IsLine t a b') : b ≤ b' := by
  by_contra hlt
  obtain rfl | hfeed := h'.stop
  · exact hlt h.stop.le_length
  · exact h.within b' h'.le (by omega) hfeed

theorem IsLine.stop_unique {b' : Nat} (h : IsLine t a b) (h' : IsLine t a b') : b = b' :=
  Nat.le_antisymm (h.stop_le h') (h'.stop_le h)

theorem HasInk.mono {a' b' : Nat} (h : HasInk t a b) (ha : a' ≤ a) (hb : b ≤ b') :
    HasInk t a' b' := by
  obtain ⟨i, u, hai, hib, hu, hink⟩ := h
  exact ⟨i, u, by omega, by omega, hu, hink⟩

theorem hasInk_succ {u : CodeUnit} (ha : a ≤ b) (hu : t[b]? = some u) :
    HasInk t a (b + 1) ↔ HasInk t a b ∨ CodeUnit.isBlank u = false := by
  constructor
  · rintro ⟨i, v, hai, hib, hv, hink⟩
    obtain hlt | rfl := Nat.lt_or_eq_of_le (Nat.le_of_lt_succ hib)
    · exact .inl ⟨i, v, hai, hlt, hv, hink⟩
    · rw [hu, Option.some.injEq] at hv
      exact .inr (hv ▸ hink)
  · rintro (h | hink)
    · exact h.mono (Nat.le_refl _) (Nat.le_succ _)
    · exact ⟨b, u, ha, Nat.lt_succ_self b, hu, hink⟩

/-! ### The next line with ink -/

/-- What is known while a line is looked for from `o` on: `start` is where the line at `position`
starts, and `seen` tells whether there is ink up to `position`. -/
structure Looking (t : Text) (o position start : Nat) (seen : Bool) : Prop where
  le_start : o ≤ start
  start_le : start ≤ position
  le_length : position ≤ t.length
  isStart : IsLineStart t start
  within : ∀ i, start ≤ i → i < position → t[i]? ≠ some CodeUnit.lineFeed
  seen_iff : seen = true ↔ HasInk t o position

/-- What the look for a line has come to: the first line at or behind `start` that is looked at. -/
structure Looked (t : Text) (o start : Nat) (line : Nat × Nat × Bool) : Prop where
  le_start : start ≤ line.1
  isLine : IsLine t line.1 line.2.1
  seen_iff : line.2.2 = true ↔ HasInk t o line.2.1
  inked : HasInk t o line.2.1 ∨ line.2.1 = t.length
  first : ∀ a b, start ≤ a → LooksAt t o a b → line.1 ≤ a

theorem Looking.lineFrom (h : Looking t o position start seen) :
    Looked t o start (lineFrom position start seen (t.drop position)) := by
  generalize hrest : t.drop position = rest
  induction rest generalizing position start seen with
  | nil =>
      have hlength : position = t.length :=
        Nat.le_antisymm h.le_length (List.drop_eq_nil_iff.1 hrest)
      exact ⟨Nat.le_refl _, ⟨h.isStart, .inl hlength, h.start_le, h.within⟩, h.seen_iff,
        .inr hlength, fun _ _ ha _ => ha⟩
  | cons u rest ih =>
      have hu : t[position]? = some u := by
        rw [← List.head?_drop, hrest, List.head?_cons]
      have hmore : position < t.length := (List.getElem?_eq_some_iff.1 hu).1
      have hrest' : t.drop (position + 1) = rest := by
        rw [← List.drop_drop, hrest, List.drop_succ_cons, List.drop_zero]
      have hle := Nat.le_trans h.le_start h.start_le
      have hink := hasInk_succ hle hu
      rw [IncludeBuffer.lineFrom]
      split_ifs with hfeed hseen
      · -- The line ends here and there is ink before its end.
        rw [beq_iff_eq] at hfeed
        exact ⟨Nat.le_refl _, ⟨h.isStart, .inr (hfeed ▸ hu), h.start_le, h.within⟩, h.seen_iff,
          .inl (h.seen_iff.1 hseen), fun _ _ ha _ => ha⟩
      · -- The line is blank, and so is all before it.
        rw [beq_iff_eq] at hfeed
        subst hfeed
        have hblank : ¬ HasInk t o position := fun hi => hseen (h.seen_iff.2 hi)
        have hnext : Looking t o (position + 1) (position + 1) false := by
          refine ⟨by omega, Nat.le_refl _, hmore, .inr ⟨position, rfl, hu⟩, ?_, ?_⟩
          · intro i h1 h2
            omega
          · rw [hink]
            exact ⟨nofun, fun hi => absurd hi (not_or.2 ⟨hblank, by decide⟩)⟩
        have hfound := ih hnext hrest'
        refine ⟨by have := hfound.le_start; have := h.start_le; omega, hfound.isLine,
          hfound.seen_iff, hfound.inked, ?_⟩
        intro a b ha hlooks
        refine hfound.first a b ?_ hlooks
        by_contra hlt
        -- A line that starts before the line feed has ended by there, without ink.
        have hb : b ≤ position := by
          by_contra hb
          exact hlooks.line.within position (by omega) (by omega) hu
        obtain hi | rfl := hlooks.inked
        · exact hblank (hi.mono (Nat.le_refl _) hb)
        · omega
      · have hnext : Looking t o (position + 1) start (seen || !CodeUnit.isBlank u) := by
          refine ⟨h.le_start, by have := h.start_le; omega, hmore, h.isStart, ?_, ?_⟩
          · intro i h1 h2
            obtain hlt | rfl := Nat.lt_or_eq_of_le (Nat.le_of_lt_succ h2)
            · exact h.within i h1 hlt
            · rw [hu]
              simpa using hfeed
          · rw [hink, ← h.seen_iff, Bool.or_eq_true, Bool.not_eq_true']
        exact ih hnext hrest'

/-- A look that begins at the start of a line. -/
theorem Looking.begun (ho : o ≤ position) (hle : position ≤ t.length)
    (hstart : IsLineStart t position) (hseen : seen = true ↔ HasInk t o position) :
    Looking t o position position seen :=
  ⟨ho, Nat.le_refl _, hle, hstart, fun i h1 h2 => by omega, hseen⟩

/-! ### The next line with the pattern -/

/-- What a search from `position` on has come to, for an operator that started at `o`. -/
structure Searched (t pattern : Text) (o position lineStart : Nat) (s : Search) : Prop where
  le_lineStart : lineStart ≤ s.lineStart
  lineStart_le : s.lineStart ≤ t.length
  isStop : IsStop t s.lineStart
  of_some : ∀ a b, s.found = some (a, b) →
    position ≤ a ∧ s.position = b ∧ IsLine t a b ∧ (HasInk t o b ∨ b = t.length) ∧
      pattern <:+: slice t a b
  of_none : s.found = none → t.length ≤ s.position ∧ (position < t.length → pattern ≠ []) ∧
    ∀ a b, position ≤ a → a < t.length → LooksAt t o a b → ¬ pattern <:+: slice t a b

theorem searched (hpos : o ≤ position) (hstart : position < t.length → IsLineStart t position)
    (hseen : seen = true ↔ HasInk t o position) (hline : lineStart ≤ position)
    (hlength : lineStart ≤ t.length) (hls : IsStop t lineStart) :
    Searched t pattern o position lineStart (search t pattern position lineStart seen) := by
  fun_induction search t pattern position lineStart seen with
  | case1 position lineStart seen hmore line hmatch =>
      have hlooked : Looked t o position line :=
        (Looking.begun hpos hmore.le (hstart hmore) hseen).lineFrom
      have hstop := hlooked.isLine.stop.le_length
      have hle := hlooked.isLine.le
      refine ⟨Nat.le_trans hline hlooked.le_start, Nat.le_trans hle hstop,
        .inr hlooked.isLine.start, ?_, nofun⟩
      intro a b hab
      cases hab
      exact ⟨hlooked.le_start, rfl, hlooked.isLine, hlooked.inked, Text.isInfix_of_occursIn hmatch⟩
  | case2 position lineStart seen hmore line hmatch _ ih =>
      have hlooked : Looked t o position line :=
        (Looking.begun hpos hmore.le (hstart hmore) hseen).lineFrom
      have hstop := hlooked.isLine.stop.le_length
      have hle := hlooked.isLine.le
      have hge := hlooked.le_start
      have hseen' : line.2.2 = true ↔ HasInk t o (line.2.1 + 1) := by
        rw [hlooked.seen_iff]
        refine ⟨fun hi => hi.mono (Nat.le_refl _) (Nat.le_succ _), ?_⟩
        rintro ⟨i, u, h1, h2, hu, hink⟩
        refine ⟨i, u, h1, ?_, hu, hink⟩
        -- The unit behind the line is its line feed, which is no ink.
        obtain hlt | rfl := Nat.lt_or_eq_of_le (Nat.le_of_lt_succ h2)
        · exact hlt
        · obtain hend | hfeed := hlooked.isLine.stop
          · have := (List.getElem?_eq_some_iff.1 hu).1
            exact absurd this (by rw [hend]; exact Nat.lt_irrefl _)
          · rw [hfeed, Option.some.injEq] at hu
            exact absurd (hu ▸ hink) (by decide)
      have hrest := ih (by omega) (fun h => hlooked.isLine.stop.lineStart_succ h.le) hseen'
        (by omega) (by omega) (.inr hlooked.isLine.start)
      refine ⟨by have := hrest.le_lineStart; omega, hrest.lineStart_le, hrest.isStop, ?_, ?_⟩
      · intro a b hab
        obtain ⟨ha, hfound⟩ := hrest.of_some a b hab
        exact ⟨by omega, hfound⟩
      · intro hnone
        obtain ⟨hend, -, hlater⟩ := hrest.of_none hnone
        have hhere := Text.not_isInfix_of_occursIn hmatch
        refine ⟨hend, fun _ hnil => hhere (hnil ▸ List.nil_infix), ?_⟩
        intro a b ha hmoreA hlooks
        obtain heq | hlt := Nat.eq_or_lt_of_le (hlooked.first a b ha hlooks)
        · obtain rfl : line.2.1 = b := by
            have hline' : IsLine t a line.2.1 := heq ▸ hlooked.isLine
            exact hline'.stop_unique hlooks.line
          exact heq ▸ hhere
        · exact hlater a b (hlooked.isLine.lt_of_lt hlooks.line hlt) hmoreA hlooks
  | case3 position lineStart seen hmore =>
      refine ⟨Nat.le_refl _, hlength, hls, nofun, fun _ => ⟨Nat.le_of_not_lt hmore, ?_, ?_⟩⟩
      · exact fun hlt => absurd hlt hmore
      · intro a b ha hmoreA
        omega

/-- From `o` on, a line that is looked at contains the pattern. -/
def Matches (t pattern : Text) (o a b : Nat) : Prop :=
  LooksAt t o a b ∧ pattern <:+: slice t a b

/-- Where a search begins nothing is seen. -/
theorem seen_begun : false = true ↔ HasInk t o o := by
  constructor
  · exact nofun
  · rintro ⟨i, _, h1, h2, _⟩
    omega

theorem searched_from (ho : o ≤ t.length) (hstop : IsStop t o) :
    Searched t pattern o o o (search t pattern o o false) := by
  refine searched (Nat.le_refl o) ?_ seen_begun (Nat.le_refl o) ho hstop
  intro hlt
  exact hstop.resolve_left hlt.ne

/-- A search finds a match, or there is none. -/
theorem search_cases (ho : o ≤ t.length) (hstop : IsStop t o) :
    (∃ a b, Matches t pattern o a b ∧ (search t pattern o o false).found = some (a, b) ∧
      (search t pattern o o false).position = b) ∨
    ((∀ a b, ¬ Matches t pattern o a b) ∧ (search t pattern o o false).found = none ∧
      t.length ≤ (search t pattern o o false).position) := by
  have hs : Searched t pattern o o o (search t pattern o o false) := searched_from ho hstop
  cases hfound : (search t pattern o o false).found with
  | some line =>
      left
      obtain ⟨hle, hpos, hline, hink, hpattern⟩ := hs.of_some line.1 line.2 hfound
      have hmore : o < t.length := by
        by_contra hend
        rw [search, dif_neg hend] at hfound
        cases hfound
      exact ⟨line.1, line.2, ⟨⟨hmore, hle, hline, hink⟩, hpattern⟩, rfl, hpos⟩
  | none =>
      right
      obtain ⟨hend, hpattern, hnone⟩ := hs.of_none hfound
      refine ⟨?_, rfl, hend⟩
      rintro a b ⟨hlooks, hmatch⟩
      obtain hlt | hge := Nat.lt_or_ge a t.length
      · exact hnone a b hlooks.le hlt hlooks hmatch
      · -- Behind the last unit there is no line that contains anything.
        rw [slice, List.drop_eq_nil_of_le hge, List.take_nil, List.infix_nil] at hmatch
        exact hpattern hlooks.more hmatch

/-! ### One operator -/

/-- What an operator that starts at `o` may show, and where it may leave the buffer: at `o'`. -/
structure Reads (t : Text) (o : Nat) (operator : IncludeOperator) (pattern shown : Text)
    (o' : Nat) : Prop where
  le : o ≤ o'
  le_length : o' ≤ t.length
  isStop : IsStop t o'
  lines : shown ≠ [] → ∃ a b, shown = slice t a b ∧ o ≤ a ∧ a ≤ b ∧ b ≤ o' ∧
    IsLineStart t a ∧ IsLineEnd t b ∧ pattern <:+: shown
  skip : operator = .skip → shown = []
  unmatched : operator = .skipLine ∨ operator = .through →
    (∀ a b, ¬ Matches t pattern o a b) → shown = [] ∧ o' = t.length

theorem IsLineEnd.isStop_succ (h : IsLineEnd t b) : IsStop t (min t.length (b + 1)) := by
  obtain hle | hlt := Nat.le_total (b + 1) t.length
  · rw [Nat.min_eq_right hle]
    exact .inr (h.lineStart_succ hle)
  · rw [Nat.min_eq_left hlt]
    exact .inl rfl

/-- Part of a text that begins with a line and ends with one, and the place behind it. -/
theorem Reads.of_lines {operator : IncludeOperator} {shown : Text}
    (hskip : operator ≠ .skip) (hstart : o ≤ a) (hle : a ≤ b) (hfirst : IsLineStart t a)
    (hlast : IsLineEnd t b) (hshown : shown ≠ [] → shown = slice t a b ∧ pattern <:+: shown)
    (hmatch : operator = .skipLine ∨ operator = .through → ∃ a b, Matches t pattern o a b) :
    Reads t o operator pattern shown (min t.length (b + 1)) := by
  have hb := hlast.le_length
  refine ⟨by omega, Nat.min_le_left _ _, hlast.isStop_succ, ?_, (absurd · hskip), ?_⟩
  · intro hne
    obtain ⟨hslice, hpattern⟩ := hshown hne
    exact ⟨a, b, hslice, hstart, hle, by omega, hfirst, hlast, hpattern⟩
  · intro hoperator hnone
    obtain ⟨a, b, h⟩ := hmatch hoperator
    exact absurd h (hnone a b)

/-- Nothing shown, and the end of the text. -/
theorem Reads.at_end {operator : IncludeOperator} (ho : o ≤ t.length) :
    Reads t o operator pattern [] t.length :=
  ⟨ho, Nat.le_refl _, .inl rfl, (absurd rfl ·), fun _ => rfl, fun _ _ => ⟨rfl, rfl⟩⟩

theorem slice_infix_slice {a' b' : Nat} (ha : a ≤ a') (hb : b' ≤ b) :
    slice t a' b' <:+: slice t a b := by
  have hcut : slice t a' b' = ((slice t a b).drop (a' - a)).take (b' - a') := by
    rw [slice, slice, List.drop_take, List.drop_drop, List.take_take, Nat.add_sub_cancel' ha,
      Nat.min_eq_left (by omega)]
  rw [hcut]
  exact (List.take_prefix _ _).isInfix.trans (List.drop_suffix _ _).isInfix

theorem apply_reads (buffer : IncludeBuffer) (operator : IncludeOperator) (pattern : Text)
    (ho : buffer.offset ≤ buffer.text.length) (hstop : IsStop buffer.text buffer.offset) :
    Reads buffer.text buffer.offset operator pattern (buffer.apply operator pattern).1
      (buffer.apply operator pattern).2.offset := by
  obtain ⟨t, o⟩ := buffer
  change o ≤ t.length at ho
  change IsStop t o at hstop
  have hsearched : Searched t pattern o o o (search t pattern o o false) := searched_from ho hstop
  have hcases := @search_cases t pattern o ho hstop
  -- all but `line` rest on the search; `line` looks at one line only
  cases operator with
  | line =>
      obtain hmore | hend := Nat.lt_or_ge o t.length
      · have hlooked : Looked t o o (lineFrom o o false (t.drop o)) :=
          (Looking.begun (Nat.le_refl o) ho (hstop.resolve_left hmore.ne) seen_begun).lineFrom
        refine Reads.of_lines (by decide) hlooked.le_start hlooked.isLine.le hlooked.isLine.start
          hlooked.isLine.stop ?_ (by simp)
        intro hne
        simp only [apply] at hne ⊢
        split_ifs at hne ⊢ with hmatch
        · exact ⟨rfl, Text.isInfix_of_occursIn hmatch⟩
        · exact absurd rfl hne
      · obtain rfl : o = t.length := Nat.le_antisymm ho hend
        have hshown : (apply ⟨t, t.length⟩ .line pattern).1 = [] := by
          simp [apply, lineFrom, slice]
        have hoffset : (apply ⟨t, t.length⟩ .line pattern).2.offset = t.length := by
          simp [apply, lineFrom]
        rw [hshown, hoffset]
        exact Reads.at_end ho
  | skipLine =>
      obtain ⟨a, b, hmatch, hfound, hpos⟩ | ⟨-, hfound, hpos⟩ := hcases
      · simp only [apply, hfound, hpos]
        obtain ⟨hlooks, hpattern⟩ := hmatch
        exact Reads.of_lines (by decide) hlooks.le hlooks.line.le hlooks.line.start hlooks.line.stop
          (fun _ => ⟨rfl, hpattern⟩) (fun _ => ⟨a, b, hlooks, hpattern⟩)
      · simp only [apply, hfound, Nat.min_eq_left (Nat.le_succ_of_le hpos)]
        exact Reads.at_end ho
  | skip =>
      simp only [apply, Nat.min_eq_right hsearched.lineStart_le]
      exact ⟨hsearched.le_lineStart, hsearched.lineStart_le, hsearched.isStop, (absurd rfl ·),
        fun _ => rfl, by simp⟩
  | through =>
      obtain ⟨a, b, hmatch, hfound, hpos⟩ | ⟨-, hfound, hpos⟩ := hcases
      · simp only [apply, hfound, hpos]
        obtain ⟨hlooks, hpattern⟩ := hmatch
        have hwithin : pattern <:+: slice t o b :=
          hpattern.trans (slice_infix_slice hlooks.le (Nat.le_refl b))
        exact Reads.of_lines (by decide) (Nat.le_refl o) (Nat.le_trans hlooks.le hlooks.line.le)
          (hstop.resolve_left hlooks.more.ne) hlooks.line.stop (fun _ => ⟨rfl, hwithin⟩)
          (fun _ => ⟨a, b, hlooks, hpattern⟩)
      · simp only [apply, hfound, Nat.min_eq_left (Nat.le_succ_of_le hpos)]
        exact Reads.at_end ho

theorem apply_text (buffer : IncludeBuffer) (operator : IncludeOperator) (pattern : Text) :
    (buffer.apply operator pattern).2.text = buffer.text := by
  cases operator <;> rfl

/-! ### Operators one after the other -/

/-- The buffer after operators with their patterns. -/
def after (buffer : IncludeBuffer) : List (IncludeOperator × Text) → IncludeBuffer
  | [] => buffer
  | (operator, pattern) :: rest => after (buffer.apply operator pattern).2 rest

/-- The texts that operators with their patterns show. -/
def shown (buffer : IncludeBuffer) : List (IncludeOperator × Text) → List Text
  | [] => []
  | (operator, pattern) :: rest =>
    (buffer.apply operator pattern).1 :: shown (buffer.apply operator pattern).2 rest

theorem after_stops (buffer : IncludeBuffer) (steps : List (IncludeOperator × Text))
    (ho : buffer.offset ≤ buffer.text.length) (hstop : IsStop buffer.text buffer.offset) :
    (after buffer steps).text = buffer.text ∧
      (after buffer steps).offset ≤ buffer.text.length ∧
      IsStop buffer.text (after buffer steps).offset := by
  induction steps generalizing buffer with
  | nil => exact ⟨rfl, ho, hstop⟩
  | cons step rest ih =>
      have hstep := apply_reads buffer step.1 step.2 ho hstop
      have htext := apply_text buffer step.1 step.2
      rw [← htext] at hstep ⊢
      exact ih _ hstep.le_length hstep.isStop

/-- The texts shown that are not empty are pieces of the text in its order. -/
theorem shown_places (buffer : IncludeBuffer) (steps : List (IncludeOperator × Text))
    (ho : buffer.offset ≤ buffer.text.length) (hstop : IsStop buffer.text buffer.offset) :
    ∃ places : List (Nat × Nat),
      (shown buffer steps).filter (fun text => !text.isEmpty) =
        places.map (fun place => slice buffer.text place.1 place.2) ∧
      places.Pairwise (fun earlier later => earlier.2 ≤ later.1) ∧
      ∀ place ∈ places, buffer.offset ≤ place.1 ∧ place.1 ≤ place.2 ∧
        place.2 ≤ buffer.text.length := by
  induction steps generalizing buffer with
  | nil => exact ⟨[], rfl, List.Pairwise.nil, by simp⟩
  | cons step rest ih =>
      have hstep := apply_reads buffer step.1 step.2 ho hstop
      have htext := apply_text buffer step.1 step.2
      rw [← htext] at hstep
      obtain ⟨places, hplaces, hpairs, hbounds⟩ := ih _ hstep.le_length hstep.isStop
      rw [htext] at hplaces hbounds hstep
      have hlater : ∀ place ∈ places, buffer.offset ≤ place.1 ∧ place.1 ≤ place.2 ∧
          place.2 ≤ buffer.text.length := by
        intro place hmem
        obtain ⟨h1, h2, h3⟩ := hbounds place hmem
        exact ⟨Nat.le_trans hstep.le h1, h2, h3⟩
      by_cases hempty : (buffer.apply step.1 step.2).1 = []
      · refine ⟨places, ?_, hpairs, hlater⟩
        rw [shown, hempty, List.filter_cons_of_neg (by simp), hplaces]
      · obtain ⟨a, b, hslice, hoa, hab, hb, -, hlast, -⟩ := hstep.lines hempty
        refine ⟨(a, b) :: places, ?_, ?_, ?_⟩
        · rw [shown, List.filter_cons_of_pos (by simpa using hempty), hplaces, List.map_cons,
            hslice]
        · refine List.Pairwise.cons ?_ hpairs
          intro place hmem
          exact Nat.le_trans hb (hbounds place hmem).1
        · rintro place (_ | ⟨_, hmem⟩)
          · exact ⟨hoa, hab, hlast.le_length⟩
          · exact hlater place hmem

/-- Every operator reads on from where the one before it stopped, and what is shown are pieces of
the text in its order. -/
theorem operators_read_in_order (t : Text) (steps : List (IncludeOperator × Text)) :
    (∀ before operator pattern,
      let buffer := after { text := t } before
      buffer.text = t ∧
      Reads t buffer.offset operator pattern (buffer.apply operator pattern).1
        (buffer.apply operator pattern).2.offset) ∧
    ∃ places : List (Nat × Nat),
      (shown { text := t } steps).filter (fun text => !text.isEmpty) =
        places.map (fun place => slice t place.1 place.2) ∧
      places.Pairwise (fun earlier later => earlier.2 ≤ later.1) ∧
      ∀ place ∈ places, place.1 ≤ place.2 ∧ place.2 ≤ t.length := by
  constructor
  · intro before operator pattern
    obtain ⟨htext, hlength, hstop⟩ :=
      after_stops { text := t } before (Nat.zero_le _) (.inr (.inl rfl))
    refine ⟨htext, ?_⟩
    have hreads := apply_reads (after { text := t } before) operator pattern
    rw [htext] at hreads
    exact hreads hlength hstop
  · obtain ⟨places, hplaces, hpairs, hbounds⟩ :=
      shown_places { text := t } steps (Nat.zero_le _) (.inr (.inl rfl))
    exact ⟨places, hplaces, hpairs, fun place hmem => (hbounds place hmem).2⟩

end IncludeBuffer

end DocMarkup
