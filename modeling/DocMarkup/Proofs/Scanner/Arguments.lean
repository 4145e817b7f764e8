import Mathlib.Data.List.DropRight
import DocMarkup.Proofs.Scanner.Markers
import DocMarkup.Proofs.Text.LineEnds

/-!
Arguments on their line.  What a command reads behind its token is one of four things: an argument
up to white space, an argument in quotes, the rest of the line, or an option between delimiters.
Each is described here as a stretch of the text ahead.  Whatever stands there, what is skipped holds
no line feed, what is read is a part of it, and where there is nothing to read the scanner stays
where it is, but for spaces and tabs before an argument.
-/

namespace DocMarkup

open CodeUnit (isSpace isHorizontalSpace isLineBreak lineFeed)
open IncludeBuffer (slice)

namespace Text

variable {t : Text}

theorem trim_infix (t : Text) : trim t <:+: t := by
  have hright : trim t <+: t.dropWhile CodeUnit.isBlank := List.rdropWhile_prefix ..
  exact hright.isInfix.trans (List.dropWhile_suffix _).isInfix

/-- A run of units of a kind, and what is left behind it. -/
theorem exists_run (kind : CodeUnit → Bool) (t : Text) :
    ∃ rest, t = t.takeWhile kind ++ rest ∧ (∀ u ∈ t.takeWhile kind, kind u = true) ∧
      rest.head?.all (fun u => !kind u) = true := by
  refine ⟨t.dropWhile kind, List.takeWhile_append_dropWhile.symm,
    fun u hu => List.mem_takeWhile_imp hu, ?_⟩
  have hstop := List.head?_dropWhile_not kind t
  cases hrest : (t.dropWhile kind).head? with
  | none => rfl
  | some u =>
      rw [hrest] at hstop
      simpa using hstop

end Text

/-! ### What stands ahead -/

/-- An argument behind spaces and tabs, up to white space; what is skipped there. -/
inductive ArgumentAhead : Text → Option Text → Text → Prop
  | found {blanks argument rest : Text} (blank : ∀ u ∈ blanks, isHorizontalSpace u = true)
      (solid : ∀ u ∈ argument, isSpace u = false) (nonempty : argument ≠ [])
      (ends : rest.head?.all isSpace = true) :
      ArgumentAhead (blanks ++ (argument ++ rest)) (some argument) (blanks ++ argument)
  | missing {blanks rest : Text} (blank : ∀ u ∈ blanks, isHorizontalSpace u = true)
      (ends : rest.head?.all isLineBreak = true) : ArgumentAhead (blanks ++ rest) none blanks

/-- An argument in double quotes behind spaces and tabs, closed on its line. -/
structure QuotedAt (t blanks body rest : Text) : Prop where
  text_eq : t = blanks ++ unit '"' :: (body ++ unit '"' :: rest)
  blank : ∀ u ∈ blanks, isHorizontalSpace u = true
  onLine : ∀ u ∈ body, u ≠ unit '"' ∧ isLineBreak u = false

/-- An argument in quotes if there is one, and what is skipped. -/
inductive QuotedAhead (t : Text) : Option Text → Text → Prop
  | found {blanks body rest : Text} (quoted : QuotedAt t blanks body rest) :
      QuotedAhead t (some body) (blanks ++ unit '"' :: (body ++ [unit '"']))
  | missing (unquoted : ∀ blanks body rest, ¬ QuotedAt t blanks body rest) : QuotedAhead t none []

/-- The rest of the line without the blanks around it; all of it is skipped. -/
inductive LineAhead : Text → Option Text → Text → Prop
  | found {line rest : Text} (onLine : ∀ u ∈ line, isLineBreak u = false)
      (ends : rest.head?.all isLineBreak = true) :
      LineAhead (line ++ rest) (some (Text.trim line)) line

/-- An option that follows at once, up to the first text that closes it, on one line. -/
structure AttachedAt (opening closing t body rest : Text) : Prop where
  text_eq : t = opening ++ (body ++ (closing ++ rest))
  length_opening : opening.length = 1
  onLine : lineFeed ∉ opening ++ body
  first : ∀ i < body.length, ¬ closing <+: (body ++ (closing ++ rest)).drop i

/-- An option between delimiters if there is one, and what is skipped: of the text that closes it
the first unit only. -/
inductive AttachedAhead (opening closing t : Text) : Option Text → Text → Prop
  | found {body rest : Text} (attached : AttachedAt opening closing t body rest) :
      AttachedAhead opening closing t (some body) (opening ++ (body ++ closing.take 1))
  | missing (unattached : ∀ body rest, ¬ AttachedAt opening closing t body rest) :
      AttachedAhead opening closing t none []

/-- A rule for what is read of a text and what is skipped that keeps to the line: the text begins
with what is skipped, no line ends in it, and what is read is a part of it. -/
def KeepsToLine (rule : Text → Option Text → Text → Prop) : Prop :=
  ∀ t read skipped, rule t read skipped →
    skipped <+: t ∧ lineFeed ∉ skipped ∧ ∀ argument ∈ read, argument <:+: skipped

/-- No unit of a kind is a line feed. -/
theorem lineFeed_not_mem_of_kind {kind : CodeUnit → Bool} {b : Bool} {t : Text}
    (h : ∀ u ∈ t, kind u = b) (hfeed : kind lineFeed = !b) : lineFeed ∉ t := by
  intro hmem
  have hb := h _ hmem
  rw [hfeed] at hb
  cases b <;> cases hb

theorem ArgumentAhead.keepsToLine : KeepsToLine ArgumentAhead := by
  rintro t read skipped (⟨hblank, hsolid, -, -⟩ | ⟨hblank, -⟩)
  · refine ⟨?_, ?_, ?_⟩
    · rw [← List.append_assoc]
      exact List.prefix_append _ _
    · rw [List.mem_append, not_or]
      exact ⟨lineFeed_not_mem_of_kind hblank rfl, lineFeed_not_mem_of_kind hsolid rfl⟩
    · rintro _ ⟨⟩
      exact (List.suffix_append _ _).isInfix
  · exact ⟨List.prefix_append _ _, lineFeed_not_mem_of_kind hblank rfl, nofun⟩

theorem QuotedAhead.keepsToLine : KeepsToLine QuotedAhead := by
  rintro t read skipped (@⟨blanks, body, rest, ⟨rfl, hblank, hbody⟩⟩ | -)
  · refine ⟨⟨_, by simp; rfl⟩, ?_, ?_⟩
    · simp only [List.mem_append, List.mem_cons, List.not_mem_nil, or_false, not_or]
      refine ⟨lineFeed_not_mem_of_kind hblank rfl, by decide, ?_, by decide⟩
      exact lineFeed_not_mem_of_kind (fun u hu => (hbody u hu).2) rfl
    · rintro _ ⟨⟩
      exact ⟨blanks ++ [unit '"'], [unit '"'], by simp⟩
  · exact ⟨List.nil_prefix, List.not_mem_nil, nofun⟩

theorem LineAhead.keepsToLine : KeepsToLine LineAhead := by
  rintro t read skipped ⟨hline, -⟩
  refine ⟨List.prefix_append _ _, lineFeed_not_mem_of_kind hline rfl, ?_⟩
  rintro _ ⟨⟩
  exact Text.trim_infix _

theorem AttachedAhead.keepsToLine {opening more : Text} {delimiter : CodeUnit}
    (h : delimiter ≠ lineFeed) : KeepsToLine (AttachedAhead opening (delimiter :: more)) := by
  rintro t read skipped (⟨⟨rfl, -, hline, -⟩⟩ | -)
  · refine ⟨⟨more ++ _, by simp; rfl⟩, ?_, ?_⟩
    · rw [← List.append_assoc, List.mem_append, not_or]
      exact ⟨hline, fun hmem => h (List.mem_singleton.1 hmem).symm⟩
    · rintro _ ⟨⟩
      exact ⟨opening, [delimiter], by simp⟩
  · exact ⟨List.nil_prefix, List.not_mem_nil, nofun⟩

section

variable {t argument skipped : Text}

theorem ArgumentAhead.solid (h : ArgumentAhead t (some argument) skipped) :
    ∀ u ∈ argument, isSpace u = false := by
  cases h with
  | found _ solid => exact solid

theorem ArgumentAhead.blank_of_none (h : ArgumentAhead t none skipped) :
    ∀ u ∈ skipped, isHorizontalSpace u = true := by
  cases h with
  | missing blank => exact blank

theorem QuotedAhead.quote_not_mem (h : QuotedAhead t (some argument) skipped) :
    unit '"' ∉ argument := by
  cases h with
  | found quoted => exact fun hmem => (quoted.onLine _ hmem).1 rfl

theorem LineAhead.eq_trim (h : LineAhead t (some argument) skipped) :
    argument = Text.trim skipped := by
  cases h with
  | found => rfl

end

/-! ### What is read -/

theorem Cursor.advance_advance (m n : Nat) (c : Cursor) :
    (c.advance m).advance n = c.advance (m + n) := by
  induction m generalizing c with
  | zero => rw [Nat.zero_add, advance]
  | succ m ih =>
      rcases c with ⟨behind, _ | ⟨u, ahead⟩, offset, h⟩
      · rw [Nat.succ_add, advance, advance]
        cases n <;> rfl
      · rw [Nat.succ_add, advance, advance, ih]

namespace Scanner

/-- The scanner behind the next units, all else as it was. -/
def past (s : Scanner) (n : Nat) : Scanner := { s with cursor := s.cursor.advance n }

/-- A reader follows a rule: the scanner moves over what is skipped of the text ahead and over
nothing else. -/
def Follows (s : Scanner) (rule : Text → Option Text → Text → Prop) (read : Option Text × Scanner) :
    Prop :=
  ∃ skipped, rule s.cursor.ahead read.1 skipped ∧ read.2 = s.past skipped.length

variable {s : Scanner}

/-- An argument takes the units up to white space behind spaces and tabs. -/
theorem readArgument_follows (s : Scanner) : s.Follows ArgumentAhead s.readArgument := by
  obtain ⟨rest, hahead, hblank, hrest⟩ := Text.exists_run isHorizontalSpace s.cursor.ahead
  have hskip : s.skipHorizontalSpace =
      s.past (s.cursor.ahead.takeWhile isHorizontalSpace).length := rfl
  generalize s.cursor.ahead.takeWhile isHorizontalSpace = blanks at hahead hblank hskip
  have hleft : s.skipHorizontalSpace.cursor.ahead = rest := by
    rw [hskip]
    exact (Cursor.ahead_advance ..).trans (by rw [hahead, List.drop_left])
  obtain ⟨after, hsplit, hsolid, hafter⟩ := Text.exists_run (fun u => !isSpace u) rest
  simp only [Bool.not_eq_true', Bool.not_not] at hsolid hafter
  unfold Follows readArgument
  dsimp only
  rw [hleft, hahead]
  generalize (rest.takeWhile fun u => !isSpace u) = argument at hsplit hsolid
  split
  · next hnone =>
    obtain rfl := List.isEmpty_iff.1 hnone
    refine ⟨blanks, .missing hblank ?_, hskip⟩
    obtain rfl : rest = after := hsplit
    cases rest with
    | nil => rfl
    | cons u rest =>
        have hu : isHorizontalSpace u = false := by simpa using hrest
        simpa [isSpace, hu] using hafter
  · next hsome =>
    refine ⟨blanks ++ argument, ?_, ?_⟩
    · rw [hsplit]
      exact .found hblank hsolid (by simpa using hsome) hafter
    · rw [List.length_append, hskip]
      exact congrArg (fun c => { s with cursor := c }) (Cursor.advance_advance ..)

theorem readQuoted_of_quotedAt {blanks body rest : Text}
    (h : QuotedAt s.cursor.ahead blanks body rest) :
    s.readQuoted = (some body, s.past (blanks.length + (body.length + 2))) := by
  obtain ⟨hahead, hblank, hbody⟩ := h
  have hblanks : s.cursor.ahead.takeWhile isHorizontalSpace = blanks := by
    rw [hahead, List.takeWhile_append_of_pos hblank, List.takeWhile_cons_of_neg (by decide),
      List.append_nil]
  have hquoted : (body ++ unit '"' :: rest).takeWhile (fun v => v != unit '"' && !isLineBreak v) =
      body := by
    rw [List.takeWhile_append_of_pos, List.takeWhile_cons_of_neg (by decide), List.append_nil]
    intro u hu
    simpa using hbody u hu
  have hleft : (s.cursor.advanceWhile isHorizontalSpace).ahead =
      unit '"' :: (body ++ unit '"' :: rest) := by
    rw [Cursor.advanceWhile, hblanks, Cursor.ahead_advance, hahead, List.drop_left]
  unfold readQuoted
  dsimp only
  rw [hleft]
  dsimp only
  rw [hquoted, List.drop_left, if_pos (by simp), Cursor.advanceWhile, hblanks,
    Cursor.advance_advance]
  rfl

theorem exists_quotedAt {body : Text} (h : s.readQuoted.1 = some body) :
    ∃ blanks rest, QuotedAt s.cursor.ahead blanks body rest := by
  obtain ⟨left, hahead, hblank, -⟩ := Text.exists_run isHorizontalSpace s.cursor.ahead
  have hleft : (s.cursor.advanceWhile isHorizontalSpace).ahead = left := by
    rw [Cursor.advanceWhile, Cursor.ahead_advance]
    nth_rewrite 2 [hahead]
    rw [List.drop_left]
  unfold readQuoted at h
  dsimp only at h
  rw [hleft] at h
  cases left with
  | nil => cases h
  | cons u quoted =>
      dsimp only at h
      obtain ⟨rest, hquoted, hbody, -⟩ :=
        Text.exists_run (fun v => v != unit '"' && !isLineBreak v) quoted
      generalize quoted.takeWhile (fun v => v != unit '"' && !isLineBreak v) = read at *
      split at h
      · next hclosed =>
        cases h
        rw [Bool.and_eq_true, beq_iff_eq, beq_iff_eq, hquoted, List.drop_left] at hclosed
        obtain ⟨rfl, hclosing⟩ := hclosed
        obtain ⟨after, rfl⟩ := List.head?_eq_some_iff.1 hclosing
        refine ⟨_, after, hahead.trans (by rw [hquoted]), hblank, fun v hv => ?_⟩
        simpa using hbody v hv
      · cases h

theorem readQuoted_eq_self (h : s.readQuoted.1 = none) : s.readQuoted.2 = s := by
  unfold readQuoted at h ⊢
  dsimp only at h ⊢
  split at h
  · rfl
  · split at h
    · cases h
    · next hopen => rw [if_neg hopen]

theorem readQuoted_follows (s : Scanner) : s.Follows QuotedAhead s.readQuoted := by
  cases hread : s.readQuoted.1 with
  | none =>
      refine ⟨[], ?_, readQuoted_eq_self hread⟩
      rw [hread]
      refine .missing fun blanks body rest hquoted => ?_
      rw [readQuoted_of_quotedAt hquoted] at hread
      cases hread
  | some body =>
      obtain ⟨blanks, rest, hquoted⟩ := exists_quotedAt hread
      refine ⟨blanks ++ unit '"' :: (body ++ [unit '"']), ?_, ?_⟩
      · rw [hread]
        exact .found hquoted
      · rw [readQuoted_of_quotedAt hquoted]
        simp

theorem readLine_follows (s : Scanner) :
    s.Follows LineAhead (some s.readLine.1, s.readLine.2) := by
  obtain ⟨rest, hahead, hline, hrest⟩ := Text.exists_run (fun u => !isLineBreak u) s.cursor.ahead
  simp only [Bool.not_eq_true', Bool.not_not] at hline hrest
  refine ⟨s.cursor.ahead.takeWhile fun u => !isLineBreak u, ?_, rfl⟩
  nth_rewrite 1 [hahead]
  exact .found hline hrest

section

variable {opening closing : Text}

theorem readAttached_of_attachedAt {body rest : Text}
    (h : AttachedAt opening closing s.cursor.ahead body rest) :
    s.readAttached opening closing = (some body, s.past (body.length + 2)) := by
  obtain ⟨hahead, hopening, hline, hfirst⟩ := h
  have hdrop : s.cursor.ahead.drop 1 = body ++ (closing ++ rest) := by
    rw [hahead, List.drop_left' hopening]
  have hindex : Text.indexOf? closing (body ++ (closing ++ rest)) = some body.length := by
    cases hfound : Text.indexOf? closing (body ++ (closing ++ rest)) with
    | none =>
        have hinfix : closing <:+: body ++ (closing ++ rest) := ⟨body, rest, by simp⟩
        exact absurd hinfix (Text.not_isInfix_of_indexOf?_eq_none hfound)
    | some i =>
        obtain ⟨hhere, hearlier⟩ := Text.of_indexOf?_eq_some hfound
        rcases lt_trichotomy i body.length with hlt | rfl | hlt
        · exact absurd hhere (hfirst i hlt)
        · rfl
        · refine absurd ?_ (hearlier _ hlt)
          rw [List.drop_left]
          exact List.prefix_append _ _
  have hfeed : ¬ (Text.indexOf? [lineFeed] s.cursor.ahead).any (· < body.length + 1) := by
    have htake : s.cursor.ahead.take (body.length + 1) = opening ++ body := by
      rw [hahead, ← List.append_assoc]
      exact List.take_left' (by rw [List.length_append, hopening, Nat.add_comm])
    rw [Text.any_indexOf?_lt, htake]
    exact hline
  unfold readAttached
  dsimp only
  rw [if_neg (by rw [hahead, List.take_left' hopening]; simp), hdrop, hindex]
  dsimp only
  rw [if_neg hfeed, List.take_left]
  rfl

theorem exists_attachedAt {body : Text} (hclosing : closing ≠ [])
    (h : (s.readAttached opening closing).1 = some body) :
    ∃ rest, AttachedAt opening closing s.cursor.ahead body rest := by
  unfold readAttached at h
  dsimp only at h
  split at h
  · cases h
  · next hopens =>
    have hopening : s.cursor.ahead.take 1 = opening := by simpa using hopens
    split at h
    · cases h
    · next i hindex =>
      split at h
      · cases h
      · next hfeed =>
        cases h
        rw [Text.any_indexOf?_lt] at hfeed
        obtain ⟨⟨rest, hrest⟩, hfirst⟩ := Text.of_indexOf?_eq_some hindex
        have hle : i < (s.cursor.ahead.drop 1).length := by
          have hlength := congrArg List.length hrest
          rw [List.length_append, List.length_drop] at hlength
          have hpos := List.length_pos_iff.2 hclosing
          omega
        have hbody : ((s.cursor.ahead.drop 1).take i).length = i := List.length_take_of_le hle.le
        have hsplit : s.cursor.ahead.drop 1 =
            (s.cursor.ahead.drop 1).take i ++ (closing ++ rest) := by
          rw [hrest, List.take_append_drop]
        refine ⟨rest, ?_, ?_, ?_, ?_⟩
        · rw [← hsplit, ← hopening, List.take_append_drop]
        · rw [List.length_drop] at hle
          rw [← hopening, List.length_take_of_le (by omega)]
        · rwa [Nat.add_comm i 1, List.take_add, hopening] at hfeed
        · rwa [hbody, ← hsplit]

theorem readAttached_eq_self (h : (s.readAttached opening closing).1 = none) :
    (s.readAttached opening closing).2 = s := by
  unfold readAttached at h ⊢
  dsimp only at h ⊢
  split at h
  · next hopens => rw [if_pos hopens]
  · next hopens =>
    rw [if_neg hopens]
    split at h
    · rfl
    · split at h
      · next hfeed => rw [if_pos hfeed]
      · cases h

theorem readAttached_follows (hclosing : closing ≠ []) (s : Scanner) :
    s.Follows (AttachedAhead opening closing) (s.readAttached opening closing) := by
  cases hread : (s.readAttached opening closing).1 with
  | none =>
      refine ⟨[], ?_, readAttached_eq_self hread⟩
      rw [hread]
      refine .missing fun body rest hattached => ?_
      rw [readAttached_of_attachedAt hattached] at hread
      cases hread
  | some body =>
      obtain ⟨rest, hattached⟩ := exists_attachedAt hclosing hread
      refine ⟨opening ++ (body ++ closing.take 1), ?_, ?_⟩
      · rw [hread]
        exact .found hattached
      · have hlength : (closing.take 1).length = 1 :=
          List.length_take_of_le (List.length_pos_iff.2 hclosing)
        rw [readAttached_of_attachedAt hattached, List.length_append, List.length_append,
          hattached.length_opening, hlength]
        exact congrArg s.past (by omega)

end

/-! ### The line -/

/-- The scanner reads on its line: by a rule for the text ahead, without passing a line feed from
its place on, and without changing anything but its place; what is read is a part of what is skipped
and holds no line feed. -/
structure ReadsOnLine (s : Scanner) (rule : Text → Option Text → Text → Prop)
    (read : Option Text × Scanner) : Prop where
  follows : rule s.cursor.ahead read.1 (slice s.text s.offset read.2.offset)
  forward : s.offset ≤ read.2.offset
  onLine : ∀ i, s.offset ≤ i → s.text[i]? = some lineFeed → read.2.offset ≤ i
  within : ∀ argument ∈ read.1,
    argument <:+: slice s.text s.offset read.2.offset ∧ lineFeed ∉ argument
  text_eq : read.2.text = s.text
  kept : { read.2 with cursor := s.cursor } = s

theorem Follows.readsOnLine {rule : Text → Option Text → Text → Prop} {read : Option Text × Scanner}
    (h : s.Follows rule read) (hrule : KeepsToLine rule) : s.ReadsOnLine rule read := by
  obtain ⟨skipped, hfollows, hafter⟩ := h
  obtain ⟨⟨rest, hrest⟩, hfeed, hwithin⟩ := hrule _ _ _ hfollows
  have htext : read.2.text = s.text := by
    rw [hafter]
    exact Cursor.text_advance ..
  have hoffset : read.2.offset = s.offset + skipped.length := by
    have hlength : skipped.length ≤ s.cursor.ahead.length := by simp [← hrest]
    rw [hafter]
    exact (Cursor.offset_advance ..).trans (by rw [Nat.min_eq_left hlength]; rfl)
  have hslice : slice s.text s.offset read.2.offset = skipped := by
    refine Cursor.slice_eq htext ?_
    rw [hafter, past, Cursor.ahead_advance, ← hrest, List.drop_left]
  refine ⟨?_, by omega, ?_, ?_, htext, ?_⟩
  · rwa [hslice]
  · intro i hle hi
    by_contra hlt
    refine hfeed (List.mem_of_getElem? (i := i - s.offset) ?_)
    have hdrop : s.text.drop s.offset = skipped ++ rest := by rw [hrest]; exact s.cursor.drop_offset
    have hskipped : (skipped ++ rest)[i - s.offset]? = skipped[i - s.offset]? :=
      List.getElem?_append_left (by omega)
    rw [← hskipped, ← hdrop, List.getElem?_drop, Nat.add_sub_cancel' hle, hi]
  · intro argument hargument
    obtain ⟨before, after, happend⟩ := hwithin argument hargument
    rw [hslice]
    refine ⟨⟨before, after, happend⟩, fun hmem => hfeed ?_⟩
    simp [← happend, hmem]
  · rw [hafter]
    rfl

/-- Whatever stands ahead, all four readers of arguments stay on their line.  An argument holds no
white space, and without one only spaces and tabs are skipped; an argument in quotes holds no quote;
the rest of the line is what is skipped, trimmed; and without an argument in quotes or an option the
scanner stays as it is.  A text that begins with a line feed cannot close an option. -/
theorem arguments_stay_on_line (s : Scanner) (opening : Text) {delimiter : CodeUnit} (more : Text)
    (hdelimiter : delimiter ≠ lineFeed) :
    (s.ReadsOnLine ArgumentAhead s.readArgument ∧
      (∀ argument ∈ s.readArgument.1, ∀ u ∈ argument, isSpace u = false) ∧
      (s.readArgument.1 = none →
        ∀ u ∈ slice s.text s.offset s.readArgument.2.offset, isHorizontalSpace u = true)) ∧
    (s.ReadsOnLine QuotedAhead s.readQuoted ∧
      (∀ body ∈ s.readQuoted.1, unit '"' ∉ body) ∧
      (s.readQuoted.1 = none → s.readQuoted.2 = s)) ∧
    (s.ReadsOnLine LineAhead (some s.readLine.1, s.readLine.2) ∧
      s.readLine.1 = Text.trim (slice s.text s.offset s.readLine.2.offset)) ∧
    (s.ReadsOnLine (AttachedAhead opening (delimiter :: more))
        (s.readAttached opening (delimiter :: more)) ∧
      ((s.readAttached opening (delimiter :: more)).1 = none →
        (s.readAttached opening (delimiter :: more)).2 = s)) := by
  have hargument := s.readArgument_follows.readsOnLine ArgumentAhead.keepsToLine
  have hquoted := s.readQuoted_follows.readsOnLine QuotedAhead.keepsToLine
  have hline := s.readLine_follows.readsOnLine LineAhead.keepsToLine
  have hrule : KeepsToLine (AttachedAhead opening (delimiter :: more)) :=
    AttachedAhead.keepsToLine hdelimiter
  have hattached := (readAttached_follows (List.cons_ne_nil delimiter more) s).readsOnLine hrule
  refine ⟨⟨hargument, fun argument hread => ?_, fun hread => ?_⟩,
    ⟨hquoted, fun body hread => ?_, readQuoted_eq_self⟩, ⟨hline, hline.follows.eq_trim⟩,
    hattached, readAttached_eq_self⟩
  · have hfollows := hargument.follows
    rw [Option.mem_def.1 hread] at hfollows
    exact hfollows.solid
  · have hfollows := hargument.follows
    rw [hread] at hfollows
    exact hfollows.blank_of_none
  · have hfollows := hquoted.follows
    rw [Option.mem_def.1 hread] at hfollows
    exact hfollows.quote_not_mem

/-- An option that is closed on its line, and a quote that is not: there is no argument in quotes,
and the argument read in its place ends with the line. -/
theorem arguments_stay_on_line_before_break :
    unit ']' ≠ lineFeed ∧
      (let s := ofText (units "[in] x\n]")
      (s.readAttached (units "[") [unit ']']).1 = some (units "in") ∧
        s.ReadsOnLine (AttachedAhead (units "[") [unit ']'])
          (s.readAttached (units "[") [unit ']'])) ∧
      (let s := ofText (units " \"x\ny\"")
      s.readQuoted.1 = none ∧ s.readQuoted.2 = s ∧
        s.readArgument.1 = some (units "\"x") ∧ s.ReadsOnLine ArgumentAhead s.readArgument) := by
  have hbracket : unit ']' ≠ lineFeed := by decide
  obtain ⟨-, -, -, hattached, -⟩ :=
    arguments_stay_on_line (ofText (units "[in] x\n]")) (units "[") [] hbracket
  obtain ⟨⟨hargument, -⟩, ⟨-, -, hquoted⟩, -⟩ :=
    arguments_stay_on_line (ofText (units " \"x\ny\"")) (units "[") [] hbracket
  have hunquoted : (ofText (units " \"x\ny\"")).readQuoted.1 = none := by decide
  exact ⟨hbracket, ⟨by decide, hattached⟩, hunquoted, hquoted hunquoted, by decide, hargument⟩

end Scanner

end DocMarkup
