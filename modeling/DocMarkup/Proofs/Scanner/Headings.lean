import DocMarkup.SectionLabel
import DocMarkup.Proofs.Doc.Headings
import DocMarkup.Proofs.Scanner.Markers

/-!
The section labels ahead of a scanner.  They depend on the text ahead alone: the settings of the
scanner only change how white space and the markers of lists are cut into tokens.
-/

namespace DocMarkup

open CodeUnit (isSpace isHorizontalSpace isMarkerUnit)

/-! ### Labels one after the other -/

namespace SectionLabel

/-- The heading of a label that a section command declares. -/
def heading? (l : SectionLabel) : Option Heading :=
  if l.level = 0 then none else some ⟨l.label, l.level, l.title⟩

/-- The label declared by the token just scanned, with the scanner behind all that belongs to it. -/
def taken (s : Scanner) : Option SectionLabel × Scanner :=
  if s.last.kind = .command then
    match rawEnding? s.last.value with
    | some ending => (none, (s.readRaw (Command.markers ending)).2)
    | none => declared? s
  else (none, s)

variable {s s' : Scanner}

theorem ofTokens_succ (n : Nat) (s : Scanner) :
    ofTokens (n + 1) s = if s.scan.last.kind = .endOfText then []
      else (taken s.scan).1.toList ++ ofTokens n (taken s.scan).2 := by
  rw [ofTokens, taken]
  cases s.scan.last.kind <;> first
    | rfl
    | (dsimp only
       cases rawEnding? s.scan.last.value <;> rfl)

theorem advances_taken (s : Scanner) : s.Advances (taken s).2 := by
  have hargument := s.advances_readArgument
  unfold taken declared?
  split
  · split
    · exact s.advances_readRaw _
    · split
      · exact .refl s
      · generalize s.readArgument = read at hargument
        obtain ⟨_ | label, s'⟩ := read
        · exact hargument
        · dsimp only
          split
          · exact hargument
          · exact hargument.trans s'.advances_readLine
  · exact .refl s

theorem length_ahead_taken (s : Scanner) :
    (taken s).2.cursor.ahead.length ≤ s.cursor.ahead.length := by
  have hbefore := s.cursor.offset_add_length_ahead
  have hafter := (taken s).2.cursor.offset_add_length_ahead
  have htext : (taken s).2.cursor.text = s.cursor.text := (advances_taken s).text
  have hoffset : s.cursor.offset ≤ (taken s).2.cursor.offset := (advances_taken s).offset
  rw [htext] at hafter
  omega

/-- More steps than there are units ahead change nothing. -/
theorem ofTokens_of_lt {n k : Nat} (hn : s.cursor.ahead.length < n)
    (hk : s.cursor.ahead.length < k) : ofTokens n s = ofTokens k s := by
  induction n generalizing s k with
  | zero => exact absurd hn (Nat.not_lt_zero _)
  | succ n ih =>
      obtain _ | k := k
      · exact absurd hk (Nat.not_lt_zero _)
      · rw [ofTokens_succ, ofTokens_succ]
        split
        · rfl
        · next hend =>
          have hscan := Scanner.length_ahead_scan hend
          have htaken := length_ahead_taken s.scan
          rw [ih (s := (taken s.scan).2) (by omega) (k := k) (by omega)]

end SectionLabel

namespace Scanner

open SectionLabel (taken ofTokens)

/-- The headings that the pre-scan finds ahead. -/
def headings (s : Scanner) : List Heading :=
  (ofTokens (s.cursor.ahead.length + 1) s).filterMap SectionLabel.heading?

/-- The headings that it finds with the last token still to be taken up. -/
def headingsFromLast (s : Scanner) : List Heading :=
  ((taken s).1.bind SectionLabel.heading?).toList ++ (taken s).2.headings

variable {s s' : Scanner}

theorem taken_of_ne_command (h : s.last.kind ≠ .command) : taken s = (none, s) := if_neg h

/-- Nothing is taken with a command that begins no raw text and declares no label. -/
theorem taken_of_plain_command (hraw : SectionLabel.rawEnding? s.last.value = none)
    (hlevel : SectionLabel.level? s.last.value = none) : taken s = (none, s) := by
  unfold taken SectionLabel.declared?
  rw [hraw, hlevel]
  split <;> rfl

theorem headingsFromLast_of_ne_command (h : s.last.kind ≠ .command) :
    s.headingsFromLast = s.headings := by
  rw [headingsFromLast, taken_of_ne_command h]
  rfl

theorem headings_of_atEnd (h : s.cursor.ahead = []) : s.headings = [] := by
  have hend : s.scan.last.kind = .endOfText := kind_scan_of_atEnd h
  rw [headings, SectionLabel.ofTokens_succ, if_pos hend]
  rfl

/-- The headings ahead are those from the next token on. -/
theorem headings_eq (s : Scanner) : s.headings = s.scan.headingsFromLast := by
  by_cases hend : s.scan.last.kind = .endOfText
  · have hahead : s.scan.cursor.ahead = [] := by
      rcases s.scan_cases with ⟨-, hoffset⟩ | ⟨hne, -⟩
      · rw [← List.length_eq_zero_iff, Cursor.length_ahead]
        have htext : s.scan.cursor.text = s.text := s.advances_scan.text
        have hoffset : s.scan.cursor.offset = s.text.length := hoffset
        rw [htext, hoffset, Nat.sub_self]
      · exact absurd hend hne
    rw [headingsFromLast_of_ne_command (by rw [hend]; exact nofun), headings_of_atEnd hahead,
      headings, SectionLabel.ofTokens_succ, if_pos hend]
    rfl
  · have hscan := length_ahead_scan hend
    have htaken := SectionLabel.length_ahead_taken s.scan
    rw [headings, SectionLabel.ofTokens_succ, if_neg hend, List.filterMap_append, headingsFromLast,
      headings, SectionLabel.ofTokens_of_lt (k := (taken s.scan).2.cursor.ahead.length + 1)
        (by omega) (by omega)]
    cases (taken s.scan).1 with
    | none => rfl
    | some label => cases hlabel : label.heading? <;> simp [hlabel]

/-! ### The text ahead alone -/

theorem readArgument_congr (h : s.cursor.ahead = s'.cursor.ahead) :
    s.readArgument.1 = s'.readArgument.1 ∧
      s.readArgument.2.cursor.ahead = s'.readArgument.2.cursor.ahead := by
  have hskip : s.skipHorizontalSpace.cursor.ahead = s'.skipHorizontalSpace.cursor.ahead := by
    simp only [skipHorizontalSpace, Cursor.advanceWhile, Cursor.ahead_advance, h]
  unfold readArgument
  dsimp only
  rw [hskip]
  split
  · exact ⟨rfl, hskip⟩
  · simp only [Cursor.ahead_advance, hskip, and_self]

theorem readLine_congr (h : s.cursor.ahead = s'.cursor.ahead) :
    s.readLine.1 = s'.readLine.1 ∧ s.readLine.2.cursor.ahead = s'.readLine.2.cursor.ahead := by
  simp only [readLine, Cursor.ahead_advance, h, and_self]

theorem readRaw_congr (h : s.cursor.ahead = s'.cursor.ahead) (markers : List Text) :
    (s.readRaw markers).2.cursor.ahead = (s'.readRaw markers).2.cursor.ahead := by
  unfold readRaw
  dsimp only
  rw [h]
  split
  · simp only [Cursor.ahead_advance, h]
  · simp only [Cursor.advanceToEnd, Cursor.ahead_advance, h]

/-- What is declared depends on the token and on the text behind it. -/
theorem taken_congr (h : s.cursor.ahead = s'.cursor.ahead) (hkind : s.last.kind = s'.last.kind)
    (hvalue : s.last.value = s'.last.value) :
    (taken s).1.bind SectionLabel.heading? = (taken s').1.bind SectionLabel.heading? ∧
      (taken s).2.cursor.ahead = (taken s').2.cursor.ahead := by
  obtain ⟨hlabel, hargument⟩ := readArgument_congr h
  unfold taken SectionLabel.declared?
  rw [hkind, hvalue]
  split
  · split
    · exact ⟨rfl, readRaw_congr h _⟩
    · split
      · exact ⟨rfl, h⟩
      · generalize s.readArgument = read at hlabel hargument
        generalize s'.readArgument = read' at hlabel hargument
        obtain ⟨label, s₁⟩ := read
        obtain ⟨label', s₂⟩ := read'
        obtain rfl : label = label' := hlabel
        cases label with
        | none => exact ⟨rfl, hargument⟩
        | some label =>
            have hargument : s₁.cursor.ahead = s₂.cursor.ahead := hargument
            obtain ⟨htitle, hline⟩ := readLine_congr hargument
            dsimp only
            split
            · next hlevel =>
              refine ⟨?_, hargument⟩
              simp [SectionLabel.heading?, beq_iff_eq.1 hlevel]
            · refine ⟨?_, hline⟩
              simp only [SectionLabel.heading?, Option.bind_some, htitle]
  · exact ⟨rfl, h⟩

theorem headingsFromLast_congr (h : s.cursor.ahead = s'.cursor.ahead)
    (hkind : s.last.kind = s'.last.kind) (hvalue : s.last.value = s'.last.value)
    (hrest : (taken s).2.headings = (taken s').2.headings) :
    s.headingsFromLast = s'.headingsFromLast := by
  rw [headingsFromLast, headingsFromLast, (taken_congr h hkind hvalue).1, hrest]

theorem skipComments_congr {c c' : Cursor} (h : c.ahead = c'.ahead) :
    (skipComments c).ahead = (skipComments c').ahead := by
  induction c using skipComments.induct generalizing c' with
  | case1 c hnone => rw [skipComments_eq hnone, skipComments_eq (h ▸ hnone), h]
  | case2 c n hsome hlt ih =>
      have hsome' : Lexeme.commentLength? c'.ahead = some n := h ▸ hsome
      rw [skipComments_advance hsome, skipComments_advance hsome']
      exact ih (by rw [Cursor.ahead_advance, Cursor.ahead_advance, h])

theorem skipComments_skipComments (c : Cursor) :
    skipComments (skipComments c) = skipComments c := by
  induction c using skipComments.induct with
  | case1 c hnone => rw [skipComments_eq hnone, skipComments_eq hnone]
  | case2 c n hsome hlt ih => rw [skipComments_advance hsome, ih]

theorem headings_skipComments (s : Scanner) :
    ({ s with cursor := skipComments s.cursor } : Scanner).headings = s.headings := by
  have hscan : ({ s with cursor := skipComments s.cursor } : Scanner).scan = s.scan := by
    simp only [scan, skipComments_skipComments]
    rfl
  rw [headings_eq, hscan, ← headings_eq]

theorem headings_of_endOfText (h : s.scan.last.kind = .endOfText) : s.headings = [] := by
  rw [headings, SectionLabel.ofTokens_succ, if_pos h]
  rfl

theorem lexeme_skipComments (h : (skipComments s.cursor).ahead ≠ []) :
    s.lexeme (skipComments s.cursor) = Lexeme.next s.insidePre (0 < s.listDepth)
      (skipComments s.cursor).atLineStart (skipComments s.cursor).ahead :=
  lexeme_eq_next h

theorem kind_scan_of_skipped (h : (skipComments s.cursor).ahead = []) :
    s.scan.last.kind = .endOfText := by
  have hend : (skipComments s.cursor).atEnd = true := List.isEmpty_iff.2 h
  simp [scan, tokenAt, lexeme, hend]

/-- Where the same is read, the same headings follow if they follow behind it. -/
theorem headings_congr_of_lexeme
    (h : (skipComments s.cursor).ahead = (skipComments s'.cursor).ahead)
    (hlexeme : s.lexeme (skipComments s.cursor) = s'.lexeme (skipComments s'.cursor))
    (hrest : (taken s.scan).2.cursor.ahead = (taken s'.scan).2.cursor.ahead →
      (taken s.scan).2.headings = (taken s'.scan).2.headings) : s.headings = s'.headings := by
  have hahead : s.scan.cursor.ahead = s'.scan.cursor.ahead := by
    simp only [scan, Cursor.ahead_advance, h, hlexeme]
  have hkind : s.scan.last.kind = s'.scan.last.kind := by simp only [scan, tokenAt, hlexeme]
  have hvalue : s.scan.last.value = s'.scan.last.value := by simp only [scan, tokenAt, hlexeme]
  rw [headings_eq, s'.headings_eq]
  exact headingsFromLast_congr hahead hkind hvalue (hrest (taken_congr hahead hkind hvalue).2)

/-! ### Inside preformatted text -/

section

variable {r q : Scanner}

theorem lexeme_insidePre (hr : r.insidePre) (hq : q.insidePre) {c c' : Cursor}
    (h : c.ahead = c'.ahead) : r.lexeme c = q.lexeme c' := by
  unfold lexeme Cursor.atEnd
  rw [h, hr, hq, Lexeme.next_insidePre, Lexeme.next_insidePre (0 < q.listDepth)]

theorem insidePre_taken_scan (s : Scanner) : (taken s.scan).2.insidePre = s.insidePre :=
  (SectionLabel.advances_taken s.scan).insidePre.trans s.advances_scan.insidePre

theorem length_ahead_taken_scan (h : s.scan.last.kind ≠ .endOfText) :
    (taken s.scan).2.cursor.ahead.length < s.cursor.ahead.length :=
  (SectionLabel.length_ahead_taken s.scan).trans_lt (length_ahead_scan h)

/-- Where lines are not looked at, the settings make no difference. -/
theorem headings_congr_insidePre (hr : r.insidePre) (hq : q.insidePre)
    (h : r.cursor.ahead = q.cursor.ahead) : r.headings = q.headings := by
  induction hlength : r.cursor.ahead.length using Nat.strong_induction_on generalizing r q with
  | h n ih =>
      have hskip := skipComments_congr h
      have hlexeme := lexeme_insidePre hr hq hskip
      by_cases hend : r.scan.last.kind = .endOfText
      · have hend' : q.scan.last.kind = .endOfText := by
          rw [← hend]
          simp only [scan, tokenAt, hlexeme]
        rw [headings_of_endOfText hend, headings_of_endOfText hend']
      · refine headings_congr_of_lexeme hskip hlexeme fun hahead => ?_
        refine ih _ (hlength ▸ length_ahead_taken_scan hend) ?_ ?_ hahead rfl
        · rw [insidePre_taken_scan, hr]
        · rw [insidePre_taken_scan, hq]

theorem headings_dropWhile (hr : r.insidePre) (hq : q.insidePre)
    (h : q.cursor.ahead = r.cursor.ahead.dropWhile isSpace) : r.headings = q.headings := by
  cases hhead : r.cursor.ahead.head?.any isSpace with
  | false =>
      refine headings_congr_insidePre hr hq ?_
      rw [h]
      cases hahead : r.cursor.ahead with
      | nil => rfl
      | cons u rest =>
          rw [hahead] at hhead
          exact (List.dropWhile_cons_of_neg (by simpa using hhead)).symm
  | true =>
      have hne : r.cursor.ahead ≠ [] := by
        intro hnil
        rw [hnil] at hhead
        cases hhead
      have hcomment : Lexeme.commentLength? r.cursor.ahead = none := by
        refine Lexeme.commentLength?_eq_none fun hsign => ?_
        rw [hsign] at hhead
        exact absurd hhead (by decide)
      have hlexeme : r.lexeme r.cursor = Lexeme.whiteSpace true false r.cursor.ahead := by
        rw [lexeme_eq_next hne, hr, Lexeme.next_insidePre]
        simp [Lexeme.next, hhead]
      have hreads := r.reads hcomment
      rw [hlexeme] at hreads
      have hkind : r.scan.last.kind ≠ .command := by
        have hkind : r.scan.last.kind = _ := hreads.kind
        rw [hkind]
        exact (Lexeme.whiteSpace_skips true false _).kind
      rw [headings_eq, headingsFromLast_of_ne_command hkind]
      refine headings_congr_insidePre (hr ▸ r.advances_scan.insidePre) hq ?_
      rw [hreads.ahead, h, ← Text.drop_length_takeWhile, ← Lexeme.length_gap_insidePre]
      unfold Lexeme.whiteSpace
      dsimp only
      split <;> rfl

theorem headings_spaces (hr : r.insidePre) (hq : q.insidePre) {spaces : Text}
    (hspaces : ∀ u ∈ spaces, isSpace u) (h : r.cursor.ahead = spaces ++ q.cursor.ahead) :
    r.headings = q.headings := by
  let behind : Scanner :=
    { cursor := Cursor.ofText (q.cursor.ahead.dropWhile isSpace), insidePre := true }
  have hdrop : r.cursor.ahead.dropWhile isSpace = q.cursor.ahead.dropWhile isSpace := by
    rw [h, List.dropWhile_append_of_pos hspaces]
  exact (headings_dropWhile (q := behind) hr rfl hdrop.symm).trans
    (headings_dropWhile (q := behind) hq rfl rfl).symm

theorem headings_marker (hr : r.insidePre) (hq : q.insidePre) {marker : Text}
    (hmarker : ∀ u ∈ marker, isMarkerUnit u) (hrest : q.cursor.ahead.head?.all isSpace)
    (h : r.cursor.ahead = marker ++ q.cursor.ahead) : r.headings = q.headings := by
  by_cases hne : marker = []
  · exact headings_congr_insidePre hr hq (by rw [h, hne, List.nil_append])
  · obtain ⟨u, rest, hcons⟩ := List.exists_cons_of_ne_nil hne
    have hu : isMarkerUnit u := hmarker u (hcons ▸ List.mem_cons_self)
    have hcomment : Lexeme.commentLength? r.cursor.ahead = none := by
      refine Lexeme.commentLength?_eq_none fun hsign => ?_
      rw [h, hcons] at hsign
      exact CodeUnit.ne_of_kind hu (by decide) (Option.some.inj hsign)
    have hlexeme : r.lexeme r.cursor =
        { kind := .word, length := marker.length, value := marker } := by
      have hspace : (marker ++ q.cursor.ahead).head?.any isSpace = false := by
        rw [hcons]
        exact CodeUnit.isSpace_eq_false_of_isMarkerUnit hu
      rw [lexeme_eq_next (by rw [h, hcons]; exact List.cons_ne_nil _ _), hr,
        h, Lexeme.next_insidePre_eq_plain _ _ hspace, Lexeme.plain_marker hmarker hne hrest]
    have hreads := r.reads hcomment
    rw [hlexeme] at hreads
    have hkind : r.scan.last.kind = .word := hreads.kind
    rw [headings_eq, headingsFromLast_of_ne_command (by rw [hkind]; exact nofun)]
    refine headings_congr_insidePre (hr ▸ r.advances_scan.insidePre) hq ?_
    rw [hreads.ahead, h, List.drop_left]

/-- White space ahead with the marker of a list in it makes no difference. -/
theorem headings_skips (hr : r.insidePre) (hq : q.insidePre) {lexeme : Lexeme}
    (hskips : lexeme.Skips r.cursor.ahead)
    (h : q.cursor.ahead = r.cursor.ahead.drop lexeme.length) : r.headings = q.headings := by
  obtain ⟨-, blanks, marker, spaces, rest, hahead, hlength, hblanks, hmarker, hspaces, hhead⟩ :=
    hskips
  have hrest : q.cursor.ahead = rest := by
    rw [h, hlength, hahead, ← List.drop_drop, ← List.drop_drop, List.drop_left, List.drop_left,
      List.drop_left]
  let atMarker : Scanner :=
    { cursor := Cursor.ofText (marker ++ (spaces ++ rest)), insidePre := true }
  let behindMarker : Scanner := { cursor := Cursor.ofText (spaces ++ rest), insidePre := true }
  calc r.headings
      = atMarker.headings := headings_spaces hr rfl hblanks hahead
    _ = behindMarker.headings := by
        by_cases hne : marker = []
        · exact headings_congr_insidePre rfl rfl (by simp [atMarker, behindMarker, hne])
        · exact headings_marker rfl rfl hmarker (hhead hne) rfl
    _ = q.headings := headings_spaces rfl hq hspaces (by rw [hrest]; rfl)

end

theorem headings_eq_insidePre {r : Scanner} (hr : r.insidePre)
    (h : s.cursor.ahead = r.cursor.ahead) : s.headings = r.headings := by
  induction hlength : s.cursor.ahead.length using Nat.strong_induction_on generalizing s r with
  | h n ih =>
      have hskip := skipComments_congr h
      by_cases hnil : (skipComments s.cursor).ahead = []
      · rw [headings_of_endOfText (kind_scan_of_skipped hnil),
          headings_of_endOfText (kind_scan_of_skipped (hskip ▸ hnil))]
      · have hlexeme := lexeme_skipComments hnil
        have hend : s.scan.last.kind ≠ .endOfText := by
          have hproper := Lexeme.next_proper s.insidePre (0 < s.listDepth)
            (skipComments s.cursor).atLineStart (skipComments s.cursor).ahead
          rw [← hlexeme] at hproper
          exact hproper.kind_ne
        rcases Lexeme.next_cases s.insidePre (0 < s.listDepth) (skipComments s.cursor).atLineStart
            (skipComments s.cursor).ahead with hskips | ⟨hspace, hplain⟩
        · rw [← hlexeme] at hskips
          let atSkipped : Scanner := { r with cursor := skipComments r.cursor }
          let behind : Scanner := { cursor := s.scan.cursor, insidePre := true }
          calc s.headings
              = s.scan.headings := by rw [headings_eq, headingsFromLast_of_ne_command hskips.kind]
            _ = behind.headings := ih _ (hlength ▸ length_ahead_scan hend) rfl rfl rfl
            _ = atSkipped.headings := by
                refine (headings_skips (r := atSkipped) (q := behind) hr rfl (hskip ▸ hskips)
                  ?_).symm
                refine (Cursor.ahead_advance ..).trans ?_
                rw [hskip]
            _ = r.headings := headings_skipComments r
        · refine headings_congr_of_lexeme hskip ?_ fun hahead => ?_
          · rw [hlexeme, lexeme_skipComments (hskip ▸ hnil), hr, hplain, ← hskip,
              Lexeme.next_insidePre_eq_plain _ _ hspace]
          · refine ih _ (hlength ▸ length_ahead_taken_scan hend) ?_ hahead rfl
            rw [insidePre_taken_scan, hr]

/-- The headings ahead depend on the text ahead alone. -/
theorem headings_congr (h : s.cursor.ahead = s'.cursor.ahead) : s.headings = s'.headings := by
  let r : Scanner := { cursor := s.cursor, insidePre := true }
  calc s.headings
      = r.headings := headings_eq_insidePre (r := r) rfl rfl
    _ = s'.headings := (headings_eq_insidePre (r := r) rfl h.symm).symm

theorem headingsFromLast_eq_of_ahead (h : s.cursor.ahead = s'.cursor.ahead)
    (hkind : s.last.kind = s'.last.kind) (hvalue : s.last.value = s'.last.value) :
    s.headingsFromLast = s'.headingsFromLast :=
  headingsFromLast_congr h hkind hvalue (headings_congr (taken_congr h hkind hvalue).2)

theorem headings_skipHorizontalSpace (s : Scanner) :
    s.skipHorizontalSpace.headings = s.headings := by
  let skipped : Scanner := { cursor := s.skipHorizontalSpace.cursor, insidePre := true }
  let unskipped : Scanner := { cursor := s.cursor, insidePre := true }
  have hspaces : ∀ u ∈ s.cursor.ahead.takeWhile isHorizontalSpace, isSpace u := fun u hu =>
    Lexeme.isSpace_of_isHorizontalSpace (List.mem_takeWhile_imp hu)
  have hahead : s.cursor.ahead =
      s.cursor.ahead.takeWhile isHorizontalSpace ++ s.skipHorizontalSpace.cursor.ahead := by
    rw [skipHorizontalSpace, Cursor.advanceWhile, Cursor.ahead_advance, Text.drop_length_takeWhile,
      List.takeWhile_append_dropWhile]
  calc s.skipHorizontalSpace.headings
      = skipped.headings := headings_congr rfl
    _ = unskipped.headings :=
        (headings_spaces (r := unskipped) (q := skipped) rfl rfl hspaces hahead).symm
    _ = s.headings := headings_congr rfl

theorem headingsFromLast_of_atEnd (h : s.cursor.ahead = []) : s.headingsFromLast = [] := by
  have hargument : s.readArgument.1 = none := by
    simp [readArgument, skipHorizontalSpace, Cursor.advanceWhile, Cursor.ahead_advance, h]
  have hlabel : (taken s).1.bind SectionLabel.heading? = none := by
    unfold taken SectionLabel.declared?
    split
    · split
      · rfl
      · split
        · rfl
        · generalize s.readArgument = read at hargument
          obtain ⟨label, s'⟩ := read
          obtain rfl : label = none := hargument
          rfl
    · rfl
  have hrest : (taken s).2.cursor.ahead = [] := by
    have hle := SectionLabel.length_ahead_taken s
    rw [h, List.length_nil] at hle
    exact List.length_eq_zero_iff.1 (Nat.le_zero.1 hle)
  rw [headingsFromLast, hlabel, headings_of_atEnd hrest]
  rfl

/-- Only section commands declare sections. -/
theorem heading_taken_eq_none (h : Command.sectionLevel? s.last.value = none) :
    (taken s).1.bind SectionLabel.heading? = none := by
  unfold taken SectionLabel.declared? SectionLabel.level?
  rw [h]
  split
  · split
    · rfl
    · split
      · rfl
      · next level hlevel =>
        have hzero : level = 0 := by
          split at hlevel
          · exact (Option.some.inj hlevel).symm
          · cases hlevel
        split
        · rfl
        · rw [hzero]
          rfl
  · rfl

theorem ne_nil_of_readArgument {label : Text} (h : s.readArgument.1 = some label) :
    label ≠ [] := by
  unfold readArgument at h
  dsimp only at h
  split at h
  · cases h
  · next hne =>
    obtain rfl := Option.some.inj h
    simpa using hne

section

variable {level : Nat} (hkind : s.last.kind = .command)
  (hraw : SectionLabel.rawEnding? s.last.value = none)
  (hlevel : SectionLabel.level? s.last.value = some level)

include hkind hraw hlevel

theorem taken_of_readArgument_eq_none (h : s.readArgument.1 = none) :
    taken s = (none, s.readArgument.2) := by
  unfold taken SectionLabel.declared?
  rw [if_pos hkind, hraw, hlevel]
  dsimp only
  generalize s.readArgument = read at h
  obtain ⟨label?, s'⟩ := read
  obtain rfl : label? = none := h
  rfl

theorem taken_of_readArgument_eq_some {label : Text} (h : s.readArgument.1 = some label)
    (hne : level ≠ 0) :
    (taken s).1.bind SectionLabel.heading? = some ⟨label, level, s.readArgument.2.readLine.1⟩ ∧
      (taken s).2 = s.readArgument.2.readLine.2 := by
  unfold taken SectionLabel.declared?
  rw [if_pos hkind, hraw, hlevel]
  dsimp only
  generalize s.readArgument = read at h
  obtain ⟨label?, s'⟩ := read
  obtain rfl : label? = some label := h
  dsimp only
  rw [if_neg (by simpa using hne)]
  exact ⟨if_neg hne, rfl⟩

end

end Scanner

namespace SectionLabel

/-- The texts that the pre-scan comes to from a text on, itself first, up to the first section. -/
def placesAhead : Nat → Text → List Text
  | 0, t => [t]
  | n + 1, t =>
    let next := taken (Scanner.ofText t).scan
    if (next.1.bind heading?).isSome then [t] else t :: placesAhead n next.2.cursor.ahead

/-- From either text on the pre-scan comes to the same place, and finds no section on the way. -/
def Joins (t u : Text) : Prop :=
  ∃ v ∈ placesAhead (t.length + 1) t, v ∈ placesAhead (u.length + 1) u

instance (t u : Text) : Decidable (Joins t u) :=
  inferInstanceAs (Decidable (∃ v ∈ placesAhead (t.length + 1) t, _))

theorem headings_of_mem_placesAhead {n : Nat} {t u : Text} (h : u ∈ placesAhead n t) :
    (Scanner.ofText t).headings = (Scanner.ofText u).headings := by
  induction n generalizing t with
  | zero => rw [List.mem_singleton.1 h]
  | succ n ih =>
      rw [placesAhead] at h
      cases hfound : (taken (Scanner.ofText t).scan).1.bind heading? with
      | some heading =>
          rw [hfound] at h
          rw [List.mem_singleton.1 h]
      | none =>
          rw [hfound] at h
          rcases List.mem_cons.1 h with rfl | hlater
          · rfl
          · rw [Scanner.headings_eq, Scanner.headingsFromLast, hfound, ← ih hlater]
            exact Scanner.headings_congr rfl

theorem Joins.headings {s s' : Scanner} (h : Joins s.cursor.ahead s'.cursor.ahead) :
    s.headings = s'.headings := by
  obtain ⟨v, hs, hs'⟩ := h
  calc s.headings
      = (Scanner.ofText s.cursor.ahead).headings := Scanner.headings_congr rfl
    _ = (Scanner.ofText v).headings := headings_of_mem_placesAhead hs
    _ = (Scanner.ofText s'.cursor.ahead).headings := (headings_of_mem_placesAhead hs').symm
    _ = s'.headings := Scanner.headings_congr rfl

end SectionLabel

end DocMarkup
