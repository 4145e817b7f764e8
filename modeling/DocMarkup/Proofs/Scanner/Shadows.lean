import DocMarkup.Proofs.Scanner.LineEnds
import DocMarkup.Proofs.Scanner.Terminators

/-!
Scanners that stand at the same place of a text, once with line ends of one unit and once with line
ends of two.  They scan the same tokens and read the same arguments, as long as no line that ends a
list is taken with its line end.
-/

namespace DocMarkup

open CodeUnit (isLineBreak lineFeed carriageReturn)
open Text (crlfOffset crlf_cons crlf_append crlf_nil)

/-! ### Places -/

namespace Cursor

/-- The same place in the text with carriage returns. -/
def crlf (c : Cursor) : Cursor where
  behind := (Text.crlf c.behind.reverse).reverse
  ahead := Text.crlf c.ahead
  offset := (Text.crlf c.behind.reverse).length
  offset_eq := (List.length_reverse ..).symm

/-- A place is known by its offset. -/
theorem eq_of_offset {c c' : Cursor} (htext : c.text = c'.text) (hoffset : c.offset = c'.offset) :
    c = c' := by
  have hahead : c.ahead = c'.ahead := by rw [← c.drop_offset, ← c'.drop_offset, htext, hoffset]
  have hbehind : c.behind = c'.behind := by
    rw [text, text, hahead] at htext
    exact List.reverse_injective (List.append_cancel_right htext)
  rcases c with ⟨behind, ahead, offset, h⟩
  rcases c' with ⟨behind', ahead', offset', h'⟩
  dsimp only at hahead hbehind hoffset
  subst hahead hbehind hoffset
  rfl

theorem text_crlf (c : Cursor) : c.crlf.text = Text.crlf c.text := by
  rw [text, text, crlf_append, crlf, List.reverse_reverse]

theorem take_offset (c : Cursor) : c.text.take c.offset = c.behind.reverse := by
  rw [text, c.offset_eq]
  exact List.take_left' (List.length_reverse ..)

theorem offset_crlf (c : Cursor) : c.crlf.offset = crlfOffset c.text c.offset := by
  rw [crlfOffset, take_offset]
  rfl

theorem crlf_advance (n : Nat) (c : Cursor) :
    (c.advance n).crlf = c.crlf.advance (crlfOffset c.ahead n) := by
  refine eq_of_offset ?_ ?_
  · rw [text_crlf, text_advance, text_advance, text_crlf]
  · rw [offset_crlf, text_advance, offset_advance, offset_advance, offset_crlf,
      Text.crlfOffset_add, drop_offset]
    have hle : crlfOffset c.ahead n ≤ (Text.crlf c.ahead).length := Text.crlfOffset_le ..
    have hmin : crlfOffset c.ahead (min n c.ahead.length) = crlfOffset c.ahead n := by
      rw [crlfOffset, crlfOffset, List.take_eq_take_min (i := n)]
    rw [hmin]
    exact congrArg _ (min_eq_left hle).symm

theorem crlf_moveTo {target : Nat} {c : Cursor} (h : target ≤ c.text.length) :
    (c.moveTo target).crlf = c.crlf.moveTo (crlfOffset c.text target) := by
  refine eq_of_offset ?_ ?_
  · rw [text_crlf, text_moveTo, text_moveTo, text_crlf]
  · rw [offset_crlf, text_moveTo, offset_moveTo h, offset_moveTo]
    rw [text_crlf]
    exact Text.crlfOffset_le ..

theorem atEnd_crlf (c : Cursor) : c.crlf.atEnd = c.atEnd := Text.isEmpty_crlf c.ahead

theorem previous?_crlf (c : Cursor) : c.crlf.previous? = c.previous? := by
  rcases c with ⟨_ | ⟨u, behind⟩, ahead, offset, h⟩
  · rfl
  · show (Text.crlf (u :: behind).reverse).reverse.head? = some u
    rw [List.reverse_cons, crlf_append, List.reverse_append]
    by_cases hu : u = lineFeed
    · rw [hu]
      rfl
    · rw [crlf_cons hu]
      rfl

/-- Behind some units the last of them is the unit behind. -/
theorem previous?_advance {c : Cursor} {before rest : Text} {u : CodeUnit}
    (h : c.ahead = before ++ u :: rest) : (c.advance (before.length + 1)).previous? = some u := by
  induction before generalizing c with
  | nil =>
      rcases c with ⟨behind, ahead, offset, hoffset⟩
      cases h
      rfl
  | cons v before ih =>
      rcases c with ⟨behind, ahead, offset, hoffset⟩
      cases h
      exact ih (c := ⟨v :: behind, before ++ u :: rest, offset + 1, by simp [hoffset]⟩) rfl

theorem atLineStart_crlf (c : Cursor) : c.crlf.atLineStart = c.atLineStart := by
  rw [atLineStart, atLineStart, previous?_crlf]

end Cursor

/-! ### Tokens -/

namespace Token

/-- The same token in a text with carriage returns, where offsets are moved.  The names of commands
and the texts of keywords are taken as they are. -/
def crlf (move : Nat → Nat) (token : Token) : Token :=
  { token with
    start := move token.start
    stop := move token.stop
    text :=
      if token.kind == .command || token.kind == .keyword then token.text
      else Text.crlf token.text
    value := if token.isBlank then Text.crlf token.value else token.value
    attributes := token.attributes.mapValues Text.crlf }

variable {move : Nat → Nat} {token : Token}

theorem kind_crlf : (token.crlf move).kind = token.kind := rfl

theorem flags_crlf : (token.crlf move).flags = token.flags := rfl

theorem isInWord_crlf : (token.crlf move).isInWord = token.isInWord := rfl

theorem isBlank_crlf : (token.crlf move).isBlank = token.isBlank := rfl

theorem isStructural_crlf : (token.crlf move).isStructural = token.isStructural := rfl

theorem isBlank_of_isInWord (h : token.isInWord = true) : token.isBlank = false := by
  unfold isInWord at h
  unfold isBlank
  cases hkind : token.kind <;> rw [hkind] at h <;> first | rfl | cases h

theorem value_crlf (h : token.isBlank = false) : (token.crlf move).value = token.value := by
  unfold crlf
  rw [h]
  rfl

theorem isBlank_of_kind {kind : TokenKind} (h : token.kind = kind)
    (hkind : kind ≠ .whiteSpace ∧ kind ≠ .newParagraph) : token.isBlank = false := by
  rw [isBlank, h, beq_false_of_ne hkind.1, beq_false_of_ne hkind.2]
  rfl

theorem isBlank_of_isStartTag {names : List String} (h : token.isStartTag names = true) :
    token.isBlank = false :=
  isBlank_of_kind (eq_of_beq (Bool.and_eq_true_iff.1 h).1) (by decide)

/-- White space apart, tokens are told apart by kinds and values that both have. -/
theorem named_crlf {kind : TokenKind} (hkind : kind ≠ .whiteSpace ∧ kind ≠ .newParagraph)
    (p : Text → Bool) :
    ((token.crlf move).kind == kind && p (token.crlf move).value) =
      (token.kind == kind && p token.value) := by
  rw [kind_crlf]
  cases h : token.kind == kind with
  | false => rfl
  | true => rw [value_crlf (isBlank_of_kind (eq_of_beq h) hkind)]

@[simp]
theorem isCommand_crlf (names : List String) :
    (token.crlf move).isCommand names = token.isCommand names :=
  named_crlf (by decide) fun value => names.any (units · == value)

@[simp]
theorem isStartTag_crlf (names : List String) :
    (token.crlf move).isStartTag names = token.isStartTag names :=
  named_crlf (by decide) fun value => names.any (units · == value)

@[simp]
theorem isEndTag_crlf (names : List String) :
    (token.crlf move).isEndTag names = token.isEndTag names :=
  named_crlf (by decide) fun value => names.any (units · == value)

theorem text_crlf (h : token.kind = .command ∨ token.kind = .keyword) :
    (token.crlf move).text = token.text := by
  rw [← beq_iff_eq, ← beq_iff_eq (b := TokenKind.keyword), ← Bool.or_eq_true] at h
  exact if_pos h

@[simp]
theorem dropReturns_text_crlf :
    Text.dropReturns (token.crlf move).text = Text.dropReturns token.text := by
  unfold crlf
  dsimp only
  split
  · rfl
  · exact Text.dropReturns_crlf ..

end Token

namespace Scanner

theorem tokenAt_crlf {c : Cursor} {lexeme : Lexeme} (hfits : lexeme.Fits c.ahead)
    (hnamed : lexeme.kind = .command ∨ lexeme.kind = .keyword →
      lineFeed ∉ c.ahead.take lexeme.length) :
    tokenAt c.crlf (lexeme.crlf c.ahead) = (tokenAt c lexeme).crlf (crlfOffset c.text) := by
  have htext : lexeme.payload.getD (Text.crlf (c.ahead.take lexeme.length)) =
      if lexeme.kind == .command || lexeme.kind == .keyword then
        lexeme.payload.getD (c.ahead.take lexeme.length)
      else Text.crlf (lexeme.payload.getD (c.ahead.take lexeme.length)) := by
    split
    · next hkind =>
      rw [Bool.or_eq_true, beq_iff_eq, beq_iff_eq] at hkind
      rw [Text.crlf_eq_self (hnamed hkind)]
    · next hkind =>
      simp only [Bool.or_eq_true, beq_iff_eq, not_or] at hkind
      rw [hfits.payload_eq hkind.2]
      rfl
  have hstop : (c.crlf.advance (crlfOffset c.ahead lexeme.length)).offset =
      crlfOffset c.text (c.advance lexeme.length).offset := by
    rw [← Cursor.crlf_advance, Cursor.offset_crlf, Cursor.text_advance]
  have htake : c.crlf.ahead.take (crlfOffset c.ahead lexeme.length) =
      Text.crlf (c.ahead.take lexeme.length) := Text.take_crlf ..
  unfold tokenAt Token.crlf
  dsimp only [Lexeme.crlf]
  rw [Cursor.previous?_crlf, Cursor.atLineStart_crlf, Cursor.offset_crlf, hstop, htake, htext]
  rfl

theorem skipComments_crlf (c : Cursor) : skipComments c.crlf = (skipComments c).crlf := by
  have hlength (c : Cursor) :
      Lexeme.commentLength? c.crlf.ahead = (Lexeme.commentLength? c.ahead).map (crlfOffset c.ahead) :=
    Lexeme.commentLength?_crlf c.ahead
  induction c using skipComments.induct with
  | case1 c h => rw [skipComments_eq h, skipComments_eq (by rw [hlength, h]; rfl)]
  | case2 c n h hlt ih =>
      rw [skipComments_advance h, skipComments_advance (by rw [hlength, h]; rfl), ← ih,
        Cursor.crlf_advance]

/-- Whether the next token ends a list on a line that goes on. -/
def breaksListEnd (s : Scanner) : Bool :=
  s.scan.last.kind == .endList && s.scan.last.text.contains lineFeed

/-- Behind a comment no line starts. -/
theorem atLineStart_skipComments {c : Cursor} (h : c.atLineStart = false) :
    (skipComments c).atLineStart = false ∨ (skipComments c).atEnd = true := by
  induction c using skipComments.induct with
  | case1 c hnone => rw [skipComments_eq hnone]; exact Or.inl h
  | case2 c n hsome hlt ih =>
      rw [skipComments_advance hsome]
      unfold Lexeme.commentLength? at hsome
      split at hsome
      · split at hsome
        · next i hindex =>
          cases hsome
          refine ih ?_
          obtain ⟨rest, hrest⟩ := (Text.of_indexOf?_eq_some hindex).1
          rw [List.drop_drop] at hrest
          have hlength := congrArg List.length hrest
          rw [List.length_append, List.length_drop] at hlength
          have hthree : (units "-->").length = 3 := rfl
          have hahead : c.ahead = (c.ahead.take (4 + i) ++ units "--") ++ unit '>' :: rest := by
            conv_lhs => rw [← List.take_append_drop (4 + i) c.ahead, ← hrest]
            rw [List.append_assoc]
            rfl
          have hbefore : (c.ahead.take (4 + i) ++ units "--").length + 1 = i + 7 := by
            have htwo : (units "--").length = 2 := rfl
            rw [List.length_append, List.length_take, htwo]
            omega
          rw [Cursor.atLineStart, ← hbefore, Cursor.previous?_advance hahead]
          decide
        · cases hsome
          right
          have hend : (c.advance c.ahead.length).ahead = [] := by
            rw [Cursor.ahead_advance, List.drop_length]
          rw [skipComments_eq (by rw [hend]; rfl), Cursor.atEnd, hend]
          rfl
      · cases hsome

/-- A token that ends a list begins its line, with the space in front of it. -/
theorem breaksListEnd_skipHorizontalSpace {s : Scanner} (h : s.breaksListEnd = false) :
    s.skipHorizontalSpace.breaksListEnd = false := by
  rcases List.eq_nil_or_concat (s.cursor.ahead.takeWhile CodeUnit.isHorizontalSpace) with
    hrun | ⟨spaces, u, hrun⟩
  · have hsame : s.skipHorizontalSpace = s := by
      rw [skipHorizontalSpace, Cursor.advanceWhile, hrun]
      rfl
    rwa [hsame]
  · have hahead : s.cursor.ahead =
        spaces ++ u :: s.cursor.ahead.dropWhile CodeUnit.isHorizontalSpace := by
      have hsplit := List.takeWhile_append_dropWhile (p := CodeUnit.isHorizontalSpace)
        (l := s.cursor.ahead)
      rw [hrun, List.concat_eq_append, List.append_assoc] at hsplit
      exact hsplit.symm
    have hu : CodeUnit.isHorizontalSpace u := by
      refine List.mem_takeWhile_imp (l := s.cursor.ahead) ?_
      rw [hrun, List.concat_eq_append]
      exact List.mem_append_right spaces List.mem_cons_self
    have hstart : s.skipHorizontalSpace.cursor.atLineStart = false := by
      have hlength : (s.cursor.ahead.takeWhile CodeUnit.isHorizontalSpace).length =
          spaces.length + 1 := by rw [hrun, List.concat_eq_append, List.length_append]; rfl
      show (s.cursor.advance _).atLineStart = false
      rw [hlength, Cursor.atLineStart, Cursor.previous?_advance hahead]
      refine beq_false_of_ne ?_
      rintro rfl
      cases hu
    have hkind : s.skipHorizontalSpace.scan.last.kind ≠ .endList := by
      intro hkind
      have hlexeme : (s.skipHorizontalSpace.lexeme
        (skipComments s.skipHorizontalSpace.cursor)).kind = .endList := hkind
      unfold lexeme at hlexeme
      split at hlexeme
      · cases hlexeme
      · next hend =>
        have hline := Lexeme.atLineStart_of_endList hlexeme
        rcases atLineStart_skipComments hstart with hinside | hinside
        · rw [hinside] at hline
          cases hline
        · exact hend hinside
    rw [breaksListEnd, beq_false_of_ne hkind, Bool.false_and]

theorem lexeme_named {s : Scanner} {c : Cursor}
    (hkind : (s.lexeme c).kind = .command ∨ (s.lexeme c).kind = .keyword) :
    lineFeed ∉ c.ahead.take (s.lexeme c).length := by
  unfold lexeme at hkind ⊢
  split at hkind
  · rcases hkind with hkind | hkind <;> cases hkind
  · next hend =>
    rw [if_neg hend]
    refine Lexeme.next_named _ _ _ ?_ hkind
    rintro hnil
    rw [Cursor.atEnd, hnil] at hend
    exact hend rfl

/-- A scanner at the same place in the text with carriage returns.  The last token need not be the
same, as no reader looks at it. -/
structure Shadows (s s' : Scanner) : Prop where
  cursor : s'.cursor = s.cursor.crlf
  insidePre : s'.insidePre = s.insidePre
  listDepth : s'.listDepth = s.listDepth

namespace Shadows

variable {s s' : Scanner}

theorem lexeme (h : Shadows s s') {c : Cursor}
    (hlist : (s.lexeme c).kind = .endList → lineFeed ∉ c.ahead.take (s.lexeme c).length) :
    s'.lexeme c.crlf = (s.lexeme c).crlf c.ahead := by
  unfold Scanner.lexeme at hlist ⊢
  rw [Cursor.atEnd_crlf, h.insidePre, h.listDepth]
  split
  · rfl
  · next hend =>
    rw [if_neg hend] at hlist
    rw [Cursor.atLineStart_crlf]
    refine Lexeme.next_crlf _ _ _ ?_ hlist
    rintro hnil
    rw [Cursor.atEnd, hnil] at hend
    exact hend rfl

/-- The two scan the same token. -/
theorem scan (h : Shadows s s') (hlist : s.breaksListEnd = false) :
    Shadows s.scan s'.scan ∧ s'.scan.last = s.scan.last.crlf (crlfOffset s.text) := by
  have htext : (skipComments s.cursor).text = s.text := (skipComments_spec s.cursor).1
  have hstart : skipComments s'.cursor = (skipComments s.cursor).crlf := by
    rw [h.cursor, skipComments_crlf]
  have hfits := s.lexeme_fits (skipComments s.cursor)
  have hlexeme := h.lexeme (c := skipComments s.cursor) fun hkind hmem => by
    have hpayload := hfits.payload_eq (by rw [hkind]; decide)
    have hlast : s.scan.last.text.contains lineFeed = true := by
      show ((s.lexeme _).payload.getD _).contains lineFeed = true
      rw [hpayload]
      exact List.contains_iff_mem.2 hmem
    have hscan : s.scan.last.kind = .endList := hkind
    rw [breaksListEnd, hscan, hlast] at hlist
    cases hlist
  have hlast : s'.scan.last = s.scan.last.crlf (crlfOffset s.text) := by
    show tokenAt (skipComments s'.cursor) (s'.lexeme (skipComments s'.cursor)) = _
    rw [hstart, hlexeme, tokenAt_crlf hfits lexeme_named, htext]
    rfl
  refine ⟨⟨?_, h.insidePre, h.listDepth⟩, hlast⟩
  show (skipComments s'.cursor).advance (s'.lexeme (skipComments s'.cursor)).length = _
  rw [hstart, hlexeme]
  exact (Cursor.crlf_advance ..).symm

theorem token (h : Shadows s s') (hlist : s.breaksListEnd = false) :
    s'.scan.token = s.scan.token.crlf (crlfOffset s.text) := by
  obtain ⟨hscan, hlast⟩ := h.scan hlist
  have hoffset : s'.scan.cursor.offset = crlfOffset s.text s.scan.cursor.offset := by
    rw [hscan.cursor, Cursor.offset_crlf, ← s.advances_scan.text]
    rfl
  rw [Scanner.token, Scanner.token, hlast, hoffset]
  rfl

/-! ### Arguments -/

theorem advance (h : Shadows s s') (n : Nat) :
    Shadows { s with cursor := s.cursor.advance n }
      { s' with cursor := s'.cursor.advance (crlfOffset s.cursor.ahead n) } where
  cursor := by rw [Cursor.crlf_advance, h.cursor]
  insidePre := h.insidePre
  listDepth := h.listDepth

/-- Where no line ends the two go on by the same number of units. -/
theorem advance_line (h : Shadows s s') {n : Nat} (hfeed : lineFeed ∉ s.cursor.ahead.take n)
    (hn : n ≤ s.cursor.ahead.length) :
    Shadows { s with cursor := s.cursor.advance n }
      { s' with cursor := s'.cursor.advance n } := by
  have hadvance := h.advance n
  rwa [Text.crlfOffset_eq_self hfeed hn] at hadvance

theorem ahead (h : Shadows s s') : s'.cursor.ahead = Text.crlf s.cursor.ahead := by
  rw [h.cursor]
  rfl

/-- Past a run of units that line ends do not belong to. -/
theorem advance_run (h : Shadows s s') {p : CodeUnit → Bool} (hreturn : p carriageReturn = false)
    (hfeed : p lineFeed = false) :
    s'.cursor.ahead.takeWhile p = s.cursor.ahead.takeWhile p ∧
      Shadows { s with cursor := s.cursor.advance (s.cursor.ahead.takeWhile p).length }
        { s' with cursor := s'.cursor.advance (s.cursor.ahead.takeWhile p).length } := by
  have hprefix := List.takeWhile_prefix (l := s.cursor.ahead) p
  have hline := Lexeme.lineFeed_not_mem (Text.isUnbroken_takeWhile hreturn hfeed s.cursor.ahead)
  refine ⟨by rw [h.ahead, Text.takeWhile_crlf_eq hreturn hfeed], h.advance_line ?_ hprefix.length_le⟩
  rwa [← List.prefix_iff_eq_take.1 hprefix]

theorem skipHorizontalSpace (h : Shadows s s') :
    Shadows s.skipHorizontalSpace s'.skipHorizontalSpace := by
  obtain ⟨hrun, hadvance⟩ := h.advance_run (p := CodeUnit.isHorizontalSpace) rfl rfl
  unfold Scanner.skipHorizontalSpace Cursor.advanceWhile
  rwa [hrun]

theorem readArgument (h : Shadows s s') :
    s'.readArgument.1 = s.readArgument.1 ∧ Shadows s.readArgument.2 s'.readArgument.2 := by
  have hspace := h.skipHorizontalSpace
  obtain ⟨hrun, hadvance⟩ := hspace.advance_run (p := fun u => !CodeUnit.isSpace u) rfl rfl
  unfold Scanner.readArgument
  dsimp only
  rw [hrun]
  split
  · exact ⟨rfl, hspace⟩
  · exact ⟨rfl, hadvance⟩

theorem readLine (h : Shadows s s') :
    s'.readLine.1 = s.readLine.1 ∧ Shadows s.readLine.2 s'.readLine.2 := by
  obtain ⟨hrun, hadvance⟩ := h.advance_run (p := fun u => !isLineBreak u) rfl rfl
  unfold Scanner.readLine
  dsimp only
  rw [hrun]
  exact ⟨rfl, hadvance⟩

theorem readQuoted (h : Shadows s s') :
    s'.readQuoted.1 = s.readQuoted.1 ∧ Shadows s.readQuoted.2 s'.readQuoted.2 := by
  have hspace := h.skipHorizontalSpace
  have hahead : (s'.cursor.advanceWhile CodeUnit.isHorizontalSpace).ahead =
      Text.crlf (s.cursor.advanceWhile CodeUnit.isHorizontalSpace).ahead := hspace.ahead
  unfold Scanner.readQuoted
  dsimp only
  cases ha : (s.cursor.advanceWhile CodeUnit.isHorizontalSpace).ahead with
  | nil =>
      rw [ha] at hahead
      simp only [hahead, crlf_nil, true_and]
      exact h
  | cons u rest =>
      rw [ha] at hahead
      -- the rest of the line holds no line end, so beyond its first unit both texts are alike
      by_cases hu : u = lineFeed
      · rw [hu, Text.crlf_lineFeed] at hahead
        rw [hu]
        simp only [hahead]
        exact ⟨rfl, h⟩
      · rw [crlf_cons hu] at hahead
        simp only [hahead]
        rw [Text.takeWhile_crlf_eq (by rfl) (by rfl), Text.drop_run_crlf (by rfl) (by rfl),
          Text.head?_crlf_eq (by decide) (by decide)]
        split
        · next hclosed =>
          have hline : s.skipHorizontalSpace.cursor.ahead = u :: rest := ha
          have hbody := Text.isUnbroken_takeWhile
            (p := fun v => v != unit '"' && !isLineBreak v) rfl rfl rest
          have htake := List.prefix_iff_eq_take.1 (List.takeWhile_prefix (l := rest)
            fun v => v != unit '"' && !isLineBreak v)
          obtain ⟨after, hafter⟩ :=
            List.head?_eq_some_iff.1 (eq_of_beq (Bool.and_eq_true_iff.1 hclosed).2)
          generalize rest.takeWhile (fun v => v != unit '"' && !isLineBreak v) = body at *
          refine ⟨rfl, hspace.advance_line ?_ ?_⟩
          · rw [hline, List.take_succ_cons, List.take_add, ← htake, hafter]
            simp only [List.mem_cons, List.mem_append, List.take_succ_cons, List.take_zero,
              List.not_mem_nil, not_or, or_false]
            exact ⟨Ne.symm hu, Lexeme.lineFeed_not_mem hbody, by decide⟩
          · have hlength := congrArg List.length hafter
            rw [List.length_drop, List.length_cons] at hlength
            rw [hline, List.length_cons]
            omega
        · exact ⟨rfl, h⟩

theorem readAttached (h : Shadows s s') {opening closing : CodeUnit}
    (hopening : isLineBreak opening = false) (hclosing : isLineBreak closing = false) :
    (s'.readAttached [opening] [closing]).1 = (s.readAttached [opening] [closing]).1 ∧
      Shadows (s.readAttached [opening] [closing]).2 (s'.readAttached [opening] [closing]).2 := by
  -- no unit of a line end is the opening sign, so it stands in both texts or in neither
  have hopens : (s'.cursor.ahead.take 1 != [opening]) = (s.cursor.ahead.take 1 != [opening]) := by
    obtain ⟨hfeed, hreturn⟩ := Text.ne_of_not_isLineBreak hopening
    rw [h.ahead]
    cases s.cursor.ahead with
    | nil => rfl
    | cons u rest =>
        by_cases hu : u = lineFeed
        · have hother {v : CodeUnit} (hv : opening ≠ v) : ([v] != [opening]) = true := by
            simpa using hv.symm
          rw [hu, Text.crlf_lineFeed]
          exact (hother hreturn).trans (hother hfeed).symm
        · rw [crlf_cons hu]
          rfl
  unfold Scanner.readAttached
  dsimp only
  rw [hopens]
  split
  · exact ⟨rfl, h⟩
  · next hopened =>
    obtain ⟨rest, hrest⟩ : ∃ rest, s.cursor.ahead = opening :: rest := by
      cases hrest : s.cursor.ahead with
      | nil => rw [hrest] at hopened; exact absurd rfl hopened
      | cons u rest =>
          rw [hrest] at hopened
          refine ⟨rest, ?_⟩
          simpa using hopened
    have hahead : s'.cursor.ahead = opening :: Text.crlf rest := by
      rw [h.ahead, hrest, crlf_cons (Text.ne_of_not_isLineBreak hopening).1]
    have hdrop (t : Text) : (opening :: t).drop 1 = t := rfl
    have hneedle : Text.IsUnbroken [closing] := List.forall_mem_singleton.2 hclosing
    rw [hahead, hrest, hdrop, hdrop, Text.indexOf?_crlf hneedle (List.cons_ne_nil _ _)]
    cases hindex : Text.indexOf? [closing] rest with
    | none => exact ⟨rfl, h⟩
    | some length =>
        obtain ⟨after, hafter⟩ := (Text.of_indexOf?_eq_some hindex).1
        have hlength := congrArg List.length hafter
        rw [List.length_append, List.length_singleton, List.length_drop] at hlength
        dsimp only [Option.map_some]
        simp only [Text.any_indexOf?_lt, List.take_succ_cons, List.mem_cons, Text.take_crlf,
          Text.lineFeed_mem_crlf]
        split
        · exact ⟨rfl, h⟩
        · next hline =>
          rw [not_or] at hline
          -- without a line feed up to the closing sign both scanners move equally far
          have hoffset := Text.crlfOffset_eq_self hline.2 (by omega)
          rw [Text.crlf_eq_self hline.2, hoffset]
          refine ⟨rfl, h.advance_line ?_ ?_⟩
          · rw [hrest, List.take_succ_cons, List.take_add, ← hafter]
            simp only [List.mem_cons, List.mem_append, List.singleton_append,
              List.take_succ_cons, List.take_zero, List.not_mem_nil, not_or, or_false]
            exact ⟨hline.1, hline.2, (Text.ne_of_not_isLineBreak hclosing).1.symm⟩
          · rw [hrest, List.length_cons]
            omega

theorem moveTo? (h : Shadows s s') {offset : Nat} (hoffset : offset ≤ s.text.length) :
    s'.moveTo? (crlfOffset s.text offset) = some (s'.moveTo (crlfOffset s.text offset)) ∧
      Shadows (s.moveTo offset) (s'.moveTo (crlfOffset s.text offset)) := by
  have htext : s'.text = Text.crlf s.text := by
    rw [Scanner.text, h.cursor, Cursor.text_crlf]
    rfl
  refine ⟨moveTo?_of_le ?_, ?_, h.insidePre, h.listDepth⟩
  · rw [htext]
    exact Text.crlfOffset_le ..
  · show s'.cursor.moveTo (crlfOffset s.cursor.text offset) = (s.cursor.moveTo offset).crlf
    rw [h.cursor, Cursor.crlf_moveTo hoffset]

end Shadows

/-! ### Raw blocks -/

theorem marksHere_crlf {marker : Text} (hmarker : marker.IsUnbroken) (t : Text) :
    marksHere marker (Text.crlf t) = marksHere marker t := by
  unfold marksHere
  rw [Text.isPrefixOf_crlf hmarker]
  cases hprefix : marker.isPrefixOf t with
  | false => rfl
  | true =>
      obtain ⟨rest, rfl⟩ := List.isPrefixOf_iff_prefix.1 hprefix
      rw [crlf_append, Text.crlf_eq_self (Lexeme.lineFeed_not_mem hmarker), List.drop_left,
        List.drop_left, Text.any_head?_crlf (by rfl)]

theorem find?_marksHere_lineBreak {markers : List Text}
    (hmarkers : ∀ marker ∈ markers, marker.IsUnbroken ∧ marker ≠ []) {u : CodeUnit}
    (hu : isLineBreak u) (t : Text) : markers.find? (marksHere · (u :: t)) = none := by
  refine List.find?_eq_none.2 fun marker hmem hhere => ?_
  obtain ⟨hline, hne⟩ := hmarkers marker hmem
  obtain ⟨c, rest, rfl⟩ := List.exists_cons_of_ne_nil hne
  obtain ⟨after, hafter⟩ := List.isPrefixOf_iff_prefix.1 (Bool.and_eq_true_iff.1 hhere).1
  rw [← (List.cons.inj hafter).1, (Text.isUnbroken_cons.1 hline).1] at hu
  cases hu

theorem findMarker?_crlf {markers : List Text}
    (hmarkers : ∀ marker ∈ markers, marker.IsUnbroken ∧ marker ≠ []) (t : Text) :
    findMarker? markers (Text.crlf t) =
      (findMarker? markers t).map fun found => (crlfOffset t found.1, found.2) := by
  induction t with
  | nil =>
      rw [crlf_nil, findMarker?]
      cases markers.find? (marksHere · []) <;> rfl
  | cons u rest ih =>
      by_cases hu : u = lineFeed
      · rw [hu, Text.crlf_lineFeed, findMarker?, findMarker?, findMarker?,
          find?_marksHere_lineBreak hmarkers rfl, find?_marksHere_lineBreak hmarkers rfl,
          find?_marksHere_lineBreak hmarkers rfl, ih]
        cases findMarker? markers rest with
        | none => rfl
        | some found =>
            dsimp only [Option.map_some]
            rw [Text.crlfOffset_succ, Nat.add_comm (Text.crlf [lineFeed]).length]
            rfl
      · have hfind : markers.find? (marksHere · (u :: Text.crlf rest)) =
            markers.find? (marksHere · (u :: rest)) := by
          rw [← List.head?_filter, ← List.head?_filter, ← crlf_cons hu]
          exact congrArg List.head? (List.filter_congr fun marker hmem =>
            marksHere_crlf (hmarkers marker hmem).1 _)
        rw [crlf_cons hu, findMarker?, findMarker?, hfind, ih]
        cases markers.find? (marksHere · (u :: rest)) with
        | some marker => rfl
        | none =>
            cases findMarker? markers rest with
            | none => rfl
            | some found =>
                dsimp only [Option.map_some]
                rw [Text.crlfOffset_succ, crlf_cons hu, Nat.add_comm (List.length _)]
                rfl

/-- The two read the same block up to the carriage returns in it. -/
theorem Shadows.readRaw {s s' : Scanner} (h : Shadows s s') {markers : List Text}
    (hmarkers : ∀ marker ∈ markers, marker.IsUnbroken ∧ marker ≠ []) :
    (s'.readRaw markers).1 =
        { (s.readRaw markers).1 with text := Text.crlf (s.readRaw markers).1.text } ∧
      Shadows (s.readRaw markers).2 (s'.readRaw markers).2 := by
  unfold Scanner.readRaw
  dsimp only
  rw [h.ahead, findMarker?_crlf hmarkers]
  cases hfound : findMarker? markers s.cursor.ahead with
  | none =>
      refine ⟨rfl, ?_⟩
      have hadvance := h.advance s.cursor.ahead.length
      rw [Text.crlfOffset_length, ← h.ahead] at hadvance
      exact hadvance
  | some found =>
      obtain ⟨length, marker⟩ := found
      obtain ⟨-, hfirst⟩ := findMarker?_eq_some hfound
      have hprefix := hfirst.endsRawAt.isPrefix
      have hoffset : crlfOffset s.cursor.ahead (length + marker.length) =
          crlfOffset s.cursor.ahead length + marker.length := by
        have htake := List.prefix_iff_eq_take.1 hprefix
        have hfeed := Lexeme.lineFeed_not_mem (hmarkers marker hfirst.mem).1
        rw [Text.crlfOffset_add, Text.crlfOffset_eq_self (htake ▸ hfeed) hprefix.length_le]
      have hadvance := h.advance (length + marker.length)
      rw [hoffset] at hadvance
      refine ⟨?_, hadvance⟩
      dsimp only [Option.map_some]
      rw [Text.take_crlf]

end Scanner

end DocMarkup
