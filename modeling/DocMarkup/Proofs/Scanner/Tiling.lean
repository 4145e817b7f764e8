import Mathlib.Data.List.Infix
import DocMarkup.IncludeBuffer
import DocMarkup.Proofs.Scanner.Extent

/-!
The tokens of a text tile it.  Whatever the modes of the scanner are changed to between two scans,
each token begins where the one before it stopped, past markup comments and nothing else, and holds
the text up to where it stops itself.  Every token but the end of the text takes something, so the
end is met after at most as many tokens as the text has units.
-/

namespace DocMarkup

open IncludeBuffer (slice)

namespace Text

/-- Where a text is found, it is found for the first time. -/
theorem of_indexOf?_eq_some {needle t : Text} {i : Nat} (h : indexOf? needle t = some i) :
    needle <+: t.drop i ∧ ∀ j < i, ¬ needle <+: t.drop j := by
  induction t generalizing i with
  | nil =>
      simp only [indexOf?, List.isEmpty_iff, Option.ite_none_right_eq_some] at h
      obtain ⟨rfl, hi⟩ := h
      cases hi
      simp
  | cons u rest ih =>
      simp only [indexOf?, List.isPrefixOf_iff_prefix] at h
      split at h
      · next hhere =>
        cases h
        exact ⟨hhere, fun j hj => absurd hj (Nat.not_lt_zero j)⟩
      · next hhere =>
        obtain ⟨k, hk, rfl⟩ := Option.map_eq_some_iff.1 h
        obtain ⟨hfound, hfirst⟩ := ih hk
        refine ⟨hfound, fun j hj => ?_⟩
        cases j with
        | zero => exact hhere
        | succ j => exact hfirst j (Nat.lt_of_succ_lt_succ hj)

theorem not_isInfix_of_indexOf?_eq_none {needle t : Text} (h : indexOf? needle t = none) :
    ¬ needle <:+: t := by
  induction t with
  | nil => simp_all [indexOf?]
  | cons u rest ih =>
      simp only [indexOf?, List.isPrefixOf_iff_prefix] at h
      split at h
      · cases h
      · next hhere =>
        rw [List.infix_cons_iff, not_or]
        exact ⟨hhere, ih (Option.map_eq_none_iff.1 h)⟩

end Text

/-! ### Comments between tokens -/

/-- A markup comment that is closed, by the first closing mark behind its opening mark. -/
def IsClosedComment (t : Text) : Prop :=
  ∃ body, t = units "<!--" ++ body ++ units "-->" ∧
    ∀ j < body.length, ¬ units "-->" <+: (body ++ units "-->").drop j

/-- A markup comment that is never closed. -/
def IsOpenComment (t : Text) : Prop :=
  ∃ body, t = units "<!--" ++ body ∧ ¬ units "-->" <:+: body

/-- Comments one after the other; where the text ends, the last may be open. -/
inductive AreComments (atEnd : Prop) : Text → Prop where
  | nil : AreComments atEnd []
  | closed {t more : Text} (comment : IsClosedComment t) (rest : AreComments atEnd more) :
      AreComments atEnd (t ++ more)
  | unclosed {t : Text} (comment : IsOpenComment t) (ends : atEnd) : AreComments atEnd t

/-- The two ways a comment can begin a text: closed before the rest of it, or open to its end. -/
theorem Lexeme.commentLength?_cases {t : Text} {n : Nat} (h : Lexeme.commentLength? t = some n) :
    IsClosedComment (t.take n) ∨ (IsOpenComment t ∧ n = t.length) := by
  unfold Lexeme.commentLength? at h
  rw [Option.ite_none_right_eq_some, List.isPrefixOf_iff_prefix] at h
  obtain ⟨⟨body, rfl⟩, h⟩ := h
  have hbody : (units "<!--" ++ body).drop 4 = body := List.drop_left' rfl
  rw [hbody] at h
  split at h
  · next i hindex =>
    cases h
    obtain ⟨⟨after, hafter⟩, hfirst⟩ := Text.of_indexOf?_eq_some hindex
    -- the first closing mark parts the text behind the opening mark
    have hsplit : body = body.take i ++ (units "-->" ++ after) := by
      rw [hafter, List.take_append_drop]
    have hle : i ≤ body.length := by
      by_contra hlt
      have hnil : body.drop i = [] := List.drop_eq_nil_of_le (by omega)
      rw [hnil] at hafter
      exact absurd (List.append_eq_nil_iff.1 hafter).1 (by decide)
    have hlength : (body.take i).length = i := List.length_take_of_le hle
    refine .inl ⟨body.take i, ?_, ?_⟩
    · have hcut : (units "<!--" ++ (body.take i ++ units "-->") ++ after).take (i + 7) =
          units "<!--" ++ (body.take i ++ units "-->") := by
        refine List.take_left' ?_
        rw [List.length_append, List.length_append, hlength]
        show 4 + (i + 3) = i + 7
        omega
      calc (units "<!--" ++ body).take (i + 7)
          = (units "<!--" ++ (body.take i ++ (units "-->" ++ after))).take (i + 7) := by
            rw [← hsplit]
        _ = units "<!--" ++ body.take i ++ units "-->" := by
            simpa only [List.append_assoc] using hcut
    · intro j hj hclosing
      rw [hlength] at hj
      refine hfirst j hj ?_
      have hearlier : (body.take i ++ units "-->").drop j <+: body.drop j := by
        refine List.IsPrefix.drop ⟨after, ?_⟩ j
        rw [List.append_assoc, ← hsplit]
      exact hclosing.trans hearlier
  · next hindex =>
    cases h
    exact .inr ⟨⟨body, rfl, Text.not_isInfix_of_indexOf?_eq_none hindex⟩, rfl⟩

namespace Cursor

theorem drop_offset (c : Cursor) : c.text.drop c.offset = c.ahead := by
  rw [text, c.offset_eq]
  exact List.drop_left' (List.length_reverse ..)

/-- What lies between two places of a text. -/
theorem slice_eq {c c' : Cursor} {between : Text} (htext : c'.text = c.text)
    (hahead : c.ahead = between ++ c'.ahead) : slice c.text c.offset c'.offset = between := by
  have hbefore := c.offset_add_length_ahead
  have hafter := c'.offset_add_length_ahead
  rw [hahead, List.length_append] at hbefore
  rw [htext] at hafter
  have hlength : c'.offset - c.offset = between.length := by omega
  rw [slice, drop_offset, hahead, hlength, List.take_left' rfl]

end Cursor

namespace Scanner

/-- Only comments are skipped before a token. -/
theorem ahead_skipComments (c : Cursor) :
    ∃ between, c.ahead = between ++ (skipComments c).ahead ∧
      AreComments ((skipComments c).ahead = []) between := by
  induction c using skipComments.induct with
  | case1 c hnone =>
      unfold skipComments
      split
      · exact ⟨[], rfl, .nil⟩
      · simp_all
  | case2 c n hsome hlt ih =>
      obtain ⟨between, hbetween, hcomments⟩ := ih
      have hskip : skipComments c = skipComments (c.advance n) := by
        rw [skipComments]
        split <;> simp_all
      rw [hskip]
      rw [Cursor.ahead_advance] at hbetween
      rcases Lexeme.commentLength?_cases hsome with hclosed | ⟨hopen, rfl⟩
      · refine ⟨c.ahead.take n ++ between, ?_, .closed hclosed hcomments⟩
        rw [List.append_assoc, ← hbetween, List.take_append_drop]
      · rw [List.drop_length, eq_comm, List.append_eq_nil_iff] at hbetween
        exact ⟨c.ahead, by rw [hbetween.2, List.append_nil], .unclosed hopen hbetween.2⟩

end Scanner

/-! ### Tokens -/

/-- A token read from a place on: only comments stand before it, and it holds the text it reaches
over, unless it is a keyword.  The end of the text is where the text ends, and any other token
takes something. -/
structure Token.IsTile (t : Text) (place : Nat) (token : Token) : Prop where
  place_le : place ≤ token.start
  start_le : token.start ≤ token.stop
  stop_le : token.stop ≤ t.length
  comments : AreComments (token.start = t.length) (slice t place token.start)
  start_lt : token.kind ≠ .endOfText → token.start < token.stop
  text_eq : token.kind ≠ .keyword → token.text = slice t token.start token.stop
  ended : token.kind = .endOfText → token.start = t.length ∧ token.stop = t.length

/-- Tokens that tile a text from a place on, each from where the one before it stopped. -/
inductive Tiling (t : Text) : Nat → List Token → Prop where
  | nil (place : Nat) : Tiling t place []
  | cons {place : Nat} {token : Token} {more : List Token} (tile : token.IsTile t place)
      (rest : Tiling t token.stop more) : Tiling t place (token :: more)

/-- Every token but the end of the text takes a unit, so behind as many tokens as there are units
left only the end follows. -/
theorem Tiling.ended {t : Text} {place n : Nat} {tokens : List Token} (h : Tiling t place tokens)
    (hn : t.length ≤ place + n) : ∀ token ∈ tokens.drop n, token.kind = .endOfText := by
  induction h generalizing n with
  | nil => simp
  | @cons place token more tile rest ih =>
      have hplace := tile.place_le
      have hstart := tile.start_lt
      have hstop := tile.stop_le
      have hended := tile.ended
      cases n with
      | zero =>
          have hkind : token.kind = .endOfText := by
            by_contra hkind
            have := hstart hkind
            omega
          have hmore := ih (n := 0) (by have := hended hkind; omega)
          exact List.forall_mem_cons.2 ⟨hkind, hmore⟩
      | succ n =>
          refine ih ?_
          by_cases hkind : token.kind = .endOfText
          · have := hended hkind
            omega
          · have := hstart hkind
            omega

namespace Scanner

/-- A change of the modes of a scanner. -/
inductive ModeChange where
  | insidePre (insidePre : Bool)
  | startList
  | endList

/-- The scanner with a mode changed. -/
def change (s : Scanner) : ModeChange → Scanner
  | .insidePre insidePre => s.setInsidePre insidePre
  | .startList => s.startList
  | .endList => s.endList

/-- The tokens of scans, each of which follows some changes of the modes. -/
def tokens (s : Scanner) : List (List ModeChange) → List Token
  | [] => []
  | changes :: more =>
    let next := (changes.foldl change s).scan
    next.token :: next.tokens more

/-- Modes do not move the scanner. -/
theorem cursor_changes (s : Scanner) (changes : List ModeChange) :
    (changes.foldl change s).cursor = s.cursor := by
  induction changes generalizing s with
  | nil => rfl
  | cons c changes ih =>
      rw [List.foldl_cons, ih]
      cases c <;> rfl

/-- The lexeme at a place lies inside the text ahead. -/
theorem lexeme_fits (s : Scanner) (c : Cursor) : (s.lexeme c).Fits c.ahead := by
  cases hend : c.atEnd with
  | true =>
      rw [lexeme, if_pos hend]
      exact ⟨Nat.zero_le _, fun _ => rfl⟩
  | false =>
      rw [lexeme, if_neg (Bool.eq_false_iff.1 hend)]
      refine Lexeme.next_fits _ _ _ ?_
      rintro hnil
      rw [Cursor.atEnd, hnil] at hend
      cases hend

/-- The end of the text is found where the text ends and nowhere else. -/
theorem lexeme_kind_iff (s : Scanner) (c : Cursor) :
    (s.lexeme c).kind = .endOfText ↔ c.offset = c.text.length := by
  rw [← Cursor.atEnd_iff]
  cases hend : c.atEnd with
  | true => simp [lexeme, hend]
  | false => simp [(lexeme_proper hend).kind_ne]

/-- Behind comments, the token of the lexeme at a place is a tile. -/
theorem tokenAt_isTile (s : Scanner) {c : Cursor} {place : Nat} (hplace : place ≤ c.offset)
    (hcomments : AreComments (c.offset = c.text.length) (slice c.text place c.offset)) :
    (tokenAt c (s.lexeme c)).IsTile c.text place := by
  have hfits := s.lexeme_fits c
  have hkind := s.lexeme_kind_iff c
  have hpos : (s.lexeme c).kind ≠ .endOfText → 0 < (s.lexeme c).length := by
    intro hne
    rw [ne_eq, hkind, ← Cursor.atEnd_iff, Bool.not_eq_true] at hne
    exact (lexeme_proper hne).length_pos
  generalize s.lexeme c = lexeme at *
  have htext := Cursor.text_advance lexeme.length c
  have hstop : (c.advance lexeme.length).offset = c.offset + lexeme.length := by
    rw [Cursor.offset_advance, Nat.min_eq_left hfits.length_le]
  have hle : (c.advance lexeme.length).offset ≤ c.text.length := by
    rw [← htext]
    exact Cursor.offset_le _
  have hwritten : slice c.text c.offset (c.advance lexeme.length).offset =
      c.ahead.take lexeme.length := by
    refine Cursor.slice_eq htext ?_
    rw [Cursor.ahead_advance, List.take_append_drop]
  exact
    { place_le := hplace
      start_le := (Nat.le_add_right ..).trans_eq hstop.symm
      stop_le := hle
      comments := hcomments
      start_lt := fun hne => (Nat.lt_add_of_pos_right (hpos hne)).trans_eq hstop.symm
      text_eq := by
        intro hne
        show lexeme.payload.getD _ = _
        rw [hfits.payload_eq hne]
        exact hwritten.symm
      ended := by
        intro hend
        have hstart := hkind.1 hend
        refine ⟨hstart, le_antisymm hle ?_⟩
        show c.text.length ≤ (c.advance lexeme.length).offset
        omega }

/-- What a scan reads is a tile. -/
theorem scan_isTile (s : Scanner) : s.scan.token.IsTile s.text s.offset := by
  obtain ⟨between, hbetween, hcomments⟩ := ahead_skipComments s.cursor
  obtain ⟨htext, hoffset⟩ := skipComments_spec s.cursor
  have hslice := Cursor.slice_eq htext hbetween
  have hend : (skipComments s.cursor).ahead = [] ↔
      (skipComments s.cursor).offset = (skipComments s.cursor).text.length := by
    rw [← Cursor.atEnd_iff, Cursor.atEnd, List.isEmpty_iff]
  rw [hend, ← hslice, ← htext] at hcomments
  have htile := s.tokenAt_isTile hoffset hcomments
  rw [htext] at htile
  exact htile

/-- From any place on, scans tile the text. -/
theorem tokens_tiling (s : Scanner) (changes : List (List ModeChange)) :
    Tiling s.text s.offset (s.tokens changes) := by
  induction changes generalizing s with
  | nil => exact .nil _
  | cons first changes ih =>
      have hcursor := cursor_changes s first
      have htile := (first.foldl change s).scan_isTile
      have hmore := ih (first.foldl change s).scan
      rw [(advances_scan _).text] at hmore
      simp only [text, offset, hcursor] at htile hmore
      exact .cons htile hmore

/-- The tokens of a text tile it from its start, whatever modes are set between the scans, and
from the scan on that is numbered by the length of the text there is only the end of the text. -/
theorem load_tokens_tile (s : Scanner) (t : Text) (changes : List (List ModeChange)) :
    Tiling t 0 ((s.load t).tokens changes) ∧
      ∀ token ∈ ((s.load t).tokens changes).drop t.length, token.kind = .endOfText := by
  have htiling : Tiling t 0 ((s.load t).tokens changes) := (s.load t).tokens_tiling changes
  exact ⟨htiling, htiling.ended (Nat.zero_add _).ge⟩

end Scanner

end DocMarkup
