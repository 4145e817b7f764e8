import DocMarkup.Proofs.Scanner.Lexeme

/-!
The scanner only moves forward.  A scan takes at least one unit unless it meets the end of the text,
and the readers of arguments leave the text and the settings of the scanner as they are.
-/

namespace DocMarkup

namespace Cursor

theorem offset_add_length_ahead (c : Cursor) : c.offset + c.ahead.length = c.text.length := by
  rw [c.offset_eq, text, List.length_append, List.length_reverse]

theorem length_ahead (c : Cursor) : c.ahead.length = c.text.length - c.offset := by
  have := c.offset_add_length_ahead
  omega

theorem offset_le (c : Cursor) : c.offset ≤ c.text.length := by
  have := c.offset_add_length_ahead
  omega

theorem offset_advance (n : Nat) (c : Cursor) :
    (c.advance n).offset = c.offset + min n c.ahead.length := by
  have hbefore := c.offset_add_length_ahead
  have hafter := (c.advance n).offset_add_length_ahead
  rw [text_advance, ahead_advance, List.length_drop] at hafter
  omega

theorem offset_le_advance (n : Nat) (c : Cursor) : c.offset ≤ (c.advance n).offset := by
  rw [offset_advance]
  omega

theorem offset_retreat (n : Nat) (c : Cursor) : (c.retreat n).offset = c.offset - n := by
  induction n generalizing c with
  | zero => rfl
  | succ n ih =>
      rcases c with ⟨_ | ⟨u, behind⟩, ahead, offset, h⟩
      · simp [retreat, h]
      · simp only [retreat, ih]
        omega

/-- Inside the text a cursor reaches the offset it is sent to. -/
theorem offset_moveTo {target : Nat} {c : Cursor} (h : target ≤ c.text.length) :
    (c.moveTo target).offset = target := by
  have hlength := c.length_ahead
  unfold moveTo
  split
  · rw [offset_advance, hlength]
    omega
  · rw [offset_retreat]
    omega

theorem text_moveTo (target : Nat) (c : Cursor) : (c.moveTo target).text = c.text := by
  unfold moveTo
  split
  · exact text_advance ..
  · exact text_retreat ..

theorem atEnd_iff (c : Cursor) : c.atEnd ↔ c.offset = c.text.length := by
  have hlength := c.offset_add_length_ahead
  rw [atEnd, List.isEmpty_iff, ← List.length_eq_zero_iff]
  omega

end Cursor

/-- A token of a symbol names one that is known. -/
def Token.IsKnown (token : Token) : Prop := token.kind = .symbol → Symbol.isKnown token.value

namespace Scanner

/-- The scanner has moved on in its text, in the mode it was in. -/
structure Advances (s s' : Scanner) : Prop where
  text : s'.text = s.text
  offset : s.offset ≤ s'.offset
  insidePre : s'.insidePre = s.insidePre
  listDepth : s'.listDepth = s.listDepth

namespace Advances

theorem refl (s : Scanner) : Advances s s := ⟨rfl, le_rfl, rfl, rfl⟩

theorem trans {s t u : Scanner} (h : Advances s t) (h' : Advances t u) : Advances s u :=
  ⟨h'.text.trans h.text, h.offset.trans h'.offset, h'.insidePre.trans h.insidePre,
    h'.listDepth.trans h.listDepth⟩

end Advances

theorem advances_advance (s : Scanner) (n : Nat) (last : Token) :
    Advances s { s with cursor := s.cursor.advance n, last } :=
  ⟨Cursor.text_advance .., Cursor.offset_le_advance .., rfl, rfl⟩

theorem offset_le (s : Scanner) : s.offset ≤ s.text.length := s.cursor.offset_le

theorem skipComments_spec (c : Cursor) :
    (skipComments c).text = c.text ∧ c.offset ≤ (skipComments c).offset := by
  induction c using skipComments.induct with
  | case1 c h =>
      unfold skipComments
      split
      · exact ⟨rfl, le_rfl⟩
      · simp_all
  | case2 c n h hlt ih =>
      unfold skipComments
      split
      · simp_all
      · next k hk =>
        obtain rfl : n = k := by simpa [h] using hk
        rw [Cursor.text_advance] at ih
        exact ⟨ih.1, (Cursor.offset_le_advance ..).trans ih.2⟩

theorem lexeme_proper {s : Scanner} {c : Cursor} (h : c.atEnd = false) :
    (s.lexeme c).Proper := by
  simp only [lexeme, h, Bool.false_eq_true, if_false]
  exact Lexeme.next_proper ..

theorem advances_scan (s : Scanner) : Advances s s.scan := by
  obtain ⟨htext, hoffset⟩ := skipComments_spec s.cursor
  refine ⟨?_, ?_, rfl, rfl⟩
  · exact (Cursor.text_advance ..).trans htext
  · exact hoffset.trans (Cursor.offset_le_advance ..)

/-- What a scan finds: the end of the text, or a token that takes at least one unit. -/
theorem scan_cases (s : Scanner) :
    (s.scan.last.kind = .endOfText ∧ s.scan.offset = s.text.length) ∨
      (s.scan.last.kind ≠ .endOfText ∧ s.offset < s.scan.offset) := by
  obtain ⟨htext, hoffset⟩ := skipComments_spec s.cursor
  cases hend : (skipComments s.cursor).atEnd with
  | true =>
      have hlast := (Cursor.atEnd_iff _).1 hend
      refine .inl ⟨?_, ?_⟩
      · simp [scan, tokenAt, lexeme, hend]
      · have hle := s.scan.offset_le
        have hge := Cursor.offset_le_advance (s.lexeme (skipComments s.cursor)).length
          (skipComments s.cursor)
        rw [(advances_scan s).text] at hle
        rw [htext] at hlast
        exact le_antisymm hle (hlast ▸ hge)
  | false =>
      have hproper := lexeme_proper (s := s) hend
      refine .inr ⟨hproper.kind_ne, ?_⟩
      have hahead : 0 < (skipComments s.cursor).ahead.length := by
        rw [Cursor.atEnd, List.isEmpty_eq_false_iff] at hend
        exact List.length_pos_iff.2 hend
      have hlength := hproper.length_pos
      have hadvance := Cursor.offset_advance (s.lexeme (skipComments s.cursor)).length
        (skipComments s.cursor)
      show s.cursor.offset < ((skipComments s.cursor).advance _).offset
      omega

/-- A scanned symbol is a known one. -/
theorem token_isKnown (s : Scanner) : s.scan.token.IsKnown := by
  cases hend : (skipComments s.cursor).atEnd with
  | true => simp [Token.IsKnown, token, scan, tokenAt, lexeme, hend]
  | false =>
      have hkind : s.scan.token.kind = (s.lexeme (skipComments s.cursor)).kind := rfl
      have hvalue : s.scan.token.value = (s.lexeme (skipComments s.cursor)).value := rfl
      unfold Token.IsKnown
      rw [hkind, hvalue]
      exact (lexeme_proper hend).isKnown

theorem readTokens_isKnown (n : Nat) (s : Scanner) :
    ∀ token ∈ (readTokens n s).1, token.IsKnown := by
  induction n generalizing s with
  | zero => exact fun token htoken => absurd htoken (List.not_mem_nil)
  | succ n ih =>
      unfold readTokens
      dsimp only
      split
      · exact List.forall_mem_singleton.2 s.token_isKnown
      · exact List.forall_mem_cons.2 ⟨s.token_isKnown, ih _⟩

theorem length_ahead_scan {s : Scanner} (h : s.scan.last.kind ≠ .endOfText) :
    s.scan.cursor.ahead.length < s.cursor.ahead.length := by
  rcases s.scan_cases with ⟨hend, -⟩ | ⟨-, hlt⟩
  · exact absurd hend h
  · have hbefore := s.cursor.offset_add_length_ahead
    have hafter := s.scan.cursor.offset_add_length_ahead
    have htext : s.scan.cursor.text = s.cursor.text := s.advances_scan.text
    rw [htext] at hafter
    have hlt : s.cursor.offset < s.scan.cursor.offset := hlt
    omega

/-- More steps than there are units ahead change nothing: the reading ends at the end of the
text. -/
theorem readTokens_of_lt {s : Scanner} {n : Nat} (h : s.cursor.ahead.length < n) :
    readTokens n s = s.readAll ∧ s.readAll.2.last.kind = .endOfText := by
  suffices hn : ∀ k, s.cursor.ahead.length < k →
      readTokens n s = readTokens k s ∧ (readTokens k s).2.last.kind = .endOfText from
    hn _ (Nat.lt_succ_self _)
  induction n generalizing s with
  | zero => exact absurd h (Nat.not_lt_zero _)
  | succ n ih =>
      rintro (_ | k) hk
      · exact absurd hk (Nat.not_lt_zero _)
      · simp only [readTokens]
        by_cases hend : s.scan.last.kind = .endOfText
        · simp [hend]
        · have hahead := length_ahead_scan hend
          obtain ⟨heq, hlast⟩ := ih (s := s.scan) (by omega) k (by omega)
          simp [hend, heq, hlast]

/-! ### Arguments -/

theorem advances_skipHorizontalSpace (s : Scanner) : Advances s s.skipHorizontalSpace :=
  advances_advance s _ s.last

theorem advances_readArgument (s : Scanner) : Advances s s.readArgument.2 := by
  refine (advances_skipHorizontalSpace s).trans ?_
  unfold readArgument
  dsimp only
  split
  · exact .refl _
  · exact advances_advance _ _ _

/-- An argument takes at least one unit. -/
theorem offset_readArgument {s : Scanner} {argument : Text}
    (h : s.readArgument.1 = some argument) : s.offset < s.readArgument.2.offset := by
  have hskip := (advances_skipHorizontalSpace s).offset
  have hlength := (List.takeWhile_prefix (l := s.skipHorizontalSpace.cursor.ahead)
    fun u => !CodeUnit.isSpace u).length_le
  unfold readArgument at h ⊢
  dsimp only at h ⊢
  split at h
  · cases h
  · next hne =>
    rw [if_neg hne]
    rw [List.isEmpty_iff, ← List.length_eq_zero_iff] at hne
    refine hskip.trans_lt ?_
    show s.skipHorizontalSpace.cursor.offset < (s.skipHorizontalSpace.cursor.advance _).offset
    rw [Cursor.offset_advance]
    omega

theorem advances_readQuoted (s : Scanner) : Advances s s.readQuoted.2 := by
  unfold readQuoted
  dsimp only
  split
  · exact .refl _
  · split
    · exact (advances_skipHorizontalSpace s).trans (advances_advance _ _ _)
    · exact .refl _

theorem advances_readLine (s : Scanner) : Advances s s.readLine.2 := advances_advance s _ s.last

theorem advances_readAttached (s : Scanner) (opening closing : Text) :
    Advances s (s.readAttached opening closing).2 := by
  unfold readAttached
  dsimp only
  split
  · exact .refl _
  · split
    · exact .refl _
    · split
      · exact .refl _
      · exact advances_advance _ _ _

theorem advances_readRaw (s : Scanner) (markers : List Text) :
    Advances s (s.readRaw markers).2 := by
  unfold readRaw
  dsimp only
  split <;> exact advances_advance s _ s.last

/-! ### Moving back -/

/-- Sent to an offset that lies ahead in the text, the scanner has moved on. -/
theorem advances_moveTo {s : Scanner} {target : Nat} (hle : s.offset ≤ target)
    (htarget : target ≤ s.text.length) : Advances s (s.moveTo target) :=
  ⟨Cursor.text_moveTo .., hle.trans (Cursor.offset_moveTo htarget).ge, rfl, rfl⟩

theorem moveTo?_of_le {s : Scanner} {target : Nat} (h : target ≤ s.text.length) :
    s.moveTo? target = some (s.moveTo target) := by
  unfold moveTo?
  rw [if_neg]
  · rfl
  · simp only [Bool.or_eq_true, decide_eq_true_eq, not_or]
    omega

end Scanner

end DocMarkup
