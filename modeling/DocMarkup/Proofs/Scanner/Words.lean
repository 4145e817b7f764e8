import DocMarkup.Proofs.Scanner.Tiling

/-!
Where words are read.  A unit that no recogniser waits for begins a word, and a word goes on up to
white space, a command character, or a bracket or ampersand that ends it.
-/

namespace DocMarkup

theorem CodeUnit.isIdentifierChar_eq_false_of_isBlank {u : CodeUnit} (h : isBlank u) :
    isIdentifierChar u = false := by
  simp only [isBlank, isIdentifierChar, isIdentifierStart, isLetter, isDigit, Bool.or_eq_true,
    Bool.and_eq_true, decide_eq_true_eq, beq_iff_eq, Bool.or_eq_false_iff, Bool.and_eq_false_iff,
    decide_eq_false_iff_not, beq_eq_false_iff_ne, UInt16.le_iff_toNat_le, ← UInt16.toNat_inj,
    ne_eq, UInt16.reduceToNat] at h ⊢
  omega

/-! ### Lines -/

namespace Line

theorem drop_blanks (column : Nat) (line : Text) :
    line.drop (indentation column line).2 = line.dropWhile CodeUnit.isHorizontalSpace := by
  induction line generalizing column with
  | nil => rfl
  | cons u rest ih =>
      rw [indentation, List.dropWhile_cons]
      split
      · exact ih _
      · rfl

theorem take_blanks (column : Nat) (line : Text) :
    line.take (indentation column line).2 = line.takeWhile CodeUnit.isHorizontalSpace := by
  induction line generalizing column with
  | nil => rfl
  | cons u rest ih =>
      rw [indentation, List.takeWhile_cons]
      split
      · exact congrArg (u :: ·) (ih _)
      · rfl

/-- The marker that the text behind the indentation begins with: its length, whether it numbers the
item, and the number. -/
def markerAt? (body : Text) : Option (Nat × Bool × Option Whole) :=
  match body with
  | [] => none
  | u :: rest =>
    if u == unit '-' && rest.head? == some (unit '#') then some (2, true, none)
    else if u == unit '-' || u == unit '*' || u == unit '+' then some (1, false, none)
    else
      let digits := (u :: rest).takeWhile CodeUnit.isDigit
      if CodeUnit.isDigit u && ((u :: rest).drop digits.length).head? == some (unit '.') then
        some (digits.length + 1, true, some (Whole.ofDigits digits))
      else none

theorem listMarker?_eq (line : Text) :
    listMarker? line =
      match markerAt? (line.dropWhile CodeUnit.isHorizontalSpace) with
      | none => none
      | some (length, isNumbered, number) =>
        match (line.dropWhile CodeUnit.isHorizontalSpace).drop length with
        | [] => none
        | u :: _ =>
          if CodeUnit.isHorizontalSpace u then
            some {
              indent := (indentation 0 line).1
              blanks := (indentation 0 line).2
              marker := (line.dropWhile CodeUnit.isHorizontalSpace).take length
              isNumbered, number }
          else none := by
  unfold listMarker?
  dsimp only
  rw [drop_blanks]
  cases line.dropWhile CodeUnit.isHorizontalSpace <;> rfl

/-- A unit that the marker of a list begins with. -/
def startsMarker (u : CodeUnit) : Bool :=
  u == unit '-' || u == unit '*' || u == unit '+' || CodeUnit.isDigit u

/-- What a line begins with tells that there is no list marker on it. -/
theorem listMarker?_eq_none {line : Text}
    (h : (line.dropWhile CodeUnit.isHorizontalSpace).head?.any startsMarker = false) :
    listMarker? line = none := by
  rw [listMarker?_eq]
  cases hbody : line.dropWhile CodeUnit.isHorizontalSpace with
  | nil => rfl
  | cons u rest =>
      rw [hbody] at h
      simp only [List.head?_cons, Option.any_some, startsMarker, Bool.or_eq_false_iff] at h
      simp [markerAt?, h]

/-- White space follows every list marker. -/
theorem listMarker?_eq_none_of_solid {line : Text}
    (h : ∀ u ∈ line, CodeUnit.isHorizontalSpace u = false) : listMarker? line = none := by
  rw [Option.eq_none_iff_forall_ne_some]
  intro found hfound
  rw [listMarker?_eq] at hfound
  split at hfound
  · cases hfound
  · split at hfound
    · cases hfound
    · next u rest hafter =>
      have hmem : u ∈ line := (List.dropWhile_suffix _).subset
        (List.mem_of_mem_drop (hafter ▸ List.mem_cons_self ..))
      rw [h u hmem] at hfound
      cases hfound

/-- What a line begins with tells that it ends no list. -/
theorem endOfList?_eq_none {line : Text}
    (h : (line.dropWhile CodeUnit.isHorizontalSpace).head? ≠ some (unit '.')) :
    endOfList? line = none := by
  unfold endOfList?
  dsimp only
  rw [drop_blanks]
  cases hbody : line.dropWhile CodeUnit.isHorizontalSpace with
  | nil => rfl
  | cons u rest =>
      rw [hbody] at h
      have hdot : (u != unit '.') = true := bne_iff_ne.2 fun hu => h (congrArg some hu)
      simp only [hdot, if_true]

end Line

namespace Lexeme

variable {t rest : Text}

/-! ### Words -/

/-- A unit that a word does not end before, whatever follows. -/
def isWordUnit (u : CodeUnit) : Bool :=
  !CodeUnit.isSpace u && u != unit '\\' && u != unit '@' && u != unit '<' && u != unit '&'

/-- A word goes on over such units. -/
theorem wordTail_append {run : Text} (h : ∀ u ∈ run, isWordUnit u) (rest : Text) :
    wordTail (run ++ rest) = run.length + wordTail rest := by
  induction run with
  | nil => exact (Nat.zero_add _).symm
  | cons u run ih =>
      obtain ⟨hu, hrun⟩ := List.forall_mem_cons.1 h
      simp only [isWordUnit, Bool.and_eq_true, Bool.not_eq_true', bne_iff_ne] at hu
      rw [List.cons_append, wordTail, ih hrun]
      simp only [startsCommand, hu, beq_eq_false_iff_ne.2 hu.1.1.1.2, beq_eq_false_iff_ne.2 hu.1.1.2,
        beq_eq_false_iff_ne.2 hu.1.2, beq_eq_false_iff_ne.2 hu.2, Bool.or_self, Bool.false_and,
        Bool.false_eq_true, if_false, List.length_cons]
      omega

/-- A word holds the units up to the first that ends it. -/
theorem word_append {run : Text} (h : ∀ u ∈ run, isWordUnit u) (hne : run ≠ [])
    (hrest : wordTail rest = 0) :
    word (run ++ rest) = { kind := .word, length := run.length, value := run } := by
  cases run with
  | nil => exact absurd rfl hne
  | cons u run =>
      have htail := wordTail_append (List.forall_mem_cons.1 h).2 rest
      have hlength : 1 + wordTail ((u :: run ++ rest).drop 1) = (u :: run).length := by
        rw [List.cons_append, List.drop_succ_cons, List.drop_zero, htail, hrest, List.length_cons]
        omega
      rw [word, hlength, List.take_left' rfl]

/-! ### What is not recognised -/

theorem commentLength?_eq_none (h : t.head? ≠ some (unit '<')) : commentLength? t = none := by
  unfold commentLength?
  rw [if_neg]
  intro hstarts
  obtain ⟨rest, rfl⟩ := List.isPrefixOf_iff_prefix.1 hstarts
  exact h rfl

/-- A unit with a meaning of its own. -/
def isMark (u : CodeUnit) : Bool :=
  u == unit '\\' || u == unit '@' || u == unit '<' || u == unit '&' || u == unit '$'

theorem marked?_eq_none (h : t.head?.any isMark = false) : marked? t = none := by
  cases t with
  | nil => rfl
  | cons u rest =>
      simp only [List.head?_cons, Option.any_some, isMark, Bool.or_eq_false_iff] at h
      simp [marked?, h]

/-- Every absolute address has a separator behind its scheme, or begins with a `w`. -/
theorem address?_eq_none (hseparator : ¬ units "://" <:+: t) (hhost : ¬ units "www." <+: t) :
    address? t = none := by
  unfold address?
  dsimp only
  split
  · rfl
  · next scheme hfind =>
    have hfound := List.find?_some hfind
    simp only [Bool.and_eq_true, List.isPrefixOf_iff_prefix] at hfound
    have hstarts : units scheme <+: t := hfound.1.trans (List.take_prefix ..)
    have hschemes : ∀ scheme ∈ schemes,
        units "://" <:+: units scheme ∨ units scheme = units "www." := by decide
    rcases hschemes scheme (List.mem_of_find?_eq_some hfind) with hinside | hwww
    · exact absurd (hinside.trans hstarts.isInfix) hseparator
    · exact absurd (hwww ▸ hstarts) hhost

/-- Every e-mail address has an at-sign behind its mailbox. -/
theorem mail?_eq_none
    (h : ∀ mailbox, (∀ u ∈ mailbox, isMailboxUnit u) → ¬ mailbox ++ [unit '@'] <+: t) :
    mail? t = none := by
  unfold mail?
  dsimp only
  split
  · rfl
  · next at_ tail hdrop =>
    rw [if_pos]
    have hmailbox : ∀ u ∈ (t.take addressWindow).takeWhile isMailboxUnit, isMailboxUnit u :=
      fun u hu => List.mem_takeWhile_imp hu
    have hat : at_ ≠ unit '@' := by
      rintro rfl
      refine h _ hmailbox (List.IsPrefix.trans ⟨tail, ?_⟩ (List.take_prefix addressWindow t))
      rw [List.append_assoc, List.singleton_append, ← hdrop]
      exact (List.prefix_iff_eq_append.1 (List.takeWhile_prefix _))
    simp [hat]

/-- A command character that begins an escape or a command is read with it. -/
theorem next_eq_command {insidePre insideList atLineStart : Bool} {sign : CodeUnit}
    {lexeme : Lexeme} (hsign : sign = unit '\\' ∨ sign = unit '@')
    (hcommand : command? (sign :: rest) = some lexeme) :
    next insidePre insideList atLineStart (sign :: rest) = lexeme := by
  have hmarker : Line.listMarker? (sign :: rest) = none := by
    rcases hsign with rfl | rfl <;> exact Line.listMarker?_eq_none rfl
  have hdot : Line.endOfList? (sign :: rest) = none := by
    rcases hsign with rfl | rfl <;>
    · refine Line.endOfList?_eq_none fun hhead => ?_
      exact absurd (Option.some.inj hhead) (by decide)
  have hspace : CodeUnit.isSpace sign = false := by rcases hsign with rfl | rfl <;> rfl
  have hmarked : marked? (sign :: rest) = some lexeme := by
    rw [← hcommand]
    rcases hsign with rfl | rfl <;> rfl
  simp [next, listItem?, endList?, hmarker, hdot, hspace, hmarked]

/-- The lexeme of a text that begins with neither white space nor anything that has a meaning. -/
theorem next_eq_word {insidePre insideList atLineStart : Bool}
    (hmarker : Line.listMarker? t = none) (hend : Line.endOfList? t = none)
    (hspace : t.head?.any CodeUnit.isSpace = false) (hmark : t.head?.any isMark = false)
    (haddress : address? t = none) (hmail : mail? t = none) :
    next insidePre insideList atLineStart t = word t := by
  simp [next, listItem?, endList?, hmarker, hend, hspace, marked?_eq_none hmark, haddress, hmail]

end Lexeme

/-! ### Scans -/

namespace Scanner

variable {s s' s'' : Scanner} {tokens more : List Token}

theorem skipComments_eq {c : Cursor} (h : Lexeme.commentLength? c.ahead = none) :
    skipComments c = c := by
  unfold skipComments
  split
  · rfl
  · next n hn =>
    rw [h] at hn
    cases hn

theorem skipComments_advance {c : Cursor} {n : Nat}
    (h : Lexeme.commentLength? c.ahead = some n) :
    skipComments c = skipComments (c.advance n) := by
  rw [skipComments]
  split <;> simp_all

/-- A scan where no comment stands: the token of the lexeme ahead, and the text behind it. -/
structure Reads (s : Scanner) (lexeme : Lexeme) : Prop where
  kind : s.scan.token.kind = lexeme.kind
  value : s.scan.token.value = lexeme.value
  text : s.scan.token.text = lexeme.payload.getD (s.cursor.ahead.take lexeme.length)
  ahead : s.scan.cursor.ahead = s.cursor.ahead.drop lexeme.length

theorem reads (s : Scanner) (hcomment : Lexeme.commentLength? s.cursor.ahead = none) :
    s.Reads (s.lexeme s.cursor) := by
  have hskip := skipComments_eq hcomment
  refine ⟨?_, ?_, ?_, ?_⟩ <;> simp only [scan, token, hskip, tokenAt, Cursor.ahead_advance]

theorem lexeme_eq_next {c : Cursor} (h : c.ahead ≠ []) :
    s.lexeme c = Lexeme.next s.insidePre (0 < s.listDepth) c.atLineStart c.ahead :=
  if_neg fun hend => h (List.isEmpty_iff.1 hend)

/-- Nothing but the end of the text is read there. -/
theorem kind_scan_of_atEnd (h : s.cursor.ahead = []) : s.scan.token.kind = .endOfText := by
  have hend : s.cursor.atEnd = true := List.isEmpty_iff.2 h
  rw [(s.reads (by rw [h]; rfl)).kind, lexeme, if_pos hend]

/-- The token of the next scan comes before all others. -/
theorem readAll_cons (h : s.scan.token.kind ≠ .endOfText) :
    s.readAll.1 = s.scan.token :: s.scan.readAll.1 := by
  have hother : (s.scan.last.kind == .endOfText) = false := beq_eq_false_iff_ne.2 h
  have hmore := (readTokens_of_lt (length_ahead_scan h)).1
  rw [readAll, readTokens]
  simp only [hother, Bool.false_eq_true, if_false, hmore]

theorem readAll_of_endOfText (h : s.scan.token.kind = .endOfText) :
    s.readAll.1 = [s.scan.token] := by
  have hend : (s.scan.last.kind == .endOfText) = true := beq_iff_eq.2 h
  rw [readAll, readTokens]
  simp only [hend, if_true]

/-- Scans read some tokens and come to another place of the text. -/
inductive Scans : Scanner → List Token → Scanner → Prop
  | refl (s : Scanner) : Scans s [] s
  | head {s s' : Scanner} {tokens : List Token} (kind : s.scan.token.kind ≠ .endOfText)
      (more : Scans s.scan tokens s') : Scans s (s.scan.token :: tokens) s'

namespace Scans

theorem single (h : s.scan.token.kind ≠ .endOfText) : Scans s [s.scan.token] s.scan :=
  .head h (.refl _)

theorem trans (h : Scans s tokens s') (h' : Scans s' more s'') : Scans s (tokens ++ more) s'' := by
  induction h with
  | refl => exact h'
  | head kind _ ih => exact .head kind (ih h')

theorem insidePre (h : Scans s tokens s') : s'.insidePre = s.insidePre := by
  induction h with
  | refl => rfl
  | head _ _ ih => exact ih

/-- At the end of the text all tokens have been read, but for the end itself. -/
theorem readAll (h : Scans s tokens s') (hend : s'.cursor.ahead = []) :
    s.readAll.1 = tokens ++ [s'.scan.token] := by
  induction h with
  | refl => exact readAll_of_endOfText (kind_scan_of_atEnd hend)
  | head kind _ ih => rw [readAll_cons kind, ih hend, List.cons_append]

end Scans

end Scanner

end DocMarkup
