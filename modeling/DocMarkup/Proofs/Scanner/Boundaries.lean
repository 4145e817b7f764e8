import DocMarkup.Proofs.Scanner.Arguments
import DocMarkup.Proofs.Scanner.Signs
import DocMarkup.Proofs.Scanner.Terminators
import DocMarkup.Proofs.Text.CodePoints

/-!
Tokens and characters.  No unit of ASCII is half of a surrogate pair, so what ends with such a unit,
before one, or with the text, ends between two characters.  Every lexeme ends so but one: addresses
are looked for in a window of the text, and an address that fills it ends where the window does, be
it between the halves of a pair.  Readers of arguments and raw blocks leave the scanner between two
characters or where it was, so a token begins between two characters unless such an address ends
there.
-/

namespace DocMarkup

namespace CodeUnit

/-- A kind that holds units of ASCII only. -/
def IsAsciiKind (kind : CodeUnit → Bool) : Prop := ∀ u, kind u = true → u.toNat < 0x80

theorem isHighSurrogate_of_ascii {u : CodeUnit} (h : u.toNat < 0x80) :
    isHighSurrogate u = false := by
  rw [Bool.eq_false_iff, ne_eq, isHighSurrogate_iff]
  omega

theorem isLowSurrogate_of_ascii {u : CodeUnit} (h : u.toNat < 0x80) : isLowSurrogate u = false := by
  rw [Bool.eq_false_iff, ne_eq, isLowSurrogate_iff]
  omega

theorem isAsciiKind_elem {t : Text} (h : t.all (fun u => u.toNat < 0x80) = true) :
    IsAsciiKind fun u => t.elem u :=
  fun u hu => of_decide_eq_true (List.all_eq_true.1 h u (List.elem_iff.1 hu))

theorem IsAsciiKind.or {kind other : CodeUnit → Bool} (h : IsAsciiKind kind)
    (hother : IsAsciiKind other) : IsAsciiKind fun u => kind u || other u := by
  intro u hu
  rcases Bool.or_eq_true_iff.1 hu with hkind | hkind
  · exact h u hkind
  · exact hother u hkind

theorem isAsciiKind_isLetter : IsAsciiKind isLetter := by
  intro u hu
  simp only [isLetter, Bool.or_eq_true, Bool.and_eq_true, decide_eq_true_eq,
    UInt16.le_iff_toNat_le, UInt16.reduceToNat] at hu
  omega

theorem isAsciiKind_isDigit : IsAsciiKind isDigit := by
  intro u hu
  simp only [isDigit, Bool.and_eq_true, decide_eq_true_eq, UInt16.le_iff_toNat_le,
    UInt16.reduceToNat] at hu
  omega

theorem isAsciiKind_beq {c : CodeUnit} (hc : c.toNat < 0x80) : IsAsciiKind (· == c) := by
  intro u hu
  rwa [beq_iff_eq.1 hu]

theorem isAsciiKind_isHorizontalSpace : IsAsciiKind isHorizontalSpace :=
  (isAsciiKind_beq (by decide)).or (isAsciiKind_beq (by decide))

theorem isAsciiKind_isLineBreak : IsAsciiKind isLineBreak :=
  (isAsciiKind_beq (by decide)).or (isAsciiKind_beq (by decide))

theorem isAsciiKind_isSpace : IsAsciiKind isSpace :=
  isAsciiKind_isHorizontalSpace.or isAsciiKind_isLineBreak

theorem isAsciiKind_isIdentifierChar : IsAsciiKind isIdentifierChar :=
  (isAsciiKind_isLetter.or (isAsciiKind_beq (by decide))).or isAsciiKind_isDigit

theorem isAsciiKind_isMarkerUnit : IsAsciiKind isMarkerUnit :=
  (isAsciiKind_elem (by decide)).or isAsciiKind_isDigit

theorem isAsciiKind_isHostUnit : IsAsciiKind Lexeme.isHostUnit :=
  (isAsciiKind_beq (by decide)).or
    ((isAsciiKind_isLetter.or isAsciiKind_isDigit).or (isAsciiKind_beq (by decide)))

theorem isAsciiKind_isTrailingPunctuation : IsAsciiKind Lexeme.isTrailingPunctuation :=
  isAsciiKind_elem (by decide)

variable {u : CodeUnit}

theorem IsAsciiKind.eq_false {kind : CodeUnit → Bool} (h : IsAsciiKind kind)
    (hu : isLowSurrogate u) : kind u = false := by
  rw [Bool.eq_false_iff]
  intro hkind
  rw [isLowSurrogate_of_ascii (h u hkind)] at hu
  cases hu

theorem bne_unit_of_isLowSurrogate {c : Char} (hc : (unit c).toNat < 0x80)
    (hu : isLowSurrogate u) : (u != unit c) = true := by
  rw [bne, (isAsciiKind_beq hc).eq_false hu]
  rfl

/-- No half of a pair ends an address. -/
theorem isAddressUnit_of_isLowSurrogate (hu : isLowSurrogate u) :
    Lexeme.isAddressUnit u = true := by
  have hblank : isBlank u = false := by
    rw [isLowSurrogate_iff] at hu
    simp only [isBlank, Bool.or_eq_false_iff, Bool.and_eq_false_iff, decide_eq_false_iff_not,
      beq_eq_false_iff_ne, UInt16.le_iff_toNat_le, ← UInt16.toNat_inj, ne_eq, UInt16.reduceToNat]
    omega
  simp [Lexeme.isAddressUnit, hblank, bne_unit_of_isLowSurrogate (c := '<') (by decide) hu,
    bne_unit_of_isLowSurrogate (c := '>') (by decide) hu,
    bne_unit_of_isLowSurrogate (c := '"') (by decide) hu]

/-- No half of a pair ends a word. -/
theorem isWordUnit_of_isLowSurrogate (hu : isLowSurrogate u) : Lexeme.isWordUnit u = true := by
  simp only [Lexeme.isWordUnit, isAsciiKind_isSpace.eq_false hu,
    bne_unit_of_isLowSurrogate (c := '\\') (by decide) hu,
    bne_unit_of_isLowSurrogate (c := '@') (by decide) hu,
    bne_unit_of_isLowSurrogate (c := '<') (by decide) hu,
    bne_unit_of_isLowSurrogate (c := '&') (by decide) hu, Bool.not_false, Bool.and_self]

end CodeUnit

open CodeUnit

namespace Text

variable {t : Text} {n : Nat} {u : CodeUnit}

theorem cutsPair_of_take (h : ∀ u ∈ t.take n, u.toNat < 0x80) : cutsPair t n = false := by
  rw [cutsPair, splitsPair]
  cases hlast : (t.take n).getLast? with
  | none => rfl
  | some u =>
      rw [Option.any_some, isHighSurrogate_of_ascii (h u (List.mem_of_getLast? hlast))]
      rfl

theorem cutsPair_of_last (hlast : t[n - 1]? = some u) (hu : u.toNat < 0x80) :
    cutsPair t n = false := by
  rw [cutsPair, splitsPair, List.getLast?_take, hlast]
  split
  · rfl
  · rw [Option.some_or, Option.any_some, isHighSurrogate_of_ascii hu]
    rfl

/-- No pair is cut behind a text that ends with a whole character. -/
theorem cutsPair_behind (before after : Text) (h : before.getLast?.any isHighSurrogate = false) :
    cutsPair (before ++ after) before.length = false := by
  rw [cutsPair, splitsPair, List.take_left, h]
  rfl

/-- No pair is cut before a unit of ASCII, or where a text ends. -/
theorem cutsPair_before {kind : CodeUnit → Bool} (hkind : IsAsciiKind kind) {before after : Text}
    (h : after.head?.all kind = true) : cutsPair (before ++ after) before.length = false := by
  rw [cutsPair, List.drop_left, splitsPair]
  cases hnext : after.head? with
  | none => exact Bool.and_false _
  | some u =>
      rw [hnext] at h
      rw [Option.any_some, isLowSurrogate_of_ascii (hkind u h), Bool.and_false]

theorem cutsPair_of_next (h : ∀ u, t[n]? = some u → isLowSurrogate u = false) :
    cutsPair t n = false := by
  rw [cutsPair, splitsPair, List.head?_drop]
  cases hnext : t[n]? with
  | none => exact Bool.and_false _
  | some u => rw [Option.any_some, h u hnext, Bool.and_false]

theorem cutsPair_of_length_le (h : t.length ≤ n) : cutsPair t n = false :=
  cutsPair_of_next fun u hu => by
    rw [List.getElem?_eq_none h] at hu
    cases hu

end Text

/-! ### Lexemes -/

theorem Escape.ascii_of_match? {t name : Text} {length : Nat}
    (h : Escape.match? t = some (name, length)) : ∀ u ∈ t.take length, u.toNat < 0x80 := by
  cases t with
  | nil => cases h
  | cons u rest =>
      simp only [Escape.match?] at h
      split at h
      · next hcolon =>
        split at h
        · next hcolons =>
          cases h
          obtain ⟨after, rfl⟩ := List.head?_eq_some_iff.1 (beq_iff_eq.1 hcolons)
          rw [beq_iff_eq.1 hcolon]
          simpa using by decide
        · cases h
      · obtain ⟨sign, hfind, heq⟩ := Option.map_eq_some_iff.1 h
        cases heq
        have hsigns : ∀ sign ∈ Escape.signs, (unit sign.1).toNat < 0x80 := by decide
        have hu : unit sign.1 = u := by simpa using List.find?_some hfind
        rw [← hu]
        simpa using hsigns sign (List.mem_of_find?_eq_some hfind)

namespace Lexeme

variable {t : Text} {lexeme : Lexeme}

/-- An address that takes all it may take. -/
structure FillsWindow (lexeme : Lexeme) : Prop where
  kind : lexeme.kind = .url
  isEmail : lexeme.isEmail = false
  length : lexeme.length = addressWindow

/-- Commands and escapes are written in ASCII. -/
theorem command?_ascii {sign : CodeUnit} {rest : Text} (h : command? (sign :: rest) = some lexeme) :
    ∀ u ∈ rest.take (lexeme.length - 1), u.toNat < 0x80 := by
  obtain ⟨_, _, ⟨⟩, ⟨name, length, hescape, rfl⟩ | ⟨bracket, more, rfl, hbracket, rfl⟩ | rfl⟩ :=
    command?_shape h
  · exact Escape.ascii_of_match? hescape
  · show ∀ u ∈ [unit 'f', bracket], u.toNat < 0x80
    exact List.forall_mem_cons.2 ⟨by decide, List.forall_mem_singleton.2
      (isAsciiKind_elem (t := formulaBrackets) (by decide) bracket hbracket)⟩
  · intro u hu
    rw [Nat.add_sub_cancel, ← List.prefix_iff_eq_take.1 (List.takeWhile_prefix _)] at hu
    exact isAsciiKind_isIdentifierChar u (List.mem_takeWhile_imp hu)

theorem command?_ends {sign : CodeUnit} {rest : Text} (hsign : sign.toNat < 0x80)
    (h : command? (sign :: rest) = some lexeme) :
    Text.cutsPair (sign :: rest) lexeme.length = false := by
  refine Text.cutsPair_of_take fun u hu => ?_
  cases hlength : lexeme.length with
  | zero =>
      rw [hlength] at hu
      cases hu
  | succ n =>
      rw [hlength, List.take_succ_cons] at hu
      have hrest := command?_ascii h
      rw [hlength] at hrest
      rcases List.mem_cons.1 hu with rfl | hu
      · exact hsign
      · exact hrest u hu

theorem tag?_ends (h : tag? t = some lexeme) : t.cutsPair lexeme.length = false := by
  obtain ⟨found, hfound, rfl⟩ := Option.map_eq_some_iff.1 h
  exact Text.cutsPair_of_last (Tag.closed_of_match? hfound) (by decide)

theorem entity?_ends (h : entity? t = some lexeme) : t.cutsPair lexeme.length = false := by
  obtain ⟨body, kind, value, hbody, rfl, -⟩ := entity?_shape h
  obtain ⟨u, after, rfl⟩ := exists_of_entityBody? hbody
  refine Text.cutsPair_of_last (u := unit ';') ?_ (by decide)
  rw [show body.length + 2 - 1 = body.length + 1 from rfl, List.getElem?_cons_succ]
  simp

theorem marked?_ends (h : marked? t = some lexeme) : t.cutsPair lexeme.length = false := by
  rcases marked?_forms h with ⟨u, rest, rfl, hsign, hcommand⟩ | htag | hentity | hkeyword
  · refine command?_ends ?_ hcommand
    rcases isCommandSign_iff.1 hsign with rfl | rfl <;> decide
  · exact tag?_ends htag
  · exact entity?_ends hentity
  · exact Text.cutsPair_of_last (keyword?_closed hkeyword).2 (by decide)

/-- An address ends between characters unless it takes all it may take. -/
theorem address?_whole (h : address? t = some lexeme) :
    t.cutsPair lexeme.length = false ∨ lexeme.FillsWindow := by
  obtain ⟨hkind, hemail⟩ := address?_kind h
  rcases address?_ends h with hwindow | hends
  · exact .inr ⟨hkind, hemail, hwindow⟩
  · refine .inl (Text.cutsPair_of_next fun u hu => ?_)
    rw [Bool.eq_false_iff]
    intro hlow
    rcases hends u hu with hpunctuation | hother
    · rw [isAsciiKind_isTrailingPunctuation.eq_false hlow] at hpunctuation
      cases hpunctuation
    · rw [isAddressUnit_of_isLowSurrogate hlow] at hother
      cases hother

theorem mail?_ends (h : mail? t = some lexeme) : t.cutsPair lexeme.length = false := by
  obtain ⟨-, u, hlast, hhost⟩ := mail?_closed h
  exact Text.cutsPair_of_last hlast (isAsciiKind_isHostUnit u hhost)

/-- Behind the tail of a word stands a unit that ends words, or nothing. -/
theorem isWordUnit_behind_wordTail (t : Text) :
    ∀ u, t[wordTail t]? = some u → isWordUnit u = false := by
  induction t with
  | nil => exact nofun
  | cons u rest ih =>
      intro v hv
      rw [wordTail] at hv
      split at hv
      · next hends =>
        obtain rfl : u = v := Option.some.inj hv
        rw [Bool.eq_false_iff]
        intro hword
        have htail := wordTail_append (List.forall_mem_singleton.2 hword) rest
        rw [List.singleton_append, wordTail, if_pos hends, List.length_singleton] at htail
        omega
      · exact ih v hv

theorem word_ends (t : Text) : t.cutsPair (word t).length = false := by
  refine Text.cutsPair_of_next fun u hu => ?_
  have hbehind : (t.drop 1)[wordTail (t.drop 1)]? = some u := by
    rw [List.getElem?_drop]
    exact hu
  rw [Bool.eq_false_iff]
  intro hlow
  have hword := isWordUnit_behind_wordTail (t.drop 1) u hbehind
  rw [isWordUnit_of_isLowSurrogate hlow] at hword
  cases hword

/-- Every lexeme ends between characters, but for an address that takes all it may take. -/
theorem next_ends (insidePre insideList atLineStart : Bool) (t : Text) :
    t.cutsPair (next insidePre insideList atLineStart t).length = false ∨
      (next insidePre insideList atLineStart t).FillsWindow := by
  rcases next_cases insidePre insideList atLineStart t with hskips | ⟨-, hplain⟩
  · refine .inl (Text.cutsPair_of_take fun u hu => ?_)
    rcases hskips.units u hu with hspace | hmarker
    · exact isAsciiKind_isSpace u hspace
    · exact isAsciiKind_isMarkerUnit u hmarker
  · rw [hplain]
    rcases plain_forms t with hmarked | haddress | hmail | hword
    · exact .inl (marked?_ends hmarked)
    · exact address?_whole haddress
    · exact .inl (mail?_ends hmail)
    · exact .inl (hword ▸ word_ends t)

end Lexeme

/-! ### Arguments and raw blocks -/

/-- A rule for what is read of a text and what is skipped, by which no pair is cut. -/
def KeepsPairs (rule : Text → Option Text → Text → Prop) : Prop :=
  ∀ t read skipped, rule t read skipped → t.cutsPair skipped.length = false

theorem ArgumentAhead.keepsPairs : KeepsPairs ArgumentAhead := by
  rintro t read skipped (⟨-, -, -, hends⟩ | ⟨-, hends⟩)
  · rw [← List.append_assoc]
    exact Text.cutsPair_before isAsciiKind_isSpace hends
  · exact Text.cutsPair_before isAsciiKind_isLineBreak hends

theorem QuotedAhead.keepsPairs : KeepsPairs QuotedAhead := by
  rintro t read skipped (@⟨blanks, body, rest, ⟨rfl, -, -⟩⟩ | -)
  · have hbehind := Text.cutsPair_behind (blanks ++ unit '"' :: body ++ [unit '"']) rest
      (by rw [List.getLast?_concat]; decide)
    simpa using hbehind
  · exact Text.cutsPair_of_take nofun

theorem LineAhead.keepsPairs : KeepsPairs LineAhead := by
  rintro t read skipped ⟨-, hends⟩
  exact Text.cutsPair_before isAsciiKind_isLineBreak hends

theorem AttachedAhead.keepsPairs {opening : Text} {closing : CodeUnit}
    (h : isHighSurrogate closing = false) : KeepsPairs (AttachedAhead opening [closing]) := by
  rintro t read skipped (@⟨body, rest, ⟨rfl, -, -, -⟩⟩ | -)
  · have hbehind := Text.cutsPair_behind (opening ++ body ++ [closing]) rest
      (by rw [List.getLast?_concat]; exact h)
    simpa using hbehind
  · exact Text.cutsPair_of_take nofun

/-- Markup comments end with a whole character, or with the text. -/
theorem AreComments.ends {atEnd : Prop} {t : Text} (h : AreComments atEnd t) :
    atEnd ∨ t.getLast?.any isHighSurrogate = false := by
  induction h with
  | nil => exact .inr rfl
  | @closed t more comment rest ih =>
      refine ih.imp_right fun hmore => ?_
      obtain ⟨body, rfl, -⟩ := comment
      cases hlast : more.getLast? with
      | none =>
          obtain rfl := List.getLast?_eq_none_iff.1 hlast
          rw [List.append_nil, List.getLast?_append_of_ne_nil _ (by decide)]
          decide
      | some u =>
          rw [List.getLast?_append, hlast, Option.some_or]
          rwa [hlast] at hmore
  | unclosed comment ends => exact .inl ends

/-! ### Scanners and their places -/

namespace Cursor

/-- A cursor is moved in its text to a place that is not inside a pair, or stays where it is. -/
structure Lands (c c' : Cursor) : Prop where
  text_eq : c'.text = c.text
  whole : c'.offset = c.offset ∨ c.text.cutsPair c'.offset = false

variable {c c' c'' : Cursor}

theorem Lands.refl (c : Cursor) : c.Lands c := ⟨rfl, .inl rfl⟩

theorem Lands.trans (h : c.Lands c') (h' : c'.Lands c'') : c.Lands c'' := by
  refine ⟨h'.text_eq.trans h.text_eq, ?_⟩
  rcases h'.whole with hstays | hwhole
  · rw [hstays]
    exact h.whole
  · rw [h.text_eq] at hwhole
    exact .inr hwhole

theorem lands_of_ahead (between : Text) (htext : c'.text = c.text)
    (hahead : c.ahead = between ++ c'.ahead) (h : Text.splitsPair between c'.ahead = false) :
    c.Lands c' := by
  have hbefore := c.offset_add_length_ahead
  have hafter := c'.offset_add_length_ahead
  rw [hahead, List.length_append] at hbefore
  rw [htext] at hafter
  refine ⟨htext, ?_⟩
  rcases between with _ | ⟨u, between⟩
  · left
    rw [List.length_nil] at hbefore
    omega
  · right
    have hoffset : c'.offset = (c.behind.reverse ++ u :: between).length := by
      rw [List.length_append, List.length_reverse, ← c.offset_eq]
      omega
    rw [Text.cutsPair, hoffset, text, hahead, ← List.append_assoc, List.take_left, List.drop_left,
      Text.splitsPair, List.getLast?_append_of_ne_nil _ (List.cons_ne_nil _ _)]
    exact h

theorem lands_advance {n : Nat} (h : c.ahead.cutsPair n = false) : c.Lands (c.advance n) := by
  refine lands_of_ahead (c.ahead.take n) (text_advance ..) ?_ ?_
  · rw [ahead_advance, List.take_append_drop]
  · rwa [ahead_advance]

end Cursor

/-- A token of an address that takes all it may take. -/
structure Token.FillsWindow (token : Token) : Prop where
  kind : token.kind = .url
  isEmail : token.flags.isEmail = false
  stop_eq : token.stop = token.start + Lexeme.addressWindow

namespace Scanner

theorem Follows.lands {s : Scanner} {rule : Text → Option Text → Text → Prop}
    {read : Option Text × Scanner} (h : s.Follows rule read) (hrule : KeepsPairs rule) :
    s.cursor.Lands read.2.cursor := by
  obtain ⟨skipped, hfollows, hafter⟩ := h
  rw [hafter]
  exact Cursor.lands_advance (hrule _ _ _ hfollows)

theorem lands_skipHorizontalSpace (s : Scanner) :
    s.cursor.Lands s.skipHorizontalSpace.cursor := by
  refine Cursor.lands_advance (Text.cutsPair_of_take fun u hu => ?_)
  rw [← List.prefix_iff_eq_take.1 (List.takeWhile_prefix _)] at hu
  exact isAsciiKind_isHorizontalSpace u (List.mem_takeWhile_imp hu)

/-- A raw block ends behind a whole marker, or with the text. -/
theorem lands_readRaw (s : Scanner) {markers : List Text}
    (h : ∀ marker ∈ markers, marker.IsWellFormed) :
    s.cursor.Lands (s.readRaw markers).2.cursor := by
  unfold readRaw
  dsimp only
  split
  · next i marker hfound =>
    obtain ⟨hleast, hfirst⟩ := findMarker?_eq_some hfound
    obtain ⟨before, after, htext, rfl, -⟩ := hfirst.endsRawAt
    refine Cursor.lands_advance ?_
    rcases List.eq_nil_or_concat marker with rfl | ⟨init, u, rfl⟩
    · -- an empty marker ends a block at once
      have hzero := hleast.2 ⟨le_rfl, [], hfirst.mem, [], _, rfl, rfl, fun hends => nomatch hends.1⟩
      rw [Nat.le_zero.1 hzero]
      exact Text.cutsPair_of_take nofun
    · have hlast := (h _ hfirst.mem).getLast?_eq
      rw [htext, ← List.length_append]
      refine Text.cutsPair_behind _ after ?_
      rwa [List.getLast?_append_of_ne_nil _ (by simp)]
  · exact Cursor.lands_advance (Text.cutsPair_of_length_le le_rfl)

theorem lands_skipComments (c : Cursor) : c.Lands (skipComments c) := by
  obtain ⟨between, hbetween, hcomments⟩ := ahead_skipComments c
  refine Cursor.lands_of_ahead between (skipComments_spec c).1 hbetween ?_
  rw [Text.splitsPair]
  rcases hcomments.ends with hend | hwhole
  · rw [hend]
    exact Bool.and_false _
  · rw [hwhole, Bool.false_and]

/-- A token begins where the scanner stands, or between two characters. -/
theorem scan_begins (s : Scanner) :
    s.scan.token.start = s.offset ∨ s.text.cutsPair s.scan.token.start = false :=
  (lands_skipComments s.cursor).whole

theorem lexeme_ends (s : Scanner) (c : Cursor) :
    c.ahead.cutsPair (s.lexeme c).length = false ∨ (s.lexeme c).FillsWindow := by
  unfold lexeme
  split
  · exact .inl (Text.cutsPair_of_take nofun)
  · exact Lexeme.next_ends ..

/-- A token ends between two characters, unless it is an address that takes all it may take. -/
theorem scan_ends (s : Scanner) :
    s.text.cutsPair s.scan.token.stop = false ∨ s.scan.token.FillsWindow := by
  have htile := s.scan_isTile
  have hcomments := lands_skipComments s.cursor
  rcases s.lexeme_ends (skipComments s.cursor) with hwhole | ⟨hkind, hemail, hlength⟩
  · left
    rcases (Cursor.lands_advance hwhole).whole with hempty | hwhole
    · -- only the end of the text takes nothing
      have hend : s.scan.token.kind = .endOfText := by
        by_contra hkind
        exact (htile.start_lt hkind).ne hempty.symm
      exact Text.cutsPair_of_length_le (htile.ended hend).2.ge
    · rwa [hcomments.text_eq] at hwhole
  · refine .inr ⟨hkind, hemail, ?_⟩
    have hfits := (s.lexeme_fits (skipComments s.cursor)).length_le
    rw [hlength] at hfits
    show ((skipComments s.cursor).advance _).offset = (skipComments s.cursor).offset + _
    rw [hlength, Cursor.offset_advance, Nat.min_eq_left hfits]

/-! ### Runs -/

/-- What is done with a scanner between two scans: a mode is changed, spaces are skipped, an
argument or a raw block is read, or the scanner is sent to another place. -/
inductive Use where
  | change (mode : ModeChange)
  | skip
  | argument
  | quoted
  | line
  | attached (opening : Text) (closing : CodeUnit)
  | raw (markers : List Text)
  | moveTo (offset : Nat)

/-- The scanner after a use. -/
def use (s : Scanner) : Use → Scanner
  | .change mode => s.change mode
  | .skip => s.skipHorizontalSpace
  | .argument => s.readArgument.2
  | .quoted => s.readQuoted.2
  | .line => s.readLine.2
  | .attached opening closing => (s.readAttached opening [closing]).2
  | .raw markers => (s.readRaw markers).2
  | .moveTo offset => s.moveTo offset

/-- A use that gives the scanner whole characters to look for, or a place between characters. -/
def Use.IsWhole (t : Text) : Use → Prop
  | .attached _ closing => Text.IsWellFormed [closing]
  | .raw markers => ∀ marker ∈ markers, marker.IsWellFormed
  | .moveTo offset => t.IsBoundary offset
  | _ => True

theorem lands_use (s : Scanner) (ht : s.text.IsWellFormed) {use : Use} (h : use.IsWhole s.text) :
    s.cursor.Lands (s.use use).cursor := by
  cases use with
  | change mode => cases mode <;> exact .refl _
  | skip => exact s.lands_skipHorizontalSpace
  | argument => exact s.readArgument_follows.lands ArgumentAhead.keepsPairs
  | quoted => exact s.readQuoted_follows.lands QuotedAhead.keepsPairs
  | line => exact s.readLine_follows.lands LineAhead.keepsPairs
  | attached opening closing =>
      have hclosing : isHighSurrogate closing = false := Text.IsWellFormed.getLast?_eq h
      exact (readAttached_follows (List.cons_ne_nil closing []) s).lands
        (AttachedAhead.keepsPairs hclosing)
  | raw markers => exact s.lands_readRaw h
  | moveTo offset =>
      obtain ⟨hle, hwhole⟩ := (Text.isBoundary_iff ht).1 h
      have hoffset : (s.cursor.moveTo offset).offset = offset := Cursor.offset_moveTo hle
      exact ⟨Cursor.text_moveTo .., .inr (by rw [use, moveTo, hoffset]; exact hwhole)⟩

theorem lands_uses (s : Scanner) (ht : s.text.IsWellFormed) {uses : List Use}
    (h : ∀ use ∈ uses, use.IsWhole s.text) : s.cursor.Lands (uses.foldl use s).cursor := by
  induction uses generalizing s with
  | nil => exact .refl _
  | cons first uses ih =>
      have hfirst := s.lands_use ht (h first List.mem_cons_self)
      have htext : (s.use first).text = s.text := hfirst.text_eq
      refine hfirst.trans (ih (s.use first) (by rwa [htext]) fun use huse => ?_)
      rw [htext]
      exact h use (List.mem_cons_of_mem _ huse)

/-- The tokens of scans, each of which follows some uses of the scanner. -/
def scanned (s : Scanner) : List (List Use) → List Token
  | [] => []
  | uses :: more =>
    let next := (uses.foldl use s).scan
    next.token :: next.scanned more

/-- One scan after some uses: its token ends between two characters unless it fills the window, and
begins between two characters unless it begins where the scanner stood before the uses. -/
theorem scan_after_uses (s : Scanner) (ht : s.text.IsWellFormed) {uses : List Use}
    (h : ∀ use ∈ uses, use.IsWhole s.text) :
    let token := (uses.foldl use s).scan.token
    (s.text.IsBoundary token.stop ∨ token.FillsWindow) ∧
      (s.text.IsBoundary token.start ∨ token.start = s.offset) := by
  intro token
  have hlands := s.lands_uses ht h
  have htext : (uses.foldl use s).text = s.text := hlands.text_eq
  have htile : token.IsTile _ _ := (uses.foldl use s).scan_isTile
  have hends := (uses.foldl use s).scan_ends
  have hbegins := (uses.foldl use s).scan_begins
  rw [htext] at htile hends hbegins
  have hboundary : ∀ {p : Nat}, p ≤ s.text.length → s.text.cutsPair p = false →
      s.text.IsBoundary p := fun hp hwhole => (Text.isBoundary_iff ht).2 ⟨hp, hwhole⟩
  refine ⟨hends.imp_left (hboundary htile.stop_le), ?_⟩
  have hstart := htile.start_le.trans htile.stop_le
  rcases hbegins with hstays | hwhole
  · rcases hlands.whole with hplace | hwhole
    · exact .inr (hstays.trans hplace)
    · rw [← Scanner.offset, ← hstays] at hwhole
      exact .inl (hboundary hstart hwhole)
  · exact .inl (hboundary hstart hwhole)

theorem scanned_boundaries (s : Scanner) (ht : s.text.IsWellFormed) {run : List (List Use)}
    (h : ∀ uses ∈ run, ∀ use ∈ uses, use.IsWhole s.text) :
    ∀ token ∈ s.scanned run,
      (s.text.IsBoundary token.stop ∨ token.FillsWindow) ∧
        (s.text.IsBoundary token.start ∨ token.start = s.offset ∨
          ∃ previous ∈ s.scanned run, previous.FillsWindow ∧ previous.stop = token.start) := by
  induction run generalizing s with
  | nil => exact fun token htoken => absurd htoken List.not_mem_nil
  | cons uses run ih =>
      obtain ⟨huses, hrun⟩ := List.forall_mem_cons.1 h
      obtain ⟨hstop, hstart⟩ := s.scan_after_uses ht huses
      have htext : (uses.foldl use s).scan.text = s.text :=
        (advances_scan _).text.trans (s.lands_uses ht huses).text_eq
      have hmore := ih (uses.foldl use s).scan (by rwa [htext]) (by rwa [htext])
      rw [htext] at hmore
      refine List.forall_mem_cons.2 ⟨⟨hstop, hstart.imp_right .inl⟩, fun token htoken => ?_⟩
      obtain ⟨hends, hbegins⟩ := hmore token htoken
      refine ⟨hends, ?_⟩
      rcases hbegins with hwhole | hplace | ⟨previous, hprevious, hfills, hsame⟩
      · exact .inl hwhole
      · -- it begins where the token of the first scan ends
        rcases hstop with hwhole | hfills
        · exact .inl (by rwa [hplace])
        · exact .inr (.inr ⟨_, List.mem_cons_self, hfills, hplace.symm⟩)
      · exact .inr (.inr ⟨previous, List.mem_cons_of_mem _ hprevious, hfills, hsame⟩)

/-- In a well-formed text, whatever is done with the scanner between two scans, tokens begin and end
between two characters.  Only an address that takes all it may take can end elsewhere, and only the
token that begins where such an address ends can begin elsewhere. -/
theorem scanned_on_boundaries (s : Scanner) {t : Text} (ht : t.IsWellFormed)
    {run : List (List Use)} (hrun : ∀ uses ∈ run, ∀ use ∈ uses, use.IsWhole t) :
    ∀ token ∈ (s.load t).scanned run,
      (t.IsBoundary token.stop ∨ token.FillsWindow) ∧
        (t.IsBoundary token.start ∨
          ∃ previous ∈ (s.load t).scanned run,
            previous.FillsWindow ∧ previous.stop = token.start) := by
  intro token htoken
  obtain ⟨hstop, hstart⟩ := (s.load t).scanned_boundaries ht hrun token htoken
  have hzero : t.IsBoundary (s.load t).offset :=
    (Text.isBoundary_iff ht).2 ⟨Nat.zero_le _, Text.cutsPair_of_take nofun⟩
  refine ⟨hstop, ?_⟩
  rcases hstart with hwhole | hplace | hprevious
  · exact .inl hwhole
  · exact .inl (by rwa [hplace])
  · exact .inr hprevious

/-- Characters of two units in an option, in a word and behind an address. -/
theorem scanned_on_boundaries_of_pairs :
    let t := units "[😀] 😀 http://😀."
    let run := [[.attached (units "[") (unit ']')], [.argument], [], [.moveTo 1, .raw [units "] "]]]
    t.IsWellFormed ∧ (∀ uses ∈ run, ∀ use ∈ uses, use.IsWhole t) ∧
      ∀ token ∈ (({} : Scanner).load t).scanned run,
        (t.IsBoundary token.stop ∨ token.FillsWindow) ∧
          (t.IsBoundary token.start ∨
            ∃ previous ∈ (({} : Scanner).load t).scanned run,
              previous.FillsWindow ∧ previous.stop = token.start) := by
  intro t run
  have ht : t.IsWellFormed := by decide
  have hrun : ∀ uses ∈ run, ∀ use ∈ uses, use.IsWhole t := by
    have hbracket : Use.IsWhole t (.attached (units "[") (unit ']')) :=
      show Text.IsWellFormed [unit ']'] by decide
    have hmove : Use.IsWhole t (.moveTo 1) := ⟨"[", "😀] 😀 http://😀.", rfl, rfl⟩
    have hraw : Use.IsWhole t (.raw [units "] "]) :=
      List.forall_mem_singleton.2 (Text.isWellFormed_units "] ")
    simp only [run, List.forall_mem_cons, List.not_mem_nil, false_implies, implies_true, and_true]
    exact ⟨hbracket, trivial, trivial, hmove, hraw⟩
  exact ⟨ht, hrun, scanned_on_boundaries {} ht hrun⟩

/-- An address whose window ends inside a character: the address takes the first half of it, and the
other half becomes a word. -/
theorem scanned_cuts_character :
    let t := units "http://" ++ List.replicate 2040 (unit 'a') ++ units "😀"
    t.IsWellFormed ∧
      ((({} : Scanner).load t).scanned [[], [], []]).map
          (fun token => (token.kind, token.start, token.stop)) =
        [(.url, 0, 2048), (.word, 2048, 2049), (.endOfText, 2049, 2049)] ∧
      ¬ t.IsBoundary 2048 := by
  intro t
  have ht : t.IsWellFormed := by decide +kernel
  refine ⟨ht, by decide +kernel, fun hboundary => ?_⟩
  have hcut : t.cutsPair 2048 = true := by decide +kernel
  rw [((Text.isBoundary_iff ht).1 hboundary).2] at hcut
  cases hcut

end Scanner

end DocMarkup
