import DocMarkup.Proofs.Alias.Expansion
import DocMarkup.Proofs.Scanner.Signs

/-!
Where expansion puts a value in the place of a reference, seen from the tokens of the same text.
Expansion reads a text without its tokens: a reference it replaces is a command token, or it stands
inside an address, a tag, a keyword or a comment, or it is an at-sign inside a word.  In one case
expansion and the scanner divide a run of command characters differently: behind an address that
took all it may take.
-/

namespace DocMarkup

open CodeUnit (isCommandSign of_isCommandSign)
open IncludeBuffer (slice)

/-! ### Lexemes around command characters -/

namespace Lexeme

variable {insidePre insideList atLineStart : Bool} {t rest : Text} {u : CodeUnit}

/-- Neither an escaped sign nor a colon begins a name. -/
theorem match?_eq_none_of_name (h : rest.head?.any CodeUnit.isIdentifierStart) :
    Escape.match? rest = none := by
  cases rest with
  | nil => cases h
  | cons v rest =>
      have hsigns : (unit ':' :: Escape.signs.map fun sign => unit sign.1).any
          CodeUnit.isIdentifierStart = false := by decide
      have hv : v ∉ unit ':' :: Escape.signs.map fun sign => unit sign.1 := by
        intro hmem
        exact List.any_eq_false.1 hsigns v hmem h
      rw [List.mem_cons, not_or] at hv
      rw [Escape.match?, if_neg (by simpa using hv.1), Option.map_eq_none_iff,
        List.find?_eq_none]
      intro sign hsign heq
      apply hv.2
      rw [← beq_iff_eq.1 heq]
      exact List.mem_map_of_mem hsign

/-- A command character with a name behind it begins a command. -/
theorem kind_next_of_name (hu : isCommandSign u)
    (hname : rest.head?.any CodeUnit.isIdentifierStart) :
    (next insidePre insideList atLineStart (u :: rest)).kind = .command := by
  have hidentifier : ∃ lexeme, identifier? rest = some lexeme ∧ lexeme.kind = .command := by
    cases rest with
    | nil => cases hname
    | cons v rest =>
        rw [List.head?_cons, Option.any_some] at hname
        exact ⟨_, if_pos hname, rfl⟩
  have hcommand : ∃ lexeme, command? (u :: rest) = some lexeme ∧ lexeme.kind = .command := by
    unfold command?
    dsimp only
    rw [match?_eq_none_of_name hname]
    dsimp only
    split
    · split
      · exact ⟨_, rfl, rfl⟩
      · exact hidentifier
    · exact hidentifier
  obtain ⟨lexeme, hlexeme, hkind⟩ := hcommand
  rw [next_eq_command (CodeUnit.isCommandSign_iff.1 hu) hlexeme, hkind]

/-- Two command characters begin an escape. -/
theorem next_of_signs (hfirst : Text.signAt t 0) (hsecond : Text.signAt t 1) :
    (next insidePre insideList atLineStart t).kind = .symbol ∧
      (next insidePre insideList atLineStart t).length = 2 := by
  rcases t with _ | ⟨u, _ | ⟨v, rest⟩⟩
  · cases hfirst
  · cases hsecond
  · have hu : isCommandSign u := hfirst
    have hv : isCommandSign v := hsecond
    have hescape : ∃ name, Escape.match? (v :: rest) = some (name, 1) :=
      of_isCommandSign (fun v => ∃ name, Escape.match? (v :: rest) = some (name, 1)) hv
        ⟨_, rfl⟩ ⟨_, rfl⟩
    obtain ⟨name, hname⟩ := hescape
    have hcommand : command? (u :: v :: rest) =
        some { kind := .symbol, length := 2, value := name } := by
      unfold command?
      dsimp only
      rw [hname]
    rw [next_eq_command (CodeUnit.isCommandSign_iff.1 hu) hcommand]
    exact ⟨rfl, rfl⟩

/-- A command starts inside a word wherever a command character has one behind it. -/
theorem startsCommand_of_signs {v : CodeUnit} (hu : isCommandSign u) (hv : isCommandSign v) :
    startsCommand u (v :: rest) = true := by
  have hescape : (Escape.match? (v :: rest)).isSome = true :=
    of_isCommandSign (fun v => (Escape.match? (v :: rest)).isSome = true) hv rfl rfl
  have hsign : (u == unit '\\' || u == unit '@') = true := hu
  rw [startsCommand, hsign, hescape]
  rfl

/-- Between two command characters only an escape ends, or an address that takes all it may. -/
theorem ends_between_signs {lexeme : Lexeme} {n : Nat}
    (hlexeme : next insidePre insideList atLineStart t = lexeme) (hn : lexeme.length = n + 1)
    (hlast : Text.signAt t n) (hnext : Text.signAt t (n + 1)) :
    (lexeme.kind = .symbol ∧ lexeme.length = 2 ∧ Text.signAt t 0) ∨
      (lexeme.kind = .url ∧ lexeme.length = addressWindow) := by
  have hshows := next_shows insidePre insideList atLineStart t
  rw [hlexeme] at hshows
  have hpos : 0 < n := by
    by_contra hzero
    obtain rfl : n = 0 := by omega
    have hescape : lexeme.length = 2 := hlexeme ▸ (next_of_signs hlast hnext).2
    omega
  cases hshows with
  | plain unsigned =>
      rw [unsigned n hpos (by omega)] at hlast
      cases hlast
  | word kind starts =>
      rw [Text.signAt_eq_head, Option.any_eq_true] at hlast hnext
      obtain ⟨u, hu, hsign⟩ := hlast
      obtain ⟨v, hv, hother⟩ := hnext
      obtain ⟨rest, hrest⟩ := List.head?_eq_some_iff.1 hu
      rw [← List.drop_drop, hrest, List.drop_succ_cons, List.drop_zero] at hv
      obtain ⟨rest, rfl⟩ := List.head?_eq_some_iff.1 hv
      have hstarts := starts n u (v :: rest) hpos (by omega) hrest
      rw [startsCommand_of_signs hsign hother] at hstarts
      cases hstarts
  | escape kind length sign => exact .inl ⟨kind, length, sign⟩
  | address kind ends =>
      rw [hn, Nat.add_sub_cancel, hlast, hnext] at ends
      simp only [Bool.true_eq_false, or_false] at ends
      exact .inr ⟨kind, hn.trans ends⟩
  | closed kind ends =>
      rw [hn, Nat.add_sub_cancel, hlast] at ends
      cases ends

/-- What holds a reference behind its first unit. -/
theorem holds_reference {lexeme : Lexeme} {i : Nat}
    (hlexeme : next insidePre insideList atLineStart t = lexeme) (hpos : 0 < i)
    (hlt : i < lexeme.length) (hdrop : t.drop i = u :: rest) (hu : isCommandSign u)
    (hname : rest.head?.any CodeUnit.isIdentifierStart) :
    (lexeme.kind = .url ∨ lexeme.kind = .startTag ∨ lexeme.kind = .endTag ∨
        lexeme.kind = .keyword) ∨
      (lexeme.kind = .word ∧ u = unit '@') ∨
      (lexeme.kind = .symbol ∧ i = 1 ∧ lexeme.length = 2 ∧ Text.signAt t 0) := by
  have hshows := next_shows insidePre insideList atLineStart t
  rw [hlexeme] at hshows
  have hsign : Text.signAt t i = true := by
    rw [Text.signAt_eq_head, hdrop]
    exact hu
  cases hshows with
  | plain unsigned =>
      rw [unsigned i hpos hlt] at hsign
      cases hsign
  | word kind starts =>
      refine .inr (.inl ⟨kind, ?_⟩)
      rcases CodeUnit.isCommandSign_iff.1 hu with rfl | rfl
      · have hstarts := starts i _ rest hpos hlt hdrop
        rw [startsCommand, hname] at hstarts
        simp at hstarts
      · rfl
  | escape kind length sign => exact .inr (.inr ⟨kind, by omega, length, sign⟩)
  | address kind ends => exact .inl (.inl kind)
  | closed kind ends => exact .inl (.inr kind)

end Lexeme

/-! ### Tokens around an offset -/

/-- An offset inside a comment that no token reaches into. -/
def InComment (t : Text) (tokens : List Token) (i : Nat) : Prop :=
  ∃ start stop, start ≤ i ∧ i < stop ∧
    (IsClosedComment (slice t start stop) ∨
      (IsOpenComment (slice t start stop) ∧ stop = t.length)) ∧
    ∀ token ∈ tokens, token.stop ≤ start ∨ stop ≤ token.start

/-- Every offset in a row of comments lies in one of them. -/
theorem AreComments.exists_of_lt {atEnd : Prop} {t : Text} (h : AreComments atEnd t) {i : Nat}
    (hi : i < t.length) :
    ∃ start stop, start ≤ i ∧ i < stop ∧ stop ≤ t.length ∧
      (IsClosedComment (slice t start stop) ∨
        (IsOpenComment (slice t start stop) ∧ stop = t.length ∧ atEnd)) := by
  induction h generalizing i with
  | nil => cases hi
  | @closed t more comment rest ih =>
      by_cases hfirst : i < t.length
      case pos =>
        refine ⟨0, t.length, Nat.zero_le _, hfirst, by simp, .inl ?_⟩
        have hslice : slice (t ++ more) 0 t.length = t := by simp [slice]
        rwa [hslice]
      case neg =>
        rw [List.length_append] at hi
        obtain ⟨start, stop, hstart, hstop, hle, hcomment⟩ := ih (i := i - t.length) (by omega)
        refine ⟨t.length + start, t.length + stop, by omega, by omega,
          by rw [List.length_append]; omega, ?_⟩
        have hslice : slice (t ++ more) (t.length + start) (t.length + stop) =
            slice more start stop := by
          rw [slice, slice, List.drop_length_add_append]
          congr 1
          omega
        rw [hslice, List.length_append, Nat.add_left_cancel_iff]
        exact hcomment
  | @unclosed t comment ends =>
      refine ⟨0, t.length, Nat.zero_le _, hi, Nat.le_refl _, .inr ⟨?_, rfl, ends⟩⟩
      have hslice : slice t 0 t.length = t := by simp [slice]
      rwa [hslice]

/-- A closed comment ends in an angle bracket. -/
theorem not_signAt_comment {t : Text} {start stop : Nat}
    (h : IsClosedComment (slice t start stop)) : Text.signAt t (stop - 1) = false := by
  obtain ⟨body, hbody, -⟩ := h
  have hopening : (units "<!--").length = 4 := rfl
  have hclosing : (units "-->").length = 3 := rfl
  have hlength := congrArg List.length hbody
  rw [slice, List.length_take, List.length_drop, List.length_append, List.length_append,
    hopening, hclosing] at hlength
  by_cases hstop : t.length < stop
  · rw [Text.signAt, List.getElem?_eq_none (by omega), Option.any_none]
  have hlast : (slice t start stop)[stop - 1 - start]? = some (unit '>') := by
    have hplace : stop - 1 - start - (4 + body.length) = 2 := by omega
    rw [hbody, List.getElem?_append_right (by rw [List.length_append, hopening]; omega),
      List.length_append, hopening, hplace]
    rfl
  rw [slice, List.getElem?_take_of_lt (by omega), List.getElem?_drop] at hlast
  rw [Text.signAt, show stop - 1 = start + (stop - 1 - start) by omega, hlast]
  rfl

namespace Tiling

variable {t : Text} {place i : Nat} {tokens : List Token}

theorem le_start (h : Tiling t place tokens) : ∀ token ∈ tokens, place ≤ token.start := by
  induction h with
  | nil => exact fun token htoken => absurd htoken List.not_mem_nil
  | cons tile rest ih =>
      refine List.forall_mem_cons.2 ⟨tile.place_le, ?_⟩
      intro token htoken
      exact tile.place_le.trans (tile.start_le.trans (ih token htoken))

/-- Tokens do not overlap. -/
theorem apart (h : Tiling t place tokens) :
    ∀ first ∈ tokens, ∀ second ∈ tokens,
      first = second ∨ first.stop ≤ second.start ∨ second.stop ≤ first.start := by
  induction h with
  | nil => exact fun token htoken => absurd htoken List.not_mem_nil
  | cons tile rest ih =>
      intro first hfirst second hsecond
      rcases List.mem_cons.1 hfirst with rfl | hfirst'
      · rcases List.mem_cons.1 hsecond with rfl | hsecond'
        · exact .inl rfl
        · exact .inr (.inl (rest.le_start second hsecond'))
      · rcases List.mem_cons.1 hsecond with rfl | hsecond'
        · exact .inr (.inr (rest.le_start first hfirst'))
        · exact ih first hfirst' second hsecond'

theorem exists_tile (h : Tiling t place tokens) :
    ∀ token ∈ tokens, ∃ place, token.IsTile t place := by
  induction h with
  | nil => exact fun token htoken => absurd htoken List.not_mem_nil
  | cons tile rest ih => exact List.forall_mem_cons.2 ⟨⟨_, tile⟩, ih⟩

/-- Where the end of the text has been read, every offset lies in a token or in a comment between
tokens. -/
theorem covers (h : Tiling t place tokens) (hend : ∃ token ∈ tokens, token.kind = .endOfText)
    (hplace : place ≤ i) (hi : i < t.length) :
    (∃ token ∈ tokens, token.start ≤ i ∧ i < token.stop) ∨
      ∃ start stop, place ≤ start ∧ start ≤ i ∧ i < stop ∧
        (IsClosedComment (slice t start stop) ∨
          (IsOpenComment (slice t start stop) ∧ stop = t.length)) ∧
        ∀ token ∈ tokens, token.stop ≤ start ∨ stop ≤ token.start := by
  induction h with
  | nil =>
      obtain ⟨token, htoken, -⟩ := hend
      cases htoken
  | @cons place token more tile rest ih =>
      have hle := tile.start_le
      have hstop := tile.stop_le
      by_cases hbefore : i < token.start
      case pos =>
        -- the offset lies in a comment before this token
        have hcomments := tile.comments
        have hlength : (slice t place token.start).length = token.start - place := by
          rw [slice, List.length_take, List.length_drop]
          omega
        obtain ⟨start, stop, hstart, hlt, hshort, hcomment⟩ :=
          hcomments.exists_of_lt (i := i - place) (by rw [hlength]; omega)
        rw [hlength] at hshort
        have hslice : slice (slice t place token.start) start stop =
            slice t (place + start) (place + stop) := by
          simp only [slice, List.drop_take, List.take_take, List.drop_drop]
          congr 1
          omega
        rw [hslice, hlength] at hcomment
        refine .inr ⟨place + start, place + stop, by omega, by omega, by omega, ?_, ?_⟩
        · rcases hcomment with hclosed | ⟨hopen, hstop', hatEnd⟩
          · exact .inl hclosed
          · exact .inr ⟨hopen, by omega⟩
        · refine List.forall_mem_cons.2 ⟨.inr (by omega), ?_⟩
          intro other hother
          have := rest.le_start other hother
          exact .inr (by omega)
      case neg =>
        by_cases hinside : i < token.stop
        case pos => exact .inl ⟨token, List.mem_cons_self, by omega, hinside⟩
        case neg =>
          have hmore : ∃ other ∈ more, other.kind = .endOfText := by
            obtain ⟨other, hother, hkind⟩ := hend
            rcases List.mem_cons.1 hother with rfl | hother
            · have := (tile.ended hkind).1
              omega
            · exact ⟨other, hother, hkind⟩
          rcases ih hmore (by omega) with ⟨other, hother, hcover⟩ |
            ⟨start, stop, hplace', hstart, hlt, hcomment, happart⟩
          · exact .inl ⟨other, List.mem_cons_of_mem _ hother, hcover⟩
          · refine .inr ⟨start, stop, by have := tile.place_le; omega, hstart, hlt, hcomment, ?_⟩
            exact List.forall_mem_cons.2 ⟨.inl hplace', happart⟩

end Tiling

namespace Scanner

theorem readTokens_tiling (n : Nat) (s : Scanner) :
    Tiling s.text s.offset (readTokens n s).1 := by
  induction n generalizing s with
  | zero => exact .nil _
  | succ n ih =>
      have hmore := ih s.scan
      rw [s.advances_scan.text] at hmore
      unfold readTokens
      dsimp only
      split
      · exact .cons s.scan_isTile (.nil _)
      · exact .cons s.scan_isTile hmore

theorem readTokens_ends {n : Nat} {s : Scanner} (h : s.cursor.ahead.length < n) :
    ∃ token ∈ (readTokens n s).1, token.kind = .endOfText := by
  induction n generalizing s with
  | zero => cases h
  | succ n ih =>
      unfold readTokens
      dsimp only
      split
      · next hend => exact ⟨s.scan.token, List.mem_singleton_self _, beq_iff_eq.1 hend⟩
      · next hend =>
        have hahead := length_ahead_scan (s := s) fun hkind => hend (beq_iff_eq.2 hkind)
        obtain ⟨token, htoken, hkind⟩ := ih (s := s.scan) (by omega)
        exact ⟨token, List.mem_cons_of_mem _ htoken, hkind⟩

/-- A token that is not the end of the text is the lexeme at its start. -/
theorem readTokens_lexeme (n : Nat) (s : Scanner) :
    ∀ token ∈ (readTokens n s).1, token.kind ≠ .endOfText →
      ∃ insidePre insideList atLineStart lexeme,
        Lexeme.next insidePre insideList atLineStart (s.text.drop token.start) = lexeme ∧
          token.kind = lexeme.kind ∧ token.stop = token.start + lexeme.length := by
  induction n generalizing s with
  | zero => exact fun token htoken => absurd htoken List.not_mem_nil
  | succ n ih =>
      have hmore := ih s.scan
      rw [s.advances_scan.text] at hmore
      have hfirst : s.scan.token.kind ≠ .endOfText →
          ∃ insidePre insideList atLineStart lexeme,
            Lexeme.next insidePre insideList atLineStart (s.text.drop s.scan.token.start) = lexeme ∧
              s.scan.token.kind = lexeme.kind ∧
              s.scan.token.stop = s.scan.token.start + lexeme.length := by
        intro hkind
        obtain ⟨htext, -⟩ := skipComments_spec s.cursor
        have hfits := s.lexeme_fits (skipComments s.cursor)
        have hend : ¬(skipComments s.cursor).atEnd = true := by
          intro hend
          apply hkind
          show (s.lexeme (skipComments s.cursor)).kind = .endOfText
          rw [lexeme, if_pos hend]
        have hahead : s.text.drop s.scan.token.start = (skipComments s.cursor).ahead := by
          rw [text, ← htext]
          exact Cursor.drop_offset _
        refine ⟨s.insidePre, 0 < s.listDepth, (skipComments s.cursor).atLineStart,
          s.lexeme (skipComments s.cursor), ?_, rfl, ?_⟩
        · rw [hahead, lexeme, if_neg hend]
        · show ((skipComments s.cursor).advance _).offset = _
          rw [Cursor.offset_advance, Nat.min_eq_left hfits.length_le]
          rfl
      unfold readTokens
      dsimp only
      split
      · exact List.forall_mem_singleton.2 hfirst
      · exact List.forall_mem_cons.2 ⟨hfirst, hmore⟩

end Scanner

/-- The tokens of a text up to its end: they tile it, and each is the lexeme at its start. -/
structure AreRead (t : Text) (tokens : List Token) : Prop where
  tiling : Tiling t 0 tokens
  ends : ∃ token ∈ tokens, token.kind = .endOfText
  lexeme : ∀ token ∈ tokens, token.kind ≠ .endOfText →
    ∃ insidePre insideList atLineStart lexeme,
      Lexeme.next insidePre insideList atLineStart (t.drop token.start) = lexeme ∧
        token.kind = lexeme.kind ∧ token.stop = token.start + lexeme.length

theorem areRead_readAll (t : Text) : AreRead t (Scanner.ofText t).readAll.1 where
  tiling := Scanner.readTokens_tiling _ (Scanner.ofText t)
  ends := Scanner.readTokens_ends (Nat.lt_succ_self _)
  lexeme := Scanner.readTokens_lexeme _ (Scanner.ofText t)

namespace AreRead

variable {t : Text} {tokens : List Token} {i : Nat}

/-- An offset lies in the lexeme of a token, or in a comment between tokens. -/
theorem covers (h : AreRead t tokens) (hi : i < t.length) :
    (∃ token ∈ tokens, ∃ insidePre insideList atLineStart lexeme,
      Lexeme.next insidePre insideList atLineStart (t.drop token.start) = lexeme ∧
        token.kind = lexeme.kind ∧ token.stop = token.start + lexeme.length ∧
        token.start ≤ i ∧ i < token.stop) ∨ InComment t tokens i := by
  rcases h.tiling.covers h.ends (Nat.zero_le i) hi with ⟨token, htoken, hstart, hstop⟩ |
    ⟨start, stop, -, hcomment⟩
  · have hkind : token.kind ≠ .endOfText := by
      intro hkind
      obtain ⟨place, tile⟩ := h.tiling.exists_tile token htoken
      have := tile.ended hkind
      omega
    obtain ⟨insidePre, insideList, atLineStart, lexeme, hlexeme, hsame, hlength⟩ :=
      h.lexeme token htoken hkind
    exact .inl ⟨token, htoken, insidePre, insideList, atLineStart, lexeme, hlexeme, hsame, hlength,
      hstart, hstop⟩
  · exact .inr ⟨start, stop, hcomment⟩

/-- Where a token begins between two command characters, an escape ends there, or an address that
took all it may. -/
theorem ends_between (h : AreRead t tokens) {token : Token} (htoken : token ∈ tokens)
    (hstart : token.start = i + 1) (hstop : i + 1 < token.stop) (hfirst : Text.signAt t i)
    (hsecond : Text.signAt t (i + 1)) :
    ∃ before ∈ tokens, before.stop = i + 1 ∧
      ((before.start + 2 = i + 1 ∧ Text.signAt t before.start) ∨
        (before.kind = .url ∧ before.stop = before.start + Lexeme.addressWindow)) := by
  have hi : i < t.length := by
    by_contra hge
    rw [Text.signAt, List.getElem?_eq_none (by omega)] at hfirst
    cases hfirst
  -- the first sign lies in a token or in a comment, and either ends between the two
  rcases h.covers hi with
    ⟨before, hbefore, insidePre, insideList, atLineStart, lexeme, hlexeme, hkind, hlength, hle, hlt⟩ |
    ⟨start, stop, hle, hlt, hcomment, happart⟩
  · have hend : before.stop = i + 1 := by
      rcases h.tiling.apart before hbefore token htoken with rfl | hbehind | hahead
      · omega
      · omega
      · omega
    have hlast : Text.signAt (t.drop before.start) (i - before.start) = true := by
      rw [Text.signAt_drop, ← hfirst]
      congr 1
      omega
    have hnext : Text.signAt (t.drop before.start) (i - before.start + 1) = true := by
      rw [Text.signAt_drop, ← hsecond]
      congr 1
      omega
    refine ⟨before, hbefore, hend, ?_⟩
    rcases Lexeme.ends_between_signs hlexeme (by omega) hlast hnext with
      ⟨-, htwo, hsign⟩ | ⟨hurl, hwindow⟩
    · rw [Text.signAt_drop] at hsign
      exact .inl ⟨by omega, hsign⟩
    · exact .inr ⟨hkind.trans hurl, by rw [hlength, hwindow]⟩
  · have hbracket : stop = i + 1 := by
      rcases happart token htoken with hbehind | hahead
      · omega
      · omega
    rcases hcomment with hclosed | ⟨-, hend⟩
    · have hsign := not_signAt_comment hclosed
      rw [hbracket, Nat.add_sub_cancel, hfirst] at hsign
      cases hsign
    · rw [Text.signAt, List.getElem?_eq_none (by omega)] at hsecond
      cases hsecond

end AreRead

/-! ### Pieces before a reference -/

namespace Alias

/-- Arguments end in their closing brace. -/
theorem closes_of_argumentsFrom {depth : Nat} {current t : Text} {found : List Text} {n : Nat}
    (h : argumentsFrom depth current t = some (found, n)) :
    ∃ m, n = m + 1 ∧ t[m]? = some (unit '\x7d') := by
  fun_induction argumentsFrom depth current t generalizing found n
  case case1 => cases h
  case case6 hclose ih =>
    cases h
    exact ⟨0, rfl, congrArg some (beq_iff_eq.1 hclose)⟩
  all_goals
    rename_i ih
    obtain ⟨⟨arguments, count⟩, hfound, heq⟩ := Option.map_eq_some_iff.1 h
    obtain ⟨m, rfl, hclose⟩ : ∃ m, count = m + 1 ∧ _ := by
      first
      | exact ih hfound
      | exact ih _ hfound
    cases heq
    exact ⟨_, rfl, hclose⟩

end Alias

namespace AliasTable

variable {table : AliasTable} {t : Text}

/-- What is read at a piece is what is read at its offset. -/
theorem lead_of_mem_cuts {piece : Nat × Text} (h : piece ∈ table.cuts 0 t) :
    t.drop piece.1 ≠ [] ∧ table.lead piece.2 = table.lead (t.drop piece.1) := by
  obtain ⟨before, after, rfl, hne, hbefore, htaken⟩ := exists_append_of_mem_cuts h
  rw [hbefore, Nat.zero_add, List.drop_left, htaken, lead_take _ hne]
  exact ⟨hne, rfl⟩

/-- A piece that is not the first begins where another ends. -/
theorem exists_mem_cuts_before {offset : Nat} {piece : Nat × Text}
    (h : piece ∈ table.cuts offset t) (hne : piece.1 ≠ offset) :
    ∃ before ∈ table.cuts offset t, before.1 + (table.lead before.2).length = piece.1 := by
  fun_induction cuts table offset t with
  | case1 => cases h
  | case2 offset u rest length ih =>
      rcases List.mem_cons.1 h with rfl | hmem
      · exact absurd rfl hne
      · by_cases hfirst : piece.1 = offset + length
        · refine ⟨_, List.mem_cons_self, ?_⟩
          rw [hfirst]
          exact congrArg (offset + ·) (congrArg Lead.length
            (lead_take table (List.cons_ne_nil u rest)))
        · obtain ⟨before, hbefore, hends⟩ := ih hmem hfirst
          exact ⟨before, List.mem_cons_of_mem _ hbefore, hends⟩

/-- A command takes its name, or its arguments with it. -/
theorem length_reference (table : AliasTable) (name tail : Text) :
    (table.reference name tail).length = name.length + 1 ∨
      ∃ arguments stop, Alias.splitArguments? tail 0 = some (arguments, stop) ∧
        (table.reference name tail).length = name.length + 1 + stop := by
  cases hbraces : table.braces? name tail with
  | none =>
      rw [reference_of_braces_none hbraces]
      exact .inl rfl
  | some found =>
      obtain ⟨arguments, stop⟩ := found
      have hsplit : Alias.splitArguments? tail 0 = some (arguments, stop) := by
        rw [braces?] at hbraces
        split at hbraces
        · exact hbraces
        · cases hbraces
      rw [reference_of_braces_some hbraces]
      split
      · exact .inr ⟨arguments, stop, hsplit, rfl⟩
      · split
        · exact .inl rfl
        · exact .inr ⟨arguments, stop, hsplit, rfl⟩

/-- A command ends in its name or in a closing brace. -/
theorem not_signAt_command {found : Reference} (h : table.lead t = .command found) :
    ∃ n, found.length = n + 1 ∧ Text.signAt t n = false := by
  obtain ⟨sign, name, after, rfl, -, hstart, hname, -, rfl⟩ := lead_eq_command h
  rcases table.length_reference name after with hlength | ⟨arguments, stop, hsplit, hlength⟩
  · refine ⟨name.length, hlength, ?_⟩
    obtain ⟨m, hm⟩ : ∃ m, name.length = m + 1 := by
      apply Nat.exists_eq_add_one_of_ne_zero
      intro hzero
      rw [List.eq_nil_of_length_eq_zero hzero] at hstart
      cases hstart
    rw [Text.signAt, hm, List.getElem?_cons_succ, List.getElem?_append_left (by omega)]
    cases hlast : name[m]? with
    | none => rfl
    | some u =>
        rw [Option.any_some]
        exact CodeUnit.isCommandSign_eq_false _ rfl rfl
          (List.all_eq_true.1 hname u (List.mem_of_getElem? hlast))
  · obtain ⟨⟨found, n⟩, hfound, heq⟩ := Option.map_eq_some_iff.1 hsplit
    obtain ⟨m, rfl, hclose⟩ := Alias.closes_of_argumentsFrom hfound
    cases heq
    refine ⟨name.length + (m + 1) + 1, by rw [hlength]; omega, ?_⟩
    rw [List.getElem?_drop] at hclose
    rw [Text.signAt, List.getElem?_cons_succ, List.getElem?_append_right (by omega),
      Nat.add_sub_cancel_left, Nat.add_comm m, hclose]
    rfl

/-- Where two command characters follow each other and a piece begins between them, the piece
before it is an escape. -/
theorem escape_before {i : Nat} {piece : Nat × Text} (h : piece ∈ table.cuts 0 t)
    (hpiece : piece.1 = i + 1) (hfirst : Text.signAt t i) (hsecond : Text.signAt t (i + 1)) :
    ∃ before ∈ table.cuts 0 t, before.1 + 2 = i + 1 ∧ Text.signAt t before.1 := by
  obtain ⟨before, hbefore, hends⟩ := exists_mem_cuts_before h (by omega)
  obtain ⟨hne, hlead⟩ := lead_of_mem_cuts hbefore
  obtain ⟨u, rest, hdrop⟩ := List.exists_cons_of_ne_nil hne
  rw [hlead, hdrop, hpiece] at hends
  have hsign : Text.signAt t before.1 = isCommandSign u := by
    rw [Text.signAt_eq_head, hdrop, List.head?_cons, Option.any_some]
  have hunit : (u != unit '\\' && u != unit '@') = !isCommandSign u := by
    simp [CodeUnit.isCommandSign, bne]
  cases hu : isCommandSign u with
  | false =>
      -- a unit of another kind stands alone, where a command character should stand
      rw [lead_of_noSign (by rw [hunit, hu]; rfl)] at hends
      obtain rfl : before.1 = i := Nat.succ.inj hends
      rw [hsign, hu] at hfirst
      cases hfirst
  | true =>
      have hsignal : ¬(u != unit '\\' && u != unit '@') = true := by
        rw [hunit, hu]
        decide
      by_cases hescape : rest.head?.any Escape.isSign = true
      case pos =>
        rw [lead_of_escape hsignal hescape] at hends
        exact ⟨before, hbefore, hends, hsign.trans hu⟩
      case neg =>
        by_cases hname : rest.head?.any CodeUnit.isIdentifierStart = true
        case pos =>
          have hcommand : table.lead (u :: rest) = .command (table.named rest) :=
            lead_of_name hsignal hescape hname
          obtain ⟨n, hlength, hlast⟩ := not_signAt_command hcommand
          rw [hcommand, Lead.length, hlength, ← Nat.add_assoc] at hends
          rw [← hdrop, Text.signAt_drop, Nat.succ.inj hends, hfirst] at hlast
          cases hlast
        case neg =>
          rw [lead_of_noName hsignal hescape hname] at hends
          obtain rfl : before.1 = i := Nat.succ.inj hends
          -- the second of the command characters would be escaped by the first
          apply hescape.elim
          rw [Text.signAt_eq_head, ← List.drop_drop, hdrop, List.drop_succ_cons,
            List.drop_zero] at hsecond
          cases hrest : rest.head? with
          | none => rw [hrest] at hsecond; cases hsecond
          | some v =>
              rw [hrest, Option.any_some] at hsecond
              exact CodeUnit.isSign_of_isCommandSign hsecond

/-- Where an escape of the scanner is divided by a piece, the run of command characters around it
begins behind an address that took all it may. -/
theorem exists_address {tokens : List Token} (h : AreRead t tokens) {i : Nat}
    {piece : Nat × Text} (hmem : piece ∈ table.cuts 0 t) (hpiece : piece.1 = i + 1)
    (hfirst : Text.signAt t i) (hsecond : Text.signAt t (i + 1))
    (htoken : ∃ token ∈ tokens, token.start = i ∧ token.stop = i + 2) :
    ∃ address ∈ tokens, address.kind = .url ∧
      address.stop = address.start + Lexeme.addressWindow ∧ address.stop ≤ i ∧
      ∀ k, address.stop ≤ k → k ≤ i + 1 → Text.signAt t k := by
  induction i using Nat.strongRecOn generalizing piece with
  | ind i ih =>
      obtain ⟨token, htoken, hstart, hstop⟩ := htoken
      obtain ⟨escape, hescape, hends, hsign⟩ := escape_before hmem hpiece hfirst hsecond
      obtain ⟨j, rfl⟩ : ∃ j, i = j + 1 := ⟨escape.1, by omega⟩
      have hplace : escape.1 = j := by omega
      rw [hplace] at hsign
      obtain ⟨before, hbefore, hend, hshort | ⟨hkind, hlength⟩⟩ :=
        h.ends_between htoken hstart (by omega) hsign hfirst
      · obtain ⟨m, rfl⟩ : ∃ m, j = m + 1 := ⟨before.start, by omega⟩
        have hbegin : before.start = m := by omega
        obtain ⟨address, haddress, hkind, hlength, hle, hsigns⟩ :=
          ih m (by omega) hescape hplace (hbegin ▸ hshort.2) hsign
            ⟨before, hbefore, hbegin, by omega⟩
        refine ⟨address, haddress, hkind, hlength, by omega, ?_⟩
        intro k hk hle
        by_cases hinner : k ≤ m + 1
        · exact hsigns k hk hinner
        · by_cases hmiddle : k = m + 1 + 1
          · rw [hmiddle]
            exact hfirst
          · rw [show k = m + 1 + 1 + 1 by omega]
            exact hsecond
      · refine ⟨before, hbefore, hkind, hlength, by omega, ?_⟩
        intro k hk hle
        by_cases hmiddle : k = j + 1
        · rw [hmiddle]
          exact hfirst
        · rw [show k = j + 1 + 1 by omega]
          exact hsecond

/-! ### Where references are replaced -/

/-- Whether a value is put in the place of a piece. -/
def Part.isEntered : Part → Bool
  | .kept .. => false
  | .entered .. => true

/-- The offsets of a text where expansion puts a value in the place of a reference. -/
def replaced (table : AliasTable) (t : Text) : List Nat :=
  ((table.cuts 0 t).filter fun piece => (table.part maxDepth [] none piece).isEntered).map (·.1)

/-- What can stand at an offset where a reference is replaced: a command, the inside of an address,
a tag, a keyword or a comment, an at-sign inside a word, or the second unit of an escape in a run of
command characters behind an address that took all it may. -/
inductive StandsAt (t : Text) (tokens : List Token) (i : Nat) : Prop
  | command {token : Token} (mem : token ∈ tokens) (kind : token.kind = .command)
      (start : token.start = i)
  | inMarkup {token : Token} (mem : token ∈ tokens)
      (kind : token.kind = .url ∨ token.kind = .startTag ∨ token.kind = .endTag ∨
        token.kind = .keyword)
      (inside : token.start < i ∧ i < token.stop)
  | inWord {token : Token} (mem : token ∈ tokens) (kind : token.kind = .word)
      (inside : token.start < i ∧ i < token.stop) (sign : t[i]? = some (unit '@'))
  | inComment (inside : InComment t tokens i)
  | behindAddress {address escape : Token} (mem : address ∈ tokens) (kind : address.kind = .url)
      (length : address.stop = address.start + Lexeme.addressWindow)
      (signs : ∀ k, address.stop ≤ k → k ≤ i → Text.signAt t k)
      (escape_mem : escape ∈ tokens) (escape_kind : escape.kind = .symbol)
      (behind : address.stop ≤ escape.start) (inside : escape.start + 1 = i ∧ i + 1 = escape.stop)

/-- A value is put in the place of a command only. -/
theorem lead_of_mem_replaced {i : Nat} (h : i ∈ table.replaced t) :
    ∃ piece ∈ table.cuts 0 t, piece.1 = i ∧
      ∃ found, table.lead (t.drop i) = .command found := by
  obtain ⟨piece, hpiece, rfl⟩ := List.mem_map.1 h
  obtain ⟨hmem, hentered⟩ := List.mem_filter.1 hpiece
  refine ⟨piece, hmem, rfl, ?_⟩
  rw [← (lead_of_mem_cuts hmem).2]
  have hbecomes := table.becomes_part maxDepth [] none piece
  generalize table.part maxDepth [] none piece = part at hentered hbecomes
  generalize hdepth : maxDepth = depth at hbecomes
  cases hbecomes with
  | kept => cases hentered
  | wrong => cases hentered
  | stopped => cases hentered
  | entered hlead => exact ⟨_, hlead⟩

/-- Expansion keeps the pieces at all other offsets. -/
theorem expand_text (table : AliasTable) (t fileName : Text) :
    (table.expand t fileName).1 = (table.cuts 0 t).flatMap fun piece =>
      if piece.1 ∈ table.replaced t then textOf [table.part maxDepth [] none piece]
      else piece.2 := by
  rw [expand_eq]
  show textOf (table.tree t) = _
  rw [textOf, gather_eq_flatMap, tree, parts, List.flatMap_map]
  apply List.flatMap_congr
  intro piece hpiece
  split
  · rw [textOf, gather, gather, List.append_nil]
  · next hkept =>
    have hbecomes := table.becomes_part maxDepth [] none piece
    cases hpart : table.part maxDepth [] none piece with
    | entered key inner =>
        refine absurd (List.mem_map.2 ⟨piece, List.mem_filter.2 ⟨hpiece, ?_⟩, rfl⟩) hkept
        rw [hpart]
        rfl
    | kept text troubles =>
        rw [hpart] at hbecomes
        cases hbecomes with
        | kept => rfl
        | wrong => rfl
        | stopped => rfl

/-- Expansion puts values in the place of some pieces of a text and keeps the others.  Wherever it
replaces one, the tokens of the text show a command, or an inside that expansion does not see. -/
theorem expand_replaces_at (table : AliasTable) (t fileName : Text) :
    ((table.expand t fileName).1 = (table.cuts 0 t).flatMap fun piece =>
      if piece.1 ∈ table.replaced t then textOf [table.part maxDepth [] none piece]
      else piece.2) ∧
    ∀ i ∈ table.replaced t, StandsAt t (Scanner.ofText t).readAll.1 i := by
  refine ⟨table.expand_text t fileName, ?_⟩
  intro i hi
  have hread := areRead_readAll t
  generalize (Scanner.ofText t).readAll.1 = tokens at hread ⊢
  obtain ⟨piece, hpiece, hplace, found, hlead⟩ := lead_of_mem_replaced hi
  obtain ⟨sign, name, after, hdrop, hsign, hstart, -, -, -⟩ := lead_eq_command hlead
  have hcommand : isCommandSign sign := CodeUnit.isCommandSign_iff.2 hsign
  have hunit : t[i]? = some sign := by
    rw [← List.head?_drop, hdrop, List.head?_cons]
  have hname : (name ++ after).head?.any CodeUnit.isIdentifierStart := by
    cases name with
    | nil => cases hstart
    | cons u name => exact hstart
  have hlt : i < t.length := (List.getElem?_eq_some_iff.1 hunit).1
  rcases hread.covers hlt with
    ⟨token, htoken, insidePre, insideList, atLineStart, lexeme, hlexeme, hkind, hlength, hle, hstop⟩ |
    hcomment
  case inr => exact .inComment hcomment
  -- a token that begins here shows the command; any other hides the reference in itself
  by_cases hbegins : token.start = i
  case pos =>
    rw [hbegins, hdrop] at hlexeme
    refine .command htoken ?_ hbegins
    rw [hkind, ← hlexeme]
    exact Lexeme.kind_next_of_name hcommand hname
  case neg =>
    have hinside : (t.drop token.start).drop (i - token.start) = sign :: (name ++ after) := by
      rw [List.drop_drop, ← hdrop]
      congr 1
      omega
    rcases Lexeme.holds_reference hlexeme (by omega) (by omega) hinside hcommand hname with
      hmarkup | ⟨hword, rfl⟩ | ⟨hsymbol, hone, htwo, hescape⟩
    · exact .inMarkup htoken (by rwa [hkind]) ⟨by omega, hstop⟩
    · exact .inWord htoken (hkind.trans hword) ⟨by omega, hstop⟩ hunit
    · rw [Text.signAt_drop] at hescape
      obtain ⟨j, rfl⟩ : ∃ j, i = j + 1 := ⟨token.start, by omega⟩
      have hfirst : token.start = j := by omega
      obtain ⟨address, haddress, hurl, hwindow, hbehind, hsigns⟩ :=
        exists_address hread hpiece hplace (hfirst ▸ hescape)
          (by rw [Text.signAt, hunit]; exact hcommand) ⟨token, htoken, hfirst, by omega⟩
      exact .behindAddress haddress hurl hwindow hsigns htoken (hkind.trans hsymbol) (by omega)
        ⟨by omega, by omega⟩

/-- A command, the inside of an e-mail address, an at-sign inside a word and a comment, each with a
reference that is replaced. -/
theorem expand_replaces_at_four_places :
    let table := (ofLines [units "home=X"] settingsFile).1
    let t := units "\\home me@home.org x@home <!-- \\home -->"
    (table.expand t []).1 = units "X meX.org xX <!-- X -->" ∧
      ∀ i ∈ [0, 8, 19, 30], StandsAt t (Scanner.ofText t).readAll.1 i := by
  intro table t
  have hreplaced : table.replaced t = [0, 8, 19, 30] := by decide +kernel
  constructor
  · rw [expand_eq]
    decide +kernel
  · intro i hi
    exact (expand_replaces_at table t []).2 i (hreplaced ▸ hi)

/-- An e-mail address is one token, and expansion rewrites it where its at-sign and a name behind it
make a reference. -/
theorem expand_rewrites_mail :
    let table := (ofLines [units "home=X"] settingsFile).1
    let t := units "me@home.org"
    (table.expand t []).1 = units "meX.org" ∧
      ¬∀ i ∈ table.replaced t,
        ∃ token ∈ (Scanner.ofText t).readAll.1, token.kind = .command ∧ token.start = i := by
  intro table t
  constructor
  · rw [expand_eq]
    decide +kernel
  · decide +kernel

end AliasTable

end DocMarkup
