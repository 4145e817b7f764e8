import DocMarkup.Proofs.Scanner.Signs
import DocMarkup.Proofs.Scanner.Tiling

/-!
Markup comments and words.  A comment is skipped where a token would begin, but a word does not end
before one: what opens a comment right behind a unit of a word is read as part of the word.  That is
the only way it comes to be shown.
-/

namespace DocMarkup

open CodeUnit (isSpace)

/-- What opens a comment stands at an offset. -/
def Text.OpensComment (t : Text) (p : Nat) : Prop := units "<!--" <+: t.drop p

namespace Text

variable {t : Text} {p n : Nat}

theorem opensComment_drop {t : Text} {start : Nat} :
    OpensComment (t.drop start) p ↔ t.OpensComment (start + p) := by
  rw [OpensComment, OpensComment, List.drop_drop]

theorem OpensComment.head (h : t.OpensComment p) : t[p]? = some (unit '<') := by
  obtain ⟨rest, hrest⟩ := h
  rw [← List.head?_drop, ← hrest]
  rfl

/-- It can be found within a stretch just where it stands in it. -/
theorem infix_take_iff : units "<!--" <:+: t.take n ↔ ∃ p, p + 4 ≤ n ∧ t.OpensComment p := by
  have hlength : (units "<!--").length = 4 := by decide
  constructor
  · rintro ⟨before, after, htake⟩
    have hdrop : (t.take n).drop before.length = units "<!--" ++ after := by
      rw [← htake, List.append_assoc, List.drop_left]
    refine ⟨before.length, ?_, ?_⟩
    · have hle := congrArg List.length htake
      simp only [List.length_append, List.length_take, hlength] at hle
      omega
    · rw [List.drop_take] at hdrop
      exact (hdrop ▸ List.prefix_append _ _ : units "<!--" <+: _).trans (List.take_prefix ..)
  · rintro ⟨p, hp, hopens⟩
    have hwithin : units "<!--" <+: (t.drop p).take (n - p) := by
      rw [List.prefix_take_iff]
      exact ⟨hopens, by omega⟩
    rw [← List.drop_take] at hwithin
    exact hwithin.isInfix.trans (List.drop_suffix ..).isInfix

end Text

namespace Lexeme

variable {t : Text} {lexeme : Lexeme}

theorem isSpace_wordTail {i : Nat} (h : i < wordTail t) : t[i]?.any isSpace = false := by
  induction t generalizing i with
  | nil => rfl
  | cons u rest ih =>
      rw [wordTail] at h
      split at h
      · exact absurd h (Nat.not_lt_zero i)
      · next hword =>
        cases i with
        | zero =>
            simp only [Bool.or_eq_true, not_or, Bool.not_eq_true] at hword
            exact hword.1.1.1
        | succ i => exact ih (Nat.lt_of_succ_lt_succ h)

/-- A word that does not begin with white space holds none. -/
theorem isSpace_word (hspace : t.head?.any isSpace = false) {i : Nat} (h : i < (word t).length) :
    t[i]?.any isSpace = false := by
  cases i with
  | zero => rwa [← List.head?_eq_getElem?]
  | succ i =>
      rw [Nat.add_comm i 1, ← List.getElem?_drop]
      exact isSpace_wordTail (by simp only [word] at h; omega)

theorem command?_ne_word (h : command? t = some lexeme) : lexeme.kind ≠ .word := by
  obtain ⟨sign, rest, rfl, ⟨name, length, -, rfl⟩ | ⟨bracket, more, rfl, -, rfl⟩ | rfl⟩ :=
    command?_shape h
  all_goals rintro ⟨⟩

theorem keyword?_ne_word (h : keyword? t = some lexeme) : lexeme.kind ≠ .word := by
  obtain ⟨u, name, body, after, -, -, -, rfl⟩ := keyword?_shape h
  rintro ⟨⟩

/-- Of the marks only an ampersand can begin a word. -/
theorem entity?_of_marked? (h : marked? t = some lexeme) (hkind : lexeme.kind = .word) :
    entity? t = some lexeme := by
  rcases marked?_forms h with ⟨u, rest, rfl, -, hcommand⟩ | htag | hentity | hkeyword
  · exact absurd hkind (command?_ne_word hcommand)
  · rcases tag?_kind htag with htag | htag <;> cases hkind.symm.trans htag
  · exact hentity
  · exact absurd hkind (keyword?_ne_word hkeyword)

theorem plain_word (h : (plain t).kind = .word) :
    plain t = word t ∨ entity? t = some (plain t) := by
  rcases plain_forms t with hmarked | haddress | hmail | hword
  · exact .inr (entity?_of_marked? hmarked h)
  · exact nomatch h.symm.trans (address?_kind haddress).1
  · exact nomatch h.symm.trans (mail?_kind hmail)
  · exact .inl hword

/-- Words are either written as they are or given by a number. -/
theorem next_word {insidePre insideList atLineStart : Bool}
    (h : (next insidePre insideList atLineStart t).kind = .word) :
    (t.head?.any isSpace = false ∧ next insidePre insideList atLineStart t = word t) ∨
      entity? t = some (next insidePre insideList atLineStart t) := by
  rcases next_forms insidePre insideList atLineStart t with
    ⟨-, -, hitem | hend⟩ | ⟨-, hspace⟩ | ⟨hspace, hplain⟩
  · obtain ⟨found, -, hfound⟩ := Option.map_eq_some_iff.1 hitem
    rw [← hfound] at h
    cases h
  · obtain ⟨found, -, hfound⟩ := Option.map_eq_some_iff.1 hend
    rw [← hfound] at h
    cases h
  · rw [hspace] at h
    rcases whiteSpace_kind insidePre insideList t with hkind | hkind <;> cases h.symm.trans hkind
  · rw [hplain] at h ⊢
    exact (plain_word h).imp (⟨hspace, ·⟩) id

theorem length_decode?_le {decoded : Text} (h : Entity.decode? t = some decoded) :
    decoded.length ≤ 2 := by
  unfold Entity.decode? at h
  split at h
  · split at h
    · split at h
      · cases h
        unfold unitsOfCodePoint
        split
        · exact Nat.le_succ 1
        · exact Nat.le_refl 2
      · cases h
    · cases h
  · cases h

/-- A numbered character is too short to open a comment, and so is what it is written with. -/
theorem not_opensComment_of_entity? (h : entity? t = some lexeme) (hkind : lexeme.kind = .word) :
    ¬ units "<!--" <:+: lexeme.value ∧ ∀ p, 0 < p → p < lexeme.length → ¬ t.OpensComment p := by
  obtain ⟨body, kind, value, hbody, rfl, ⟨hnumber, -, hdecoded⟩ | ⟨-, rfl, -⟩⟩ := entity?_shape h
  case inr => cases hkind
  obtain ⟨u, after, rfl⟩ := exists_of_entityBody? hbody
  constructor
  · intro hinfix
    have hlong : 4 ≤ value.length := hinfix.length_le
    have hshort := length_decode?_le hdecoded
    omega
  · rintro (_ | p) hpos hp hopens
    · exact absurd hpos (Nat.lt_irrefl 0)
    · have hunit := hopens.head
      rw [List.getElem?_cons_succ] at hunit
      rw [← List.singleton_append, ← List.append_assoc, List.getElem?_append_left] at hunit
      · rcases List.mem_append.1 (List.mem_of_getElem? hunit) with hbody | hsemicolon
        · exact absurd (isEntityUnit_of_isEntity (.inl hnumber) _ hbody) (by decide)
        · exact absurd hsemicolon (by decide)
      · rw [List.length_append, List.length_singleton]
        exact Nat.lt_of_succ_lt_succ hp

theorem not_opensComment_zero (h : commentLength? t = none) : ¬ t.OpensComment 0 := by
  intro hopens
  rw [Text.OpensComment, List.drop_zero] at hopens
  unfold commentLength? at h
  rw [if_pos (List.isPrefixOf_iff_prefix.2 hopens)] at h
  split at h <;> cases h

/-- What opens a comment stands in a word only behind its first unit. -/
theorem next_word_shows {insidePre insideList atLineStart : Bool}
    (hcomment : commentLength? t = none)
    (hkind : (next insidePre insideList atLineStart t).kind = .word) :
    let lexeme := next insidePre insideList atLineStart t
    (units "<!--" <:+: lexeme.value ↔ ∃ p, 0 < p ∧ p + 4 ≤ lexeme.length ∧ t.OpensComment p) ∧
      ∀ p < lexeme.length, t.OpensComment p →
        0 < p ∧ ∃ u, t[p - 1]? = some u ∧ isSpace u = false := by
  have hstart := not_opensComment_zero hcomment
  have hpos {p : Nat} (hopens : t.OpensComment p) : 0 < p :=
    Nat.pos_of_ne_zero fun hzero => hstart (hzero ▸ hopens)
  dsimp only
  rcases next_word hkind with ⟨hspace, hword⟩ | hentity
  · rw [hword]
    constructor
    · rw [show (word t).value = t.take (word t).length from rfl, Text.infix_take_iff]
      constructor
      · rintro ⟨p, hp, hopens⟩
        exact ⟨p, hpos hopens, hp, hopens⟩
      · rintro ⟨p, -, hp, hopens⟩
        exact ⟨p, hp, hopens⟩
    · intro p hp hopens
      have hfirst := hpos hopens
      have hunit := List.getElem?_eq_some_iff.1 hopens.head
      obtain ⟨u, hu⟩ : ∃ u, t[p - 1]? = some u :=
        ⟨_, List.getElem?_eq_getElem (by have := hunit.1; omega)⟩
      have hbefore := isSpace_word hspace (show p - 1 < (word t).length by omega)
      rw [hu, Option.any_some] at hbefore
      exact ⟨hfirst, u, hu, hbefore⟩
  · obtain ⟨hvalue, hwithin⟩ := not_opensComment_of_entity? hentity hkind
    constructor
    · constructor
      · exact fun h => absurd h hvalue
      · rintro ⟨p, hp, hle, hopens⟩
        exact absurd hopens (hwithin p hp (by omega))
    · intro p hp hopens
      exact absurd hopens (hwithin p (hpos hopens) hp)

end Lexeme

namespace Scanner

theorem commentLength?_skipComments (c : Cursor) :
    Lexeme.commentLength? (skipComments c).ahead = none := by
  induction c using skipComments.induct with
  | case1 c hnone => rwa [skipComments_eq hnone]
  | case2 c n hsome hlt ih => rwa [skipComments_advance hsome]

/-- What a word shows of comments, read from `start` to `stop` in a text: what opens one stands in
it, right behind a unit of the word that is not white space. -/
structure ShowsComments (t : Text) (word : Token) : Prop where
  shown_iff : units "<!--" <:+: word.value ↔
    ∃ p, word.start < p ∧ p + 4 ≤ word.stop ∧ t.OpensComment p
  behind : ∀ p, word.start ≤ p → p < word.stop → t.OpensComment p →
    word.start < p ∧ ∃ u, t[p - 1]? = some u ∧ isSpace u = false

theorem scan_showsComments (s : Scanner) (hkind : s.scan.token.kind = .word) :
    ShowsComments s.text s.scan.token := by
  have htext : (skipComments s.cursor).text = s.text := (skipComments_spec s.cursor).1
  have hcomment := commentLength?_skipComments s.cursor
  have hfits := s.lexeme_fits (skipComments s.cursor)
  have hkind' : (s.lexeme (skipComments s.cursor)).kind = .word := hkind
  have hne : (skipComments s.cursor).ahead ≠ [] := by
    intro hend
    rw [lexeme, if_pos (show (skipComments s.cursor).atEnd = true from List.isEmpty_iff.2 hend)]
      at hkind'
    cases hkind'
  have hlexeme := s.lexeme_eq_next hne
  have hstop : s.scan.token.stop = s.scan.token.start + (s.lexeme (skipComments s.cursor)).length := by
    have hoffset := Cursor.offset_advance (s.lexeme (skipComments s.cursor)).length
      (skipComments s.cursor)
    rwa [Nat.min_eq_left hfits.length_le] at hoffset
  have hdrop : s.text.drop s.scan.token.start = (skipComments s.cursor).ahead := by
    rw [← htext]
    exact Cursor.drop_offset _
  have hvalue : s.scan.token.value = (s.lexeme (skipComments s.cursor)).value := rfl
  rw [hlexeme] at hkind' hstop hvalue
  obtain ⟨hshown, hbehind⟩ := Lexeme.next_word_shows hcomment hkind'
  constructor
  · rw [hvalue, hshown]
    constructor
    · rintro ⟨p, hp, hle, hopens⟩
      rw [← hdrop, Text.opensComment_drop] at hopens
      exact ⟨_, by omega, by omega, hopens⟩
    · rintro ⟨p, hp, hle, hopens⟩
      obtain ⟨q, rfl⟩ := Nat.exists_eq_add_of_lt hp
      refine ⟨q + 1, Nat.succ_pos q, by omega, ?_⟩
      rwa [← hdrop, Text.opensComment_drop]
  · intro p hp hlt hopens
    obtain ⟨q, rfl⟩ := Nat.exists_eq_add_of_le hp
    rw [← Text.opensComment_drop, hdrop] at hopens
    obtain ⟨hq, u, hu, hspace⟩ := hbehind q (by omega) hopens
    refine ⟨by omega, u, ?_, hspace⟩
    rwa [← hdrop, List.getElem?_drop, ← Nat.add_sub_assoc hq] at hu

/-- Whatever modes are set between the scans, what opens a comment shows in a word just where the
word has begun before it, and never behind white space. -/
theorem tokens_showComments (s : Scanner) (changes : List (List ModeChange)) :
    ∀ token ∈ s.tokens changes, token.kind = .word → ShowsComments s.text token := by
  induction changes generalizing s with
  | nil => exact fun token hmem => absurd hmem List.not_mem_nil
  | cons first more ih =>
      have hcursor := cursor_changes s first
      have htext : (first.foldl change s).text = s.text := congrArg Cursor.text hcursor
      intro token hmem hkind
      rcases List.mem_cons.1 hmem with rfl | hmem
      · exact htext ▸ scan_showsComments _ hkind
      · have hlater := ih (first.foldl change s).scan token hmem hkind
        rwa [(advances_scan _).text, htext] at hlater

/-- A comment at the start of the text and one behind white space are skipped, the third is read as
part of the word before it. -/
theorem tokens_showComments_behind_word :
    let s := ofText (units "<!--a--> <!--b-->c<!--d-->")
    ∃ token ∈ s.tokens [[], [.insidePre true]],
      token.kind = .word ∧ ShowsComments s.text token := by
  intro s
  have hmem : ((s.scan.change (.insidePre true)).scan).token ∈ s.tokens [[], [.insidePre true]] :=
    List.mem_cons_of_mem _ List.mem_cons_self
  have hkind : ((s.scan.change (.insidePre true)).scan).token.kind = .word := by decide +kernel
  exact ⟨_, hmem, hkind, s.tokens_showComments _ _ hmem hkind⟩

/-- A comment behind a word is not skipped. -/
theorem readAll_shows_comment :
    ∃ token ∈ (ofText (units "a<!-- x -->")).readAll.1,
      token.kind = .word ∧ units "<!--" <:+: token.value := by
  decide +kernel

end Scanner

end DocMarkup
