import DocMarkup.Proofs.Parser.Sections
import DocMarkup.Proofs.Parser.Standing
import DocMarkup.Proofs.Scanner.Headings

/-!
The commands of sections.  Whatever construct is open, but for a list of references, hands such a
command on to the document or to the section that it belongs to.
-/

namespace DocMarkup

namespace Command

theorem exists_of_lookup {α : Type} {table : List (String × α)} {name : Text} {found : α}
    (h : lookup table name = some found) :
    ∃ entry ∈ table, units entry.1 = name ∧ entry.2 = found := by
  obtain ⟨entry, hfind, rfl⟩ := Option.map_eq_some_iff.1 h
  have hname := List.find?_some hfind
  exact ⟨entry, List.mem_of_find?_eq_some hfind, beq_iff_eq.1 hname, rfl⟩

/-- The parser and the pre-scan take the same commands for those of sections. -/
theorem of_sectionLevel? {name : Text} {level : Nat} (h : sectionLevel? name = some level) :
    ofName name = .sect level ∧ SectionLabel.rawEnding? name = none ∧
      SectionLabel.level? name = some level ∧ level ≠ 0 := by
  obtain ⟨entry, hentry, rfl, rfl⟩ := exists_of_lookup h
  have hall : ∀ entry ∈ sectionLevels, ofName (units entry.1) = .sect entry.2 ∧
      SectionLabel.rawEnding? (units entry.1) = none ∧
      SectionLabel.level? (units entry.1) = some entry.2 ∧ entry.2 ≠ 0 := by decide +kernel
  exact hall entry hentry

/-- The pre-scan passes over the commands that style a word. -/
theorem of_ofName_word {name : Text} {style : Style} (h : ofName name = .word style) :
    SectionLabel.rawEnding? name = none ∧ SectionLabel.level? name = none := by
  have haction : lookup actions name = some (.word style) := by
    unfold ofName at h
    split at h
    · cases h
    · cases h
    · next hfound _ _ => rw [hfound, h]
    · split at h <;> cases h
  obtain ⟨entry, hentry, rfl, hword⟩ := exists_of_lookup haction
  have hall : ∀ entry ∈ actions, SectionLabel.rawEnding? (units entry.1) = none ∧
      (SectionLabel.level? (units entry.1) = none ∨ entry.2 = .anchor) := by decide +kernel
  obtain ⟨hraw, hlevel⟩ := hall entry hentry
  refine ⟨hraw, hlevel.resolve_right fun hanchor => ?_⟩
  rw [hanchor] at hword
  cases hword

end Command

namespace Parser.Machine

variable {m : Machine} {token : Token} {outcome : Outcome}

variable {level : Nat}

theorem isCommand_eq_false (hlevel : sectionLevel? token = some level) {names : List String}
    (hnames : ∀ name ∈ names, Command.sectionLevel? (units name) = none) :
    token.isCommand names = false := by
  have hvalue := eq_of_sectionLevel? hlevel
  rw [Token.isCommand, Bool.and_eq_false_iff, List.any_eq_false]
  right
  intro name hname hsame
  rw [← beq_iff_eq.1 hsame, hnames name hname] at hvalue
  cases hvalue

theorem isStartTag_eq_false (hkind : token.kind = .command) (names : List String) :
    token.isStartTag names = false := by
  rw [Token.isStartTag, hkind]
  rfl

theorem isEndTag_eq_false (hkind : token.kind = .command) (names : List String) :
    token.isEndTag names = false := by
  rw [Token.isEndTag, hkind]
  rfl

theorem hand_closed {m' : Machine} (hphase : m'.phase = .ended (.handBack token)) :
    m'.phase.hand? = some token := by
  rw [hphase]
  rfl

theorem hand_takeInParagraph (hm : Stacked m.stack) (hlevel : sectionLevel? token = some level) :
    (m.takeInParagraph token).phase.hand? = some token := by
  have hkind := kind_of_sectionLevel? hlevel
  obtain ⟨hname, -⟩ := Command.of_sectionLevel? (eq_of_sectionLevel? hlevel)
  unfold takeInParagraph command
  rw [hkind]
  dsimp only
  rw [hname]
  exact hand_closed (phase_closeParagraph (m := m.record _) hm _)

theorem hand_takeInline (hm : Stacked m.stack) (htext : holdsText m.innermost)
    (hlevel : sectionLevel? token = some level) (construct : Construct) :
    (m.takeInline construct token).phase.hand? = some token := by
  have hkind := kind_of_sectionLevel? hlevel
  obtain ⟨hname, -⟩ := Command.of_sectionLevel? (eq_of_sectionLevel? hlevel)
  have hends : endsInline construct token = false := by
    have hlink : token.isCommand ["endlink"] = false :=
      isCommand_eq_false hlevel (List.forall_mem_singleton.2 (by decide))
    have htag := isEndTag_eq_false hkind
    cases construct <;> first
      | exact hlink
      | exact htag _
      | rfl
      | simp [endsInline, hkind]
  unfold takeInline
  rw [hends, hkind]
  dsimp only
  rw [hname]
  obtain ⟨-, -, -, -, hphase⟩ := exists_closeInline hm htext (.handBack token)
  exact hand_closed hphase

/-- A section command goes on to the construct around, but for one in a list of references. -/
theorem hand_dispatch (hm : Stacked m.stack) (hlevel : sectionLevel? token = some level)
    (hkind : m.innermost.holdsSections = false) (hlist : m.innermost ≠ .refList) :
    (m.dispatch token).phase.hand? = some token := by
  have htoken := kind_of_sectionLevel? hlevel
  have hstart := isStartTag_eq_false htoken
  have hend := isEndTag_eq_false htoken
  have hstructural : token.isStructural = true := by rw [Token.isStructural, htoken]; rfl
  have hblank : token.isBlank = false := by rw [Token.isBlank, htoken]; rfl
  have hmore : (token.kind == .endOfText) = false := by rw [htoken]; rfl
  have hbefore (opener : Token) : (m.closeBefore opener token).phase.hand? = some token :=
    hand_closed (phase_close (m := m.report _ _) hm _)
  unfold dispatch
  cases hstack : m.stack with
  | nil =>
      rw [hstack] at hm
      cases hm
  | cons frame outer =>
      have hinner : m.innermost = frame.construct.kind := innermost_eq hstack
      have htext (hframe : holdsText frame.construct.kind) : holdsText m.innermost := by
        rw [hinner]
        exact hframe
      rw [hinner] at hkind hlist
      dsimp only
      cases hconstruct : frame.construct <;> rw [hconstruct] at hkind hlist htext <;> dsimp only
      case root => cases hkind
      case sect => cases hkind
      case paragraph => exact hand_takeInParagraph hm hlevel
      case refList => exact absurd rfl hlist
      case list => simp [takeInList, hstart, hend, hmore, hstructural, hbefore]
      case descList => simp [takeInDescList, hstart, hend, hmore, hstructural, hbefore]
      case table => simp [takeInTable, hstart, hend, hmore, hstructural, hbefore]
      case row =>
        simp only [takeInRow, hstart, hend, hmore, hstructural, hblank, Bool.false_eq_true,
          if_false, Bool.or_self, if_true]
        exact hand_closed (phase_close hm _)
      case descTitle => exact hand_takeInline hm (htext rfl) hlevel _
      case caption => exact hand_takeInline hm (htext rfl) hlevel _
      case header => exact hand_takeInline hm (htext rfl) hlevel _
      case hyperlink => exact hand_takeInline hm (htext rfl) hlevel _
      case link => exact hand_takeInline hm (htext rfl) hlevel _
      all_goals rfl

/-- Where a section command ended a construct, the construct around goes on with the command. -/
theorem hand_resume (hm : Stacked m.stack) (hlevel : sectionLevel? token = some level)
    (hkind : m.innermost.holdsSections = false) :
    (m.resume (.handBack token)).phase.hand? = some token := by
  have htoken := kind_of_sectionLevel? hlevel
  have hend := isEndTag_eq_false htoken
  have hclose : (m.close (.handBack token)).phase.hand? = some token :=
    hand_closed (phase_close hm _)
  have hblock {isEnd : Token → Bool} (hisEnd : isEnd token = false) :
      (m.blockParagraphEnded (.handBack token) isEnd).phase.hand? = some token := by
    unfold blockParagraphEnded
    dsimp only
    rw [if_neg (by simp [hisEnd])]
    exact hclose
  unfold resume
  cases hstack : m.stack with
  | nil =>
      rw [hstack] at hm
      cases hm
  | cons frame outer =>
      have hinner : m.innermost = frame.construct.kind := innermost_eq hstack
      rw [hinner] at hkind
      dsimp only
      cases hconstruct : frame.construct <;> rw [hconstruct] at hkind <;> dsimp only
      case root => cases hkind
      case sect => cases hkind
      case paragraph => rfl
      case autoListItem => exact hclose
      case autoList list next =>
        -- a section command begins no item, so the list ends and hands it on
        have hcontinues : continuesList list next token = false := by
          simp [continuesList, htoken]
        have hends : (token.kind == .endList) = false := by rw [htoken]; rfl
        unfold itemEnded
        dsimp only
        rw [hcontinues, hends]
        exact hand_closed (phase_close (m := { m with scanner := m.scanner.endList }) hm _)
      case simpleList =>
        have hitem : token.isCommand ["li", "arg"] = false :=
          isCommand_eq_false hlevel (by decide)
        rw [if_neg (by simp [hitem])]
        exact hclose
      case internal =>
        exact hblock (isCommand_eq_false hlevel (List.forall_mem_singleton.2 (by decide)))
      case parBlock =>
        exact hblock (isCommand_eq_false hlevel (List.forall_mem_singleton.2 (by decide)))
      case listItem => exact hblock (hend _)
      case descData => exact hblock (hend _)
      case blockQuote => exact hblock (hend _)
      case cell =>
        rw [if_neg (by simp [hend])]
        exact hclose
      case list => rfl
      case descList => rfl
      case table => rfl
      case row => rfl
      all_goals exact hclose

end Parser.Machine

end DocMarkup
