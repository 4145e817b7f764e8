import DocMarkup.Proofs.Parser.Ledger

/-!
Handlers that neither see numbers nor give any: all but those of cross-reference items and formulas.
-/

namespace DocMarkup.Parser

namespace Machine

/-- A handler does the same whatever numbers were given, and leaves the numbers as they are. -/
structure Blind (handle : Machine → Machine) (m : Machine) : Prop where
  unnumber : handle m.unnumber = (handle m).unnumber
  ledger : (handle m).ledger = m.ledger

variable {m : Machine} {handle handle' : Machine → Machine}

namespace Blind

theorem read (h : Blind handle m) : Blind (fun m => (handle m).read) m :=
  ⟨congrArg Machine.read h.unnumber, h.ledger⟩

theorem readSolid (h : Blind handle m) : Blind (fun m => (handle m).readSolid) m :=
  ⟨congrArg Machine.readSolid h.unnumber, h.ledger⟩

theorem take (h : Blind handle m) (token : Token) : Blind (fun m => (handle m).take token) m :=
  ⟨congrArg (Machine.take · token) h.unnumber, h.ledger⟩

theorem of_eq (h : Blind handle m) (hhere : handle' m = handle m)
    (hthere : handle' m.unnumber = handle m.unnumber) : Blind handle' m :=
  ⟨by rw [hhere, hthere, h.unnumber], by rw [hhere, h.ledger]⟩

/-- A choice that does not depend on numbers. -/
theorem ite {c : Machine → Bool} (hc : c m.unnumber = c m) (h : Blind handle m)
    (h' : Blind handle' m) : Blind (fun m => if c m then handle m else handle' m) m := by
  constructor
  · rw [hc, h.unnumber, h'.unnumber, ← apply_ite Machine.unnumber]
  · rw [apply_ite Machine.ledger, h.ledger, h'.ledger, ite_self]

end Blind

/-! ### Paragraphs -/

theorem enterStyle_blind (m : Machine) (entered : OpenStyle) : Blind (enterStyle · entered) m := by
  constructor <;> unfold enterStyle <;> dsimp only
  · rw [modifyTop_unnumber_self]
    · split <;> rfl
    · rintro ⟨construct, children, id, madeFor⟩
      cases construct <;> rfl
  · have hledger : ∀ m' : Machine, m'.ledger = m.ledger →
        (if entered.style == .preformatted then m'.setInsidePre true else m').ledger = m.ledger := by
      intro m' h
      split <;> exact h
    refine hledger _ (ledger_modifyTop ?_)
    rintro ⟨construct, children, id, madeFor⟩ outer -
    cases construct <;> rfl

theorem leaveStyle_blind (m : Machine) : Blind leaveStyle m := by
  constructor
  · refine modifyTop_unnumber_self m ?_
    rintro ⟨construct, children, id, madeFor⟩
    cases construct <;> rfl
  · refine ledger_modifyTop ?_
    rintro ⟨construct, children, id, madeFor⟩ outer -
    cases construct <;> rfl

/-- The styles that were open are entered again, one after the other. -/
theorem reopen_blind (styles : List OpenStyle) (m : Machine) :
    Blind (fun m => styles.foldl (fun m entered =>
      (m.append (syntheticChange entered.style true m.scanner.last.start entered.attributes))
        |>.enterStyle entered) m) m := by
  induction styles generalizing m with
  | nil => exact ⟨rfl, rfl⟩
  | cons entered styles ih =>
      have hnone := numbered_syntheticChange entered.style true m.scanner.last.start
        entered.attributes
      have hentered := enterStyle_blind (m.append (syntheticChange entered.style true
        m.scanner.last.start entered.attributes)) entered
      obtain ⟨hunnumber, hledger⟩ := ih ((m.append (syntheticChange entered.style true
        m.scanner.last.start entered.attributes)).enterStyle entered)
      refine ⟨.trans ?_ hunnumber, hledger.trans (hentered.ledger.trans (ledger_append m hnone))⟩
      refine congrArg (styles.foldl _) (.trans ?_ hentered.unnumber)
      exact congrArg (enterStyle · entered) (append_unnumber m hnone)

theorem openParagraph_blind (m : Machine) : Blind openParagraph m := by
  obtain ⟨hunnumber, hledger⟩ := reopen_blind m.reopening
    (({ m with reopening := [] } : Machine).push (.paragraph [] []))
  refine ⟨.trans ?_ hunnumber, hledger.trans (ledger_push _ rfl)⟩
  exact congrArg (m.reopening.foldl _) (push_unnumber { m with reopening := [] } (.paragraph [] []))

theorem closeParagraph_unnumber (m : Machine) (outcome : Outcome) :
    m.unnumber.closeParagraph outcome = (m.closeParagraph outcome).unnumber := by
  unfold closeParagraph
  rw [stack_unnumber]
  cases m.stack with
  | nil => rfl
  | cons f outer =>
      have hstyles : f.unnumber.construct.styles = f.construct.styles :=
        f.construct.styles_unnumber
      have hchildren : finishedChildren f.unnumber.children f.construct.styles m.unnumber.insidePre
          m.unnumber.scanner.offset =
          (finishedChildren f.children f.construct.styles m.insidePre m.scanner.offset).map
            Node.unnumber :=
        finishedChildren_unnumber ..
      rw [List.map_cons]
      dsimp only
      rw [hstyles, hchildren, List.isEmpty_map]
      generalize finishedChildren f.children f.construct.styles m.insidePre m.scanner.offset =
        children
      have hpre : (if f.construct.styles.any (·.style == .preformatted) then
          m.unnumber.setInsidePre false else m.unnumber) =
          (if f.construct.styles.any (·.style == .preformatted) then m.setInsidePre false
            else m).unnumber := by
        split <;> rfl
      rw [hpre]
      generalize (if f.construct.styles.any (·.style == .preformatted) then m.setInsidePre false
        else m) = m₀
      split
      · rfl
      · exact congrArg (ended · outcome) (attach_unnumber
          { m₀ with stack := outer, reopening := m₀.reopening ++ f.construct.styles.reverse }
          { f with children })


/-! ### Words and styles -/

/-- A node without a number is added. -/
theorem leaf_blind (m : Machine) (content : Content) (h : content.isNumbered = false) :
    Blind (append · (.leaf content)) m := by
  have hnone : (Node.leaf content).numbered = [] := by simp [h]
  exact ⟨append_unnumber m hnone, ledger_append m hnone⟩

theorem changeStyle_blind (m : Machine) (style : Style) (enable : Bool) (position : Nat)
    (attributes : Attributes) : Blind (changeStyle · style enable position attributes) m :=
  leaf_blind m _ rfl

theorem plainWord_blind (m : Machine) (word : Text) : Blind (plainWord · word) m := by
  have hnone : (if m.insidePre then (Node.leaf (.word word)).asPreformatted
      else .leaf (.word word)).numbered = [] := by
    split <;> simp [Content.isNumbered]
  exact ⟨append_unnumber m hnone, ledger_append m hnone⟩

theorem addWord_blind (m : Machine) (word : Text) : Blind (addWord · word) m := by
  constructor <;>
    simp only [addWord, insidePre_unnumber, setting_unnumber, (reads_resolve _).unnumber]
  · split
    · exact (plainWord_blind m word).unnumber
    · generalize (if (Text.dropWhileRight isEndPunctuation word).head? == _ then _ else _ : Text) =
        target
      rcases m.resolve target with ⟨_ | found, m'⟩
      · exact (plainWord_blind m' word).unnumber
      · dsimp only
        split <;> simp [Content.isNumbered]
  · split
    · exact (plainWord_blind m word).ledger
    · generalize (if (Text.dropWhileRight isEndPunctuation word).head? == _ then _ else _ : Text) =
        target
      rw [← (reads_resolve target).ledger m]
      rcases m.resolve target with ⟨_ | found, m'⟩
      · exact (plainWord_blind m' word).ledger
      · dsimp only
        split <;> simp [Content.isNumbered]

theorem addInWord_blind (m : Machine) (token : Token) : Blind (addInWord · token) m := by
  constructor <;> simp only [addInWord] <;> split
  · exact (addWord_blind m token.value).unnumber
  · simp [Content.isNumbered]
  · simp [Content.isNumbered]
  · exact (addWord_blind m token.value).ledger
  · simp [Content.isNumbered]
  · simp [Content.isNumbered]

theorem styledWord_blind (m : Machine) (token : Token) (style : Style) :
    Blind (styledWord · token style) m := by
  have hledger := reads_next.ledger ({ m with scanner := m.scanner.skipHorizontalSpace } : Machine)
  have hunnumber :
      ({ m.unnumber with scanner := m.unnumber.scanner.skipHorizontalSpace } : Machine).next = _ :=
    reads_next.unnumber ({ m with scanner := m.scanner.skipHorizontalSpace } : Machine)
  constructor <;> unfold styledWord
  · rw [hunnumber]
    generalize ({ m with scanner := m.scanner.skipHorizontalSpace } : Machine).next = next
    dsimp only
    split
    · rw [(changeStyle_blind _ _ _ _ _).unnumber, (addInWord_blind _ _).unnumber]
      rfl
    · rfl
  · generalize ({ m with scanner := m.scanner.skipHorizontalSpace } : Machine).next = next at hledger
    dsimp only
    split
    · exact (addInWord_blind _ _).ledger.trans ((changeStyle_blind _ _ _ _ _).ledger.trans hledger)
    · exact hledger

theorem continueWord_blind (m : Machine) (style : Style) : Blind (continueWord · style) m := by
  constructor <;> unfold continueWord
  · rw [reads_next.unnumber]
    rcases m.next with ⟨next, m'⟩
    dsimp only
    split
    · rw [(addInWord_blind _ _).unnumber]
      rfl
    · rw [(changeStyle_blind _ _ _ _ _).unnumber]
      rfl
  · rw [← reads_next.ledger m]
    rcases m.next with ⟨next, m'⟩
    dsimp only
    split
    · exact (addInWord_blind m' next).ledger
    · exact (changeStyle_blind m' _ _ _ _).ledger

theorem styleStart_blind (m : Machine) (token : Token) (style : Style) :
    Blind (styleStart · token style) m := by
  constructor
  · simp only [styleStart, (changeStyle_blind _ _ _ _ _).unnumber, (enterStyle_blind _ _).unnumber,
      read_unnumber, ← apply_ite unnumber]
  · simp only [styleStart, apply_ite ledger, ledger_read, (enterStyle_blind _ _).ledger,
      (changeStyle_blind _ _ _ _ _).ledger, ite_self]

theorem styleEnd_blind (hm : m.Settled) (token : Token) (style : Style) :
    Blind (styleEnd · token style) m := by
  have hleave := leaveStyle_blind m
  constructor
  · simp only [styleEnd, ownStyle?_unnumber, innermostStyle?_unnumber, hleave.unnumber,
      insidePre_unnumber, children_unnumber, dropTrailingSpace_unnumber, setChildren_unnumber,
      (changeStyle_blind _ _ _ _ _).unnumber, setInsidePre_unnumber, read_unnumber, report_unnumber,
      ← apply_ite unnumber]
  · simp only [styleEnd, trim_leaveStyle, apply_ite ledger, ledger_read, ledger_setInsidePre,
      ledger_report, (changeStyle_blind _ _ _ _ _).ledger, (leaveStyle_blind _).ledger,
      hm.ledger_trim, ite_self]

/-! ### Text within a line -/

theorem ledger_pop {f : Frame} {outer : List Frame} (hstack : m.stack = f :: outer)
    (hf : f.entries = []) : m.pop.ledger = m.ledger := by
  rw [ledger, ledger, entries_cons hstack, hf, List.append_nil]
  unfold pop
  rw [hstack]
  rfl

theorem numbered_word (word : Text) : (Node.leaf (.word word)).numbered = [] := rfl

theorem closeLink_unnumber (m : Machine) (link : Link) (resolved : Bool) (opener : Token)
    (outcome : Outcome) :
    m.unnumber.closeLink link resolved opener outcome =
      (m.closeLink link resolved opener outcome).unnumber := by
  simp only [closeLink, report_unnumber, ← apply_ite unnumber, children_unnumber,
    List.isEmpty_map, ← List.map_reverse, append_unnumber _ (numbered_word _), pop_unnumber,
    close_unnumber, (changeStyle_blind _ _ _ _ _).unnumber, appendAll_unnumber, ended_unnumber]

theorem closeHeader_unnumber (m : Machine) (opener : Token) (outcome : Outcome) :
    m.unnumber.closeHeader opener outcome = (m.closeHeader opener outcome).unnumber := by
  unfold closeHeader
  cases outcome <;> simp

theorem closeCaption_unnumber (m : Machine) (f : Frame) (kept : Bool) (outcome : Outcome) :
    m.unnumber.closeCaption f.unnumber kept outcome =
      (m.closeCaption f kept outcome).unnumber := by
  unfold closeCaption
  simp only [pop_unnumber, toNode_unnumber]
  split
  · rfl
  · refine congrArg (ended · outcome) (modifyTop_unnumber _ ?_)
    rintro ⟨construct, children, id, madeFor⟩
    cases construct <;> rfl

theorem closeInline_unnumber (m : Machine) (outcome : Outcome) :
    m.unnumber.closeInline outcome = (m.closeInline outcome).unnumber := by
  unfold closeInline
  simp only [children_unnumber, dropTrailingSpace_unnumber, setChildren_unnumber]
  generalize m.setChildren (dropTrailingSpace m.children) = m'
  rw [stack_unnumber]
  cases m'.stack with
  | nil => rfl
  | cons f outer =>
      obtain ⟨construct, children, id, madeFor⟩ := f
      rw [List.map_cons]
      dsimp only [Frame.unnumber]
      cases construct with
      | caption attributes kept =>
          exact closeCaption_unnumber m' ⟨.caption attributes kept, children, id, madeFor⟩ kept outcome
      | _ =>
          simp only [Construct.unnumber, closeLink_unnumber, closeHeader_unnumber, close_unnumber,
            reportUnclosed_unnumber, ← apply_ite unnumber]

theorem ledger_closeCaption {f : Frame} {outer : List Frame} (hstack : m.stack = f :: outer)
    (hf : f.entries = []) (kept : Bool) (outcome : Outcome) :
    (m.closeCaption f kept outcome).ledger = m.ledger := by
  have hpop := ledger_pop hstack hf
  unfold closeCaption
  dsimp only
  rw [ledger_ended]
  split
  · exact hpop
  · refine (ledger_modifyTop ?_).trans hpop
    rintro ⟨construct, children, id, madeFor⟩ rest -
    cases construct <;> rfl

namespace Settled

theorem ledger_closeLink (hm : m.Settled) (hkind : m.innermost = .link) (link : Link)
    (resolved : Bool) (opener : Token) (outcome : Outcome) :
    (m.closeLink link resolved opener outcome).ledger = m.ledger := by
  unfold closeLink
  have hreport : ReadsOn m (if outcome == .complete then m
      else m.report opener (.unterminatedLink link.target)) :=
    readsOn_ite' _ (readsOn_report m opener (.unterminatedLink link.target) rfl)
  have hledger₁ : (if outcome == .complete then m
      else m.report opener (.unterminatedLink link.target)).ledger = m.ledger := by
    simp only [apply_ite ledger, ledger_report, ite_self]
  dsimp only
  generalize (if outcome == .complete then m else _ : Machine) = m₁ at hreport hledger₁ ⊢
  have hword : Fills m (if m₁.children.isEmpty then m₁.append (.leaf (.word link.target))
      else m₁) := by
    split
    · exact hreport.fills.leaf rfl (by rw [hkind]; rfl)
    · exact hreport.fills
  have hledger₂ : (if m₁.children.isEmpty then m₁.append (.leaf (.word link.target))
      else m₁).ledger = m.ledger := by
    simp only [apply_ite ledger, ledger_append _ (numbered_word _), hledger₁, ite_self]
  generalize (if m₁.children.isEmpty then _ else _ : Machine) = m₂ at hword hledger₂ ⊢
  have hm₂ := hm.fills hword hledger₂
  have hkind₂ : m₂.innermost = .link := hword.innermost.trans hkind
  split
  · exact (hm₂.ledger_close (by rw [hkind₂]; nofun) outcome).trans hledger₂
  · generalize hm₃ : m₂.report opener (.unresolvedLink link.target) = m₃
    have hstack₃ : m₃.stack = m₂.stack := hm₃ ▸ rfl
    have hledger₃ : m₃.ledger = m.ledger := hm₃ ▸ hledger₂
    obtain ⟨inner, outer, rest, hstack, hinner, -⟩ :=
      exists_around hm₂.stacked (by rw [hkind₂]; nofun)
    have hsound := (hm₂.frame (f := inner) (by rw [hstack]; exact List.mem_cons_self)).1
    have htext : holdsText inner.construct.kind := by rw [hinner, hkind₂]; rfl
    rw [hstack] at hstack₃
    have hnumbers : m₃.children.reverse.flatMap Node.numbered = [] := by
      have hnone := List.flatMap_eq_nil_iff.1 (hsound.numbered_eq_nil htext)
      rw [children, hstack₃]
      exact List.flatMap_eq_nil_iff.2 fun n hn => hnone n (List.mem_reverse.1 hn)
    rw [ledger_ended, (changeStyle_blind _ _ _ _ _).ledger, ledger_appendAll _ hnumbers,
      (changeStyle_blind _ _ _ _ _).ledger, ledger_pop hstack₃ (hsound.entries_eq_nil htext),
      hledger₃]

/-- A construct of text that ends loses no numbers. -/
theorem ledger_closeInline (hm : m.Settled) (hkind : holdsText m.innermost) (outcome : Outcome) :
    (m.closeInline outcome).ledger = m.ledger := by
  have htrim := hm.ledger_trim
  have hm' := hm.fills (Fills.refl m).trim htrim
  have hkind' := hkind
  rw [← (Fills.refl m).trim.innermost] at hkind'
  unfold closeInline
  dsimp only
  generalize m.setChildren (dropTrailingSpace m.children) = m' at htrim hm' hkind' ⊢
  have hroot : m'.innermost ≠ .root := fun h => by simp [h, holdsText] at hkind'
  rw [← htrim]
  split
  · rfl
  · next frame outer hstack =>
    have hframe : m'.innermost = frame.construct.kind := innermost_eq hstack
    split
    · next hconstruct =>
      exact hm'.ledger_closeLink (by rw [hframe, hconstruct]; rfl) ..
    · unfold closeHeader
      split
      · exact hm'.ledger_close hroot _
      · exact Settled.ledger_close (m := m'.reportUnclosed _) (hm'.congr rfl) hroot _
      · exact Settled.ledger_close (m := m'.report _ _) (hm'.congr rfl) hroot _
    · split
      · exact Settled.ledger_close (m := m'.reportUnclosed _) (hm'.congr rfl) hroot _
      · exact hm'.ledger_close hroot _
    · have hsound := (hm'.frame (hstack ▸ List.mem_cons_self)).1
      exact ledger_closeCaption hstack (hsound.entries_eq_nil (hframe ▸ hkind')) ..
    · exact hm'.ledger_close hroot outcome

end Settled

theorem takeInline_blind (hm : m.Settled) (hkind : holdsText m.innermost) (construct : Construct)
    (token : Token) : Blind (takeInline · construct token) m := by
  constructor
  · simp only [takeInline, closeInline_unnumber, (addInWord_blind _ _).unnumber,
      (changeStyle_blind _ _ _ _ _).unnumber, (styledWord_blind _ _ _).unnumber, read_unnumber,
      children_unnumber, List.isEmpty_map]
    split
    · rfl
    · split <;> first
        | rfl
        | (split <;> simp [Content.isNumbered, ← apply_ite unnumber])
  · have hclose := hm.ledger_closeInline hkind
    simp only [takeInline]
    split
    · exact hclose _
    · split <;> first
        | exact hclose _
        | exact (addInWord_blind m token).ledger
        | (split <;> simp [Content.isNumbered, apply_ite ledger, hclose,
            (changeStyle_blind _ _ _ _ _).ledger, (styledWord_blind _ _ _).ledger])

end Machine

end DocMarkup.Parser
