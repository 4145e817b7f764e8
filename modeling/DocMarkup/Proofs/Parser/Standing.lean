import DocMarkup.Proofs.Parser.Tracing

/-!
Steps that leave the scanner where it stands.  Only the commands that take text with them move it
on with a token in hand; whatever else becomes of the token, the scanner stays behind it.
-/

namespace DocMarkup.Parser

/-- The token in hand: one that goes to the innermost construct, or back to the one around. -/
def Phase.hand? : Phase → Option Token
  | .take token | .ended (.handBack token) => some token
  | _ => none

theorem Phase.token?_of_hand? {phase : Phase} {token : Token} (h : phase.hand? = some token) :
    phase.token? = some token := by
  cases phase with
  | take other => exact h
  | ended outcome =>
      cases outcome with
      | handBack other => exact h
      | _ => cases h
  | _ => cases h

namespace Machine

/-- Where the scanner stands, and the token behind which it does. -/
def place (m : Machine) : Cursor × Token := (m.scanner.cursor, m.scanner.last)

variable (m : Machine)

theorem place_of_scanner {m m' : Machine} (h : m'.scanner = m.scanner) : m'.place = m.place := by
  rw [place, place, h]

/-! ### What is done to the machine -/

section

@[simp] theorem place_report (token : Token) (problem : Problem) :
    (m.report token problem).place = m.place := rfl

@[simp] theorem place_read : m.read.place = m.place := rfl

@[simp] theorem place_readSolid : m.readSolid.place = m.place := rfl

@[simp] theorem place_take (token : Token) : (m.take token).place = m.place := rfl

@[simp] theorem place_ended (outcome : Outcome) : (m.ended outcome).place = m.place := rfl

@[simp] theorem place_push (c : Construct) : (m.push c).place = m.place := rfl

@[simp] theorem place_pop : m.pop.place = m.place := rfl

@[simp] theorem place_setInsidePre (insidePre : Bool) :
    (m.setInsidePre insidePre).place = m.place := rfl

@[simp] theorem place_modifyTop (f : Frame → Frame) : (m.modifyTop f).place = m.place :=
  place_of_scanner (scanner_modifyTop ..)

@[simp] theorem place_setChildren (children : List Node) :
    (m.setChildren children).place = m.place := place_modifyTop ..

@[simp] theorem place_append (n : Node) : (m.append n).place = m.place := place_modifyTop ..

@[simp] theorem place_changeStyle (style : Style) (enable : Bool) (position : Nat)
    (attributes : Attributes) :
    (m.changeStyle style enable position attributes).place = m.place := place_append ..

@[simp] theorem place_appendAll (nodes : List Node) : (m.appendAll nodes).place = m.place := by
  unfold appendAll
  induction nodes generalizing m with
  | nil => rfl
  | cons n rest ih => rw [List.foldl_cons, ih, place_append]

@[simp] theorem place_attach (f : Frame) : (m.attach f).place = m.place := by
  unfold attach
  split
  · exact place_append ..
  · rfl

@[simp] theorem place_close (outcome : Outcome) : (m.close outcome).place = m.place := by
  unfold close
  split
  · rfl
  · exact place_attach ..

@[simp] theorem place_addInWord (token : Token) : (m.addInWord token).place = m.place :=
  place_of_scanner (scanner_addInWord ..)

@[simp] theorem place_addWord (word : Text) : (m.addWord word).place = m.place :=
  place_of_scanner (scanner_addWord ..)

@[simp] theorem place_plain (warn : Bool) (t : Text) : (m.plain warn t).2.place = m.place := by
  unfold plain
  dsimp only
  induction (Scanner.ofText t).readAll.1 generalizing m with
  | nil => rfl
  | cons token rest ih =>
      rw [List.foldl_cons, ih, notePlain]
      split <;> split <;> rfl

@[simp] theorem place_enterStyle (entered : OpenStyle) :
    (m.enterStyle entered).place = m.place := by
  unfold enterStyle
  dsimp only
  split <;> simp

@[simp] theorem place_leaveStyle : m.leaveStyle.place = m.place := place_modifyTop ..

@[simp] theorem place_openParagraph : m.openParagraph.place = m.place := by
  have hreopen : ∀ (styles : List OpenStyle) (m : Machine),
      (styles.foldl (fun m entered =>
        (m.append (syntheticChange entered.style true m.scanner.last.start entered.attributes))
          |>.enterStyle entered) m).place = m.place := by
    intro styles
    induction styles with
    | nil => exact fun _ => rfl
    | cons entered styles ih => exact fun m => (ih _).trans (by simp)
  exact hreopen m.reopening _

@[simp] theorem place_closeParagraph (outcome : Outcome) :
    (m.closeParagraph outcome).place = m.place := by
  unfold closeParagraph
  split
  · rfl
  · next f outer _ =>
    dsimp only
    split <;> split
    · rfl
    · rfl
    · exact place_attach ..
    · exact place_attach ..

/-! ### Text within a line -/

@[simp] theorem place_closeLink (link : Link) (resolved : Bool) (opener : Token)
    (outcome : Outcome) : (m.closeLink link resolved opener outcome).place = m.place := by
  unfold closeLink
  dsimp only
  split_ifs <;> simp

@[simp] theorem place_closeHeader (opener : Token) (outcome : Outcome) :
    (m.closeHeader opener outcome).place = m.place := by
  unfold closeHeader
  split <;> simp [reportUnclosed]

@[simp] theorem place_closeCaption (frame : Frame) (kept : Bool) (outcome : Outcome) :
    (m.closeCaption frame kept outcome).place = m.place := by
  unfold closeCaption
  split <;> simp

@[simp] theorem place_closeInline (outcome : Outcome) :
    (m.closeInline outcome).place = m.place := by
  have htrim := m.place_setChildren (dropTrailingSpace m.children)
  unfold closeInline
  dsimp only
  generalize m.setChildren (dropTrailingSpace m.children) = trimmed at htrim
  rw [← htrim]
  split
  · rfl
  · split
    · simp
    · simp
    · split <;> simp [reportUnclosed]
    · simp
    · simp

/-! ### Tags -/

@[simp] theorem place_styleStart (token : Token) (style : Style) :
    (m.styleStart token style).place = m.place := by
  unfold styleStart
  dsimp only
  split <;> simp

@[simp] theorem place_styleEnd (token : Token) (style : Style) :
    (m.styleEnd token style).place = m.place := by
  unfold styleEnd
  dsimp only
  split_ifs <;> simp

@[simp] theorem place_closeBefore (opener token : Token) :
    (m.closeBefore opener token).place = m.place := place_close ..

@[simp] theorem place_closeAtEnd (opener : Token) : (m.closeAtEnd opener).place = m.place :=
  place_close ..

@[simp] theorem place_partEnded (opener : Token) (outcome : Outcome) :
    (m.partEnded opener outcome).place = m.place := by
  unfold partEnded
  split <;> simp

@[simp] theorem place_list (token : Token) : (m.list token).place = m.place := rfl

@[simp] theorem place_listItem (token : Token) : (m.listItem token).place = m.place := by
  unfold listItem
  split
  · split <;> rfl
  · rfl

@[simp] theorem place_takeInList (opener token : Token) :
    (m.takeInList opener token).place = m.place := by
  unfold takeInList
  split_ifs <;> simp

@[simp] theorem place_takeInDescList (opener token : Token) :
    (m.takeInDescList opener token).place = m.place := by
  unfold takeInDescList
  split_ifs <;> simp

@[simp] theorem place_takeInTable (caption : Option Node) (opener token : Token) :
    (m.takeInTable caption opener token).place = m.place := by
  unfold takeInTable
  dsimp only
  split_ifs <;> simp

@[simp] theorem place_takeInRow (token : Token) : (m.takeInRow token).place = m.place := by
  unfold takeInRow
  split_ifs <;> simp

@[simp] theorem place_cellEnded (outcome : Outcome) : (m.cellEnded outcome).place = m.place := by
  unfold cellEnded
  split <;> simp

@[simp] theorem place_startTag (token : Token) : (m.startTag token).place = m.place := by
  unfold startTag anchorTag imageTag paragraphTag
  dsimp only
  split
  · simp
  · simp
  · split
    · split_ifs <;> simp
    · simp
    · simp
    · simp
    · simp
    · simp
    · simp
    · split
      · split_ifs <;> simp
      · split <;> simp
    · split_ifs <;> simp
    · split_ifs <;> simp
    · simp

@[simp] theorem place_endTag (token : Token) : (m.endTag token).place = m.place := by
  unfold endTag
  dsimp only
  split
  · simp
  · split_ifs <;> simp

/-! ### Blocks -/

@[simp] theorem place_keyword (token : Token) : (m.keyword token).place = m.place := by
  unfold keyword
  simp

@[simp] theorem place_openItem (token : Token) : (m.openItem token).place = m.place := by
  unfold openItem
  split
  · split <;> rfl
  · rfl

@[simp] theorem place_listMarker (token : Token) : (m.listMarker token).place = m.place := by
  unfold listMarker
  dsimp only
  split_ifs <;> simp
  rfl

@[simp] theorem place_itemEnded (list : AutoList) (next : Whole) (outcome : Outcome) :
    (m.itemEnded list next outcome).place = m.place := by
  unfold itemEnded
  dsimp only
  split
  · split_ifs <;> simp <;> rfl
  · rw [place_close]
    rfl

@[simp] theorem place_sectionPartEnded (outcome : Outcome) (unexpected : Text → Problem) :
    (m.sectionPartEnded outcome unexpected).place = m.place := by
  unfold sectionPartEnded
  split
  · split <;> simp
  · rfl

@[simp] theorem place_blockParagraphEnded (outcome : Outcome) (isEnd : Token → Bool) :
    (m.blockParagraphEnded outcome isEnd).place = m.place := by
  unfold blockParagraphEnded
  split
  · rfl
  · split <;> simp
  · simp

/-- When a construct has ended, nothing is read. -/
theorem place_resume (outcome : Outcome) : (m.resume outcome).place = m.place := by
  unfold resume
  cases hstack : m.stack with
  | nil => rfl
  | cons frame outer =>
      dsimp only
      cases frame.construct <;> dsimp only
      case root => split <;> first | rfl | simp
      case sect => split <;> simp
      case paragraph => split <;> simp
      case autoListItem =>
        split
        · split <;> simp
        · simp
      case simpleList =>
        split
        · split <;> simp
        · simp
      case cell =>
        split
        · simp
        · split <;> simp
        · simp
      case parBlock => split <;> simp
      case blockQuote => split <;> simp [reportUnclosed]
      all_goals simp

end

/-! ### A token in hand -/

/-- What a step does with the token in hand: the scanner stays, or the token is a command that is
taken up with the text behind it, or one that styles a word where there is none, and the next token
is read. -/
inductive Handles (m : Machine) (token : Token) (m' : Machine) : Prop
  | stays (hplace : m'.place = m.place)
  | takesUp (hkind : token.kind = .command) (hphase : m'.phase.hand? = none)
  | passes (style : Style) (hkind : token.kind = .command)
      (hname : Command.ofName token.value = .word style)
      (hphase : m'.phase = .take m.scanner.skipHorizontalSpace.scan.token)
      (hscanner : m'.scanner = m.scanner.skipHorizontalSpace.scan)

variable {m : Machine} {token : Token}

theorem styledWord_handles (hkind : token.kind = .command) {style : Style}
    (hname : Command.ofName token.value = .word style) :
    Handles m token (m.styledWord token style) := by
  let skipped : Machine := { m with scanner := m.scanner.skipHorizontalSpace }
  have hword : m.styledWord token style = if skipped.next.1.isInWord then
      { (skipped.next.2.changeStyle style true token.start []).addInWord skipped.next.1 with
        phase := .readWord style }
    else (skipped.next.2.report token (.missingStyledWord token.value)).take skipped.next.1 := rfl
  rw [hword]
  split
  · exact .takesUp hkind rfl
  · exact .passes style hkind hname rfl skipped.scanner_next

theorem simpleSection_handles (hkind : token.kind = .command) (type : SimpleSectionType) :
    Handles m token (m.simpleSection token type) := by
  unfold simpleSection
  split
  · exact .stays (place_closeParagraph ..)
  · dsimp only
    split <;> exact .takesUp hkind rfl

theorem paramSection_handles (hkind : token.kind = .command) (type : ParamSectionType) :
    Handles m token (m.paramSection token type) := by
  unfold paramSection
  split
  · exact .stays (place_closeParagraph ..)
  · exact .takesUp hkind rfl

theorem xrefItem_handles (hkind : token.kind = .command) :
    Handles m token (m.xrefItem token) := by
  unfold xrefItem
  split
  · exact .stays (place_closeParagraph ..)
  · exact .takesUp hkind rfl

theorem simpleList_handles (hkind : token.kind = .command) :
    Handles m token (m.simpleList token) := by
  unfold simpleList
  split
  · exact .stays (place_closeParagraph ..)
  · exact .takesUp hkind rfl

/-! Handlers that take an argument go on reading, whether there is one or not. -/

theorem phase_inclusion (token : Token) (type : IncludeType) :
    (m.inclusion token type).phase = .read := by
  unfold inclusion
  split <;> rfl

theorem phase_diagramFile (token : Token) (type : DiagramType) :
    (m.diagramFile token type).phase = .read := by
  unfold diagramFile
  split <;> rfl

theorem phase_reference (token : Token) (isSubPage : Bool) :
    (m.reference token isSubPage).phase = .read := by
  unfold reference
  split
  · rfl
  · dsimp only
    split <;> rfl

theorem phase_link (token : Token) : (m.link token).phase = .read := by
  unfold link
  split <;> rfl

theorem phase_citation (token : Token) : (m.citation token).phase = .read := by
  unfold citation
  split <;> rfl

theorem phase_internalReference (token : Token) : (m.internalReference token).phase = .read := by
  unfold internalReference
  split <;> rfl

theorem phase_copy (token : Token) (brief details : Bool) :
    (m.copy token brief details).phase = .read := by
  unfold copy
  split <;> rfl

theorem phase_anchor (token : Token) : (m.anchor token).phase = .read := by
  unfold anchor
  split <;> rfl

theorem phase_indexEntry : m.indexEntry.phase = .read := by
  unfold indexEntry
  dsimp only
  split <;> rfl

theorem phase_image (token : Token) : (m.image token).phase = .read := by
  unfold image
  dsimp only
  split
  · split <;> rfl
  · rfl

theorem command_handles (hkind : token.kind = .command) : Handles m token (m.command token) := by
  have htaken {m' : Machine} (hphase : m'.phase = .read) : Handles m token m' :=
    .takesUp hkind (by rw [hphase]; rfl)
  have hback : Handles m token
      ((m.record (.entered token.value)).closeParagraph (.handBack token)) :=
    .stays (place_closeParagraph ..)
  have hrecord {m' : Machine} (h : Handles (m.record (.entered token.value)) token m') :
      Handles m token m' := by
    cases h with
    | stays hplace => exact .stays hplace
    | takesUp hkind hphase => exact .takesUp hkind hphase
    | passes style hkind hname hphase hscanner => exact .passes style hkind hname hphase hscanner
  unfold command
  dsimp only
  cases hname : Command.ofName token.value with
  | word style => exact hrecord (styledWord_handles hkind hname)
  | sect level => exact hback
  | simpleSection type => exact hrecord (simpleSection_handles hkind type)
  | paramSection type => exact hrecord (paramSection_handles hkind type)
  | xrefItem => exact hrecord (xrefItem_handles hkind)
  | verbatim type ending => exact htaken rfl
  | inclusion type => exact htaken (phase_inclusion token type)
  | includeStep operator => exact htaken rfl
  | diagramFile type => exact htaken (phase_diagramFile token type)
  | lineBreak => exact htaken rfl
  | sourceBreak => exact htaken rfl
  | anchor => exact htaken (phase_anchor token)
  | indexEntry => exact htaken phase_indexEntry
  | listItem => exact hrecord (simpleList_handles hkind)
  | internal =>
      dsimp only
      unfold internal
      split <;> exact htaken rfl
  | endInternal =>
      dsimp only
      split
      · exact hback
      · exact htaken rfl
  | parBlock => exact htaken rfl
  | endParBlock =>
      dsimp only
      split
      · exact hback
      · exact htaken rfl
  | refList => exact .takesUp hkind rfl
  | reference isSubPage => exact htaken (phase_reference token isSubPage)
  | link => exact htaken (phase_link token)
  | citation => exact htaken (phase_citation token)
  | internalReference => exact htaken (phase_internalReference token)
  | copy brief details => exact htaken (phase_copy token brief details)
  | image => exact htaken (phase_image token)
  | formula => exact htaken rfl
  | ignored => exact htaken rfl
  | unmatched => exact htaken rfl
  | unknown => exact htaken rfl

theorem takeInParagraph_handles (token : Token) :
    Handles m token (m.takeInParagraph token) := by
  unfold takeInParagraph
  cases hkind : token.kind with
  | command => exact command_handles hkind
  | whiteSpace =>
      dsimp only
      split_ifs <;> exact .stays (by simp)
  | endList =>
      dsimp only
      split_ifs <;> exact .stays (by simp)
  | unknown => exact .stays rfl
  | endOfText | word | newParagraph | listItem | symbol | url | startTag | endTag | keyword =>
      exact .stays (by simp)

theorem takeInline_handles (construct : Construct) (token : Token) :
    Handles m token (m.takeInline construct token) := by
  unfold takeInline
  split
  · exact .stays (by simp)
  · split
    · exact .stays (by simp)
    · exact .stays (by simp)
    · exact .stays (by simp)
    · exact .stays (by simp)
    · exact .stays (by simp)
    · split <;> exact .stays (by simp)
    · split
      · exact .stays (by simp)
      · split <;> exact .stays (by simp)
    · split
      · exact .stays (by simp)
      · split <;> exact .stays (by simp)
    · next hkind =>
      split
      · next style hname => exact styledWord_handles hkind hname
      · exact .stays (by simp)
      · exact .stays (by simp)
    · exact .stays (by simp)

theorem takeInRefList_handles (opener token : Token) :
    Handles m token (m.takeInRefList opener token) := by
  unfold takeInRefList
  split_ifs with hitem
  · exact .takesUp (beq_iff_eq.1 (Bool.and_eq_true_iff.1 hitem).1) rfl
  · exact .stays (by simp)
  · exact .stays (by simp)
  · exact .stays (by simp)

theorem kind_of_sectionLevel? {level : Nat} (h : sectionLevel? token = some level) :
    token.kind = .command := by
  unfold sectionLevel? at h
  split at h
  · next hkind => exact beq_iff_eq.1 hkind
  · cases h

theorem dispatch_handles (token : Token) : Handles m token (m.dispatch token) := by
  have hopened : Handles m token (m.openParagraph.take token) := .stays (by simp)
  unfold dispatch
  cases hstack : m.stack with
  | nil => exact .stays rfl
  | cons frame outer =>
      dsimp only
      cases frame.construct <;> dsimp only
      case root =>
        split
        · next level hlevel => exact .takesUp (kind_of_sectionLevel? hlevel) rfl
        · exact hopened
      case sect =>
        split
        · next level hlevel =>
          split
          · exact .stays (by simp)
          · exact .takesUp (kind_of_sectionLevel? hlevel) rfl
        · exact hopened
      case paragraph => exact takeInParagraph_handles token
      case refList opener => exact takeInRefList_handles opener token
      case list => exact .stays (by simp)
      case descList => exact .stays (by simp)
      case table => exact .stays (by simp)
      case row => exact .stays (by simp)
      case descTitle => exact takeInline_handles ..
      case caption => exact takeInline_handles ..
      case header => exact takeInline_handles ..
      case hyperlink => exact takeInline_handles ..
      case link => exact takeInline_handles ..
      all_goals exact hopened

theorem step_handles (h : m.phase.hand? = some token) : Handles m token m.step := by
  unfold step
  cases hphase : m.phase with
  | take other =>
      rw [hphase] at h
      obtain rfl : other = token := Option.some.inj h
      exact dispatch_handles other
  | ended outcome => exact .stays (place_resume ..)
  | read | readSolid | readWord | finished =>
      rw [hphase] at h
      cases h

/-! ### Without reading -/

variable {m' : Machine} {ends : Outcome → Prop}

theorem ahead_eq_nil_of_endOfText (htoken : Scanned m m' token) (hplace : m'.place = m.place) :
    m.scanner.cursor.ahead = [] := by
  have hcursor : m'.scanner.cursor = m.scanner.cursor := congrArg Prod.fst hplace
  have hoffset : m'.scanner.offset = m.scanner.offset := congrArg Cursor.offset hcursor
  rw [← List.length_eq_zero_iff, Cursor.length_ahead]
  rcases htoken.progress with ⟨-, hend⟩ | ⟨-, hlt⟩
  · exact Nat.sub_eq_zero_of_le (hend.symm.trans hoffset).le
  · exact absurd hoffset hlt.ne'

theorem hand?_of_isReading {phase : Phase} (h : phase.isReading) : phase.hand? = none := by
  cases phase <;> first
    | rfl
    | cases h

theorem Goes.hand? (h : Goes m ends m') (hplace : m'.place = m.place)
    (hends : ∀ token, ends (.handBack token) → m.phase.hand? = some token) :
    m'.phase.hand? = none ∨ m'.phase.hand? = m.phase.hand? ∨ m.scanner.cursor.ahead = [] := by
  cases h with
  | reads _ _ hphase => exact .inl (hand?_of_isReading hphase)
  | scans token _ _ _ htoken => exact .inr (.inr (ahead_eq_nil_of_endOfText htoken hplace))
  | opens _ _ _ _ hphase => exact .inl (hand?_of_isReading (Phase.isReading_of_readsAnew hphase))
  | opensTwo _ _ _ _ _ _ hphase =>
      exact .inl (hand?_of_isReading (Phase.isReading_of_readsAnew hphase))
  | leaves outcome _ _ hphase hends' =>
      rw [hphase]
      cases outcome with
      | handBack token => exact .inr (.inl (hends token hends').symm)
      | complete | endOfText | newParagraph => exact .inl rfl

/-- A step that leaves the scanner where it stands lets go of the token in hand or keeps it, unless
the text is at its end. -/
theorem Turn.hand? (h : Turn m m') (hplace : m'.place = m.place)
    (hreading : m.phase.isReading = false) :
    m'.phase.hand? = none ∨ m'.phase.hand? = m.phase.hand? ∨ m.scanner.cursor.ahead = [] := by
  cases h with
  | scans _ hphase => exact absurd (hphase.symm.trans hreading) nofun
  | reads hphase => exact absurd (hphase.symm.trans hreading) nofun
  | takes token hphase _ h =>
      refine h.hand? hplace fun other hother => ?_
      obtain rfl : other = token := by simpa [endsWith] using hother
      rw [hphase]
      rfl
  | opensFor token hphase _ _ _ hphase' =>
      rw [hphase, hphase']
      exact .inr (.inl rfl)
  | resumes outcome hphase _ h =>
      refine h.hand? hplace fun other hother => ?_
      obtain rfl : .handBack other = outcome := by simpa [endsAfter] using hother
      rw [hphase]
      rfl
  | retakes token hphase _ hphase' =>
      rw [hphase, hphase']
      exact .inr (.inl rfl)
  | closes _ _ _ hphase' =>
      rw [hphase']
      exact .inl rfl
  | finishes => exact .inl rfl

end Machine

end DocMarkup.Parser
