import DocMarkup.Proofs.Parser.Places

/-!
Steps keep track of tokens.  A token that a handler takes further, keeps with a construct or reports
at is the one it was given, the one that began the innermost construct, or the one it reads.
-/

namespace DocMarkup.Parser.Machine

variable {tokens : Token → Prop} {m m' : Machine} {token : Token} {outcome : Outcome}

/-- A step reads a token: the scanner has moved on past white space at most and scanned it. -/
def Emits (m m' : Machine) (token : Token) : Prop :=
  ∃ s : Scanner, m.scanner.Advances s ∧ m'.scanner = s.scan ∧ token = s.scan.token

/-- A token goes back where it came from. -/
theorem tokens_handBack (htoken : tokens token) :
    ∀ other, (Outcome.handBack token).token? = some other → tokens other := by
  rintro _ ⟨⟩
  exact htoken

theorem tokens_newParagraph (htoken : tokens token) :
    ∀ other, (Outcome.newParagraph token).token? = some other → tokens other := by
  rintro _ ⟨⟩
  exact htoken

theorem tokens_complete : ∀ other, Outcome.complete.token? = some other → tokens other := by
  rintro _ ⟨⟩

theorem tokens_endOfText : ∀ other, Outcome.endOfText.token? = some other → tokens other := by
  rintro _ ⟨⟩

/-! ### The scanner -/

theorem scanner_resolve (m : Machine) (target : Text) :
    (m.resolve target).2.scanner = m.scanner := by
  unfold resolve
  split <;> rfl

theorem scanner_addWord (m : Machine) (word : Text) : (m.addWord word).scanner = m.scanner :=
  addWord_induction (P := fun m' => m'.scanner = m.scanner)
    (fun target h => (scanner_resolve _ target).trans h)
    (fun _ h => (scanner_append ..).trans h) rfl word

theorem scanner_addInWord (m : Machine) (token : Token) :
    (m.addInWord token).scanner = m.scanner := by
  unfold addInWord
  split
  · exact scanner_addWord ..
  · exact scanner_append ..
  · exact scanner_append ..

theorem emits_next (m : Machine) : Emits m m.next.2 m.next.1 :=
  ⟨m.scanner, .refl _, m.scanner_next, rfl⟩

theorem Emits.congr {m₁ m₂ : Machine} (h : Emits m m₁ token) (hscanner : m₂.scanner = m₁.scanner) :
    Emits m m₂ token := by
  obtain ⟨s, hadvances, hscan, htoken⟩ := h
  exact ⟨s, hadvances, hscanner.trans hscan, htoken⟩

/-! ### Paragraphs, words and styles -/

namespace Keeps

theorem changeStyle (h : Keeps tokens m) (style : Style) (enable : Bool) (position : Nat)
    (attributes : Attributes) : Keeps tokens (m.changeStyle style enable position attributes) :=
  h.append _

theorem setInsidePre (h : Keeps tokens m) (insidePre : Bool) :
    Keeps tokens (m.setInsidePre insidePre) := h.congr rfl rfl

theorem enterStyle (h : Keeps tokens m) (entered : OpenStyle) :
    Keeps tokens (m.enterStyle entered) := by
  unfold Machine.enterStyle
  dsimp only
  split
  · refine Keeps.setInsidePre ?_ true
    exact h.modifyTop_same fun frame => by split <;> simp_all [Construct.opener?]
  · exact h.modifyTop_same fun frame => by split <;> simp_all [Construct.opener?]

theorem leaveStyle (h : Keeps tokens m) : Keeps tokens m.leaveStyle :=
  h.modifyTop_same fun frame => by split <;> simp_all [Construct.opener?]

theorem openParagraph (h : Keeps tokens m) : Keeps tokens m.openParagraph := by
  have hreopen : ∀ (styles : List OpenStyle) (m : Machine), Keeps tokens m →
      Keeps tokens (styles.foldl (fun m entered =>
        (m.append (syntheticChange entered.style true m.scanner.last.start entered.attributes))
          |>.enterStyle entered) m) := by
    intro styles
    induction styles with
    | nil => exact fun _ h => h
    | cons entered styles ih => exact fun m h => ih _ ((h.append _).enterStyle entered)
  exact hreopen m.reopening _
    ((h.congr rfl rfl : Keeps tokens { m with reopening := [] }).pushPlain rfl)

theorem closeParagraph (h : Keeps tokens m)
    (houtcome : ∀ token, outcome.token? = some token → tokens token) :
    Traced tokens (m.closeParagraph outcome) := by
  unfold Machine.closeParagraph
  split
  · exact h.finished
  · next f outer hstack =>
    dsimp only
    generalize hm₀ : (if f.construct.styles.any _ then m.setInsidePre false else m : Machine) = m₀
    have hm : Keeps tokens m₀ ∧ m₀.stack = m.stack := by
      rw [← hm₀]
      split
      · exact ⟨h.setInsidePre false, rfl⟩
      · exact ⟨h, rfl⟩
    have houter : Keeps tokens
        { m₀ with stack := outer, reopening := m₀.reopening ++ f.construct.styles.reverse } :=
      (hm.1.outer (hm.2.trans hstack)).congr rfl rfl
    split
    · exact houter.ended houtcome
    · exact (houter.attach _).ended houtcome

theorem addWord (h : Keeps tokens m) (word : Text) : Keeps tokens (m.addWord word) :=
  addWord_induction (fun target h => h.resolve target) (fun _ h => h.append _) h word

theorem addInWord (h : Keeps tokens m) (token : Token) : Keeps tokens (m.addInWord token) := by
  unfold Machine.addInWord
  split
  · exact h.addWord _
  · exact h.append _
  · exact h.append _

theorem readWord (h : Keeps tokens m) (style : Style) :
    Traced tokens { m with phase := .readWord style } :=
  ⟨h.congr rfl rfl, by rintro _ ⟨⟩⟩

theorem styledWord (h : Keeps tokens m) (htoken : tokens token) (style : Style)
    (hread : ∀ other, Emits m (m.styledWord token style) other → tokens other) :
    Traced tokens (m.styledWord token style) := by
  let skipped : Machine := { m with scanner := m.scanner.skipHorizontalSpace }
  have hemits : Emits m skipped.next.2 skipped.next.1 :=
    ⟨skipped.scanner, m.scanner.advances_skipHorizontalSpace, skipped.scanner_next, rfl⟩
  have hnext : Keeps tokens skipped.next.2 := (h.congr rfl rfl : Keeps tokens skipped).next
  have hword : m.styledWord token style = if skipped.next.1.isInWord then
      { (skipped.next.2.changeStyle style true token.start []).addInWord skipped.next.1 with
        phase := .readWord style }
    else (skipped.next.2.report token (.missingStyledWord token.value)).take skipped.next.1 := rfl
  rw [hword] at hread ⊢
  split at hread
  · next hin =>
    rw [if_pos hin]
    exact ((hnext.changeStyle ..).addInWord _).readWord style
  · next hout =>
    rw [if_neg hout]
    exact (hnext.report htoken _).take (hread _ (hemits.congr rfl))

theorem continueWord (h : Keeps tokens m) (style : Style)
    (hread : ∀ other, Emits m (m.continueWord style) other → tokens other) :
    Traced tokens (m.continueWord style) := by
  have hword : m.continueWord style = if m.next.1.isInWord then
      { m.next.2.addInWord m.next.1 with phase := .readWord style }
    else (m.next.2.changeStyle style false m.next.1.start []).take m.next.1 := rfl
  rw [hword] at hread ⊢
  split at hread
  · next hin =>
    rw [if_pos hin]
    exact (h.next.addInWord _).readWord style
  · next hout =>
    rw [if_neg hout]
    exact (h.next.changeStyle ..).take (hread _ (m.emits_next.congr (scanner_append ..)))

theorem styleStart (h : Keeps tokens m) (token : Token) (style : Style) :
    Traced tokens (m.styleStart token style) := by
  unfold Machine.styleStart
  dsimp only
  split
  · exact ((h.changeStyle ..).changeStyle ..).read
  · exact ((h.changeStyle ..).enterStyle _).read

theorem styleEnd (h : Keeps tokens m) (htoken : tokens token) (style : Style) :
    Traced tokens (m.styleEnd token style) := by
  unfold Machine.styleEnd
  split
  · have hleft : Keeps tokens (if m.leaveStyle.insidePre && style != .preformatted then m.leaveStyle
        else m.leaveStyle.setChildren (dropTrailingSpace m.leaveStyle.children)) := by
      split
      · exact h.leaveStyle
      · exact h.leaveStyle.setChildren _
    dsimp only
    refine Keeps.read ?_
    split
    · exact (hleft.changeStyle ..).setInsidePre false
    · exact hleft.changeStyle ..
  · exact (h.report htoken _).read

/-! ### Text within a line -/

section

variable {opener : Token}

theorem closeLink (h : Keeps tokens m) (hopener : tokens opener) (link : Link) (resolved : Bool)
    (houtcome : ∀ token, outcome.token? = some token → tokens token) :
    Traced tokens (m.closeLink link resolved opener outcome) := by
  unfold Machine.closeLink
  have hended : Keeps tokens (if outcome == .complete then m
      else m.report opener (.unterminatedLink link.target)) := by
    split
    · exact h
    · exact h.report hopener _
  dsimp only
  generalize (if outcome == .complete then m else _ : Machine) = m₁ at hended
  have hshown : Keeps tokens (if m₁.children.isEmpty then m₁.append (.leaf (.word link.target))
      else m₁) := by
    split
    · exact hended.append _
    · exact hended
  generalize (if m₁.children.isEmpty then _ else m₁ : Machine) = m₂ at hshown
  split
  · exact hshown.close houtcome
  · exact ((((hshown.report hopener _).pop.changeStyle ..).appendAll _).changeStyle ..).ended
      houtcome

theorem closeHeader (h : Keeps tokens m) (hopener : tokens opener)
    (houtcome : ∀ token, outcome.token? = some token → tokens token) :
    Traced tokens (m.closeHeader opener outcome) := by
  unfold Machine.closeHeader
  refine Keeps.close ?_ houtcome
  split
  · exact h
  · exact h.report hopener _
  · exact h.report hopener _

theorem closeCaption (h : Keeps tokens m) (frame : Frame) (kept : Bool)
    (houtcome : ∀ token, outcome.token? = some token → tokens token) :
    Traced tokens (m.closeCaption frame kept outcome) := by
  unfold Machine.closeCaption
  refine Keeps.ended ?_ houtcome
  split
  · exact h.pop
  · exact h.pop.modifyTop_same fun outer => by split <;> simp_all [Construct.opener?]

theorem closeInline (h : Keeps tokens m)
    (houtcome : ∀ token, outcome.token? = some token → tokens token) :
    Traced tokens (m.closeInline outcome) := by
  have htrim := h.setChildren (dropTrailingSpace m.children)
  unfold Machine.closeInline
  dsimp only
  generalize m.setChildren (dropTrailingSpace m.children) = m₁ at htrim
  split
  · exact htrim.finished
  · next frame outer hstack =>
    have hopener := htrim.opener frame (hstack ▸ List.mem_cons_self)
    split
    · next hconstruct =>
      exact htrim.closeLink (hopener _ (hconstruct ▸ rfl)) _ _ houtcome
    · next hconstruct => exact htrim.closeHeader (hopener _ (hconstruct ▸ rfl)) houtcome
    · next hconstruct =>
      refine Keeps.close ?_ houtcome
      exact htrim.reportIf _ (hopener _ (hconstruct ▸ rfl)) _
    · exact htrim.closeCaption frame _ houtcome
    · exact htrim.close houtcome

theorem takeInline (h : Keeps tokens m) (htoken : tokens token) (construct : Construct)
    (hread : ∀ other, Emits m (m.takeInline construct token) other → tokens other) :
    Traced tokens (m.takeInline construct token) := by
  have hback : Traced tokens (m.closeInline (.handBack token)) :=
    h.closeInline (tokens_handBack htoken)
  unfold Machine.takeInline
  split
  · exact h.closeInline tokens_complete
  · next hgoes =>
    split
    · exact h.closeInline tokens_endOfText
    · exact h.closeInline (tokens_newParagraph htoken)
    · exact (h.addInWord token).read
    · exact (h.addInWord token).read
    · exact (h.addInWord token).read
    · refine Keeps.read ?_
      split
      · exact h
      · exact h.append _
    · split
      · exact (h.changeStyle ..).read
      · split
        · exact (h.append _).read
        · exact hback
    · split
      · exact (h.changeStyle ..).read
      · split
        · exact (h.append _).read
        · exact hback
    · next hkind =>
      split
      · next style hcommand =>
        have hword : m.takeInline construct token = m.styledWord token style := by
          simp only [Machine.takeInline, hgoes, hkind, hcommand, Bool.false_eq_true, if_false]
        exact h.styledWord htoken style (hword ▸ hread)
      · exact (h.append _).read
      · exact hback
    · exact hback

/-! ### Markup -/

theorem closeBefore (h : Keeps tokens m) (hopener : tokens opener) (htoken : tokens token) :
    Traced tokens (m.closeBefore opener token) :=
  (h.report hopener _).close (tokens_handBack htoken)

theorem closeAtEnd (h : Keeps tokens m) (hopener : tokens opener) :
    Traced tokens (m.closeAtEnd opener) :=
  (h.report hopener _).close tokens_endOfText

theorem partEnded (h : Keeps tokens m) (hopener : tokens opener)
    (houtcome : ∀ token, outcome.token? = some token → tokens token) :
    Traced tokens (m.partEnded opener outcome) := by
  unfold Machine.partEnded
  split
  · exact h.closeAtEnd hopener
  · exact h.take (houtcome _ rfl)
  · exact h.readSolid

theorem listItem (h : Keeps tokens m) (token : Token) : Traced tokens (m.listItem token) := by
  unfold Machine.listItem
  split
  · next frame outer hstack =>
    split
    · next hconstruct =>
      refine Keeps.read (Keeps.pushPlain (h.replaceTop hstack ?_) ?_)
      · rw [hconstruct]
        rfl
      · rfl
    · exact h.read
  · exact h.read

theorem takeInList (h : Keeps tokens m) (hopener : tokens opener) (htoken : tokens token) :
    Traced tokens (m.takeInList opener token) := by
  unfold Machine.takeInList
  split
  · exact h.listItem token
  · split
    · refine Keeps.close ?_ tokens_complete
      split
      · exact h
      · exact h.report htoken _
    · split
      · exact h.closeAtEnd hopener
      · split
        · exact h.closeBefore hopener htoken
        · exact (h.report htoken _).readSolid

theorem takeInDescList (h : Keeps tokens m) (hopener : tokens opener) (htoken : tokens token) :
    Traced tokens (m.takeInDescList opener token) := by
  unfold Machine.takeInDescList
  split
  · exact (h.pushPlain rfl).read
  · split
    · exact (h.pushPlain rfl).read
    · split
      · exact h.close tokens_complete
      · split
        · exact h.closeAtEnd hopener
        · split
          · exact h.closeBefore hopener htoken
          · exact (h.report htoken _).readSolid

theorem takeInTable (h : Keeps tokens m) (caption : Option Node) (hopener : tokens opener)
    (htoken : tokens token) : Traced tokens (m.takeInTable caption opener token) := by
  unfold Machine.takeInTable
  split
  · exact ((h.reportIf _ htoken _).pushPlain rfl).read
  · split
    · exact (h.pushPlain rfl).readSolid
    · split
      · exact ((h.report htoken _).pushPlain rfl).take htoken
      · split
        · exact h.close tokens_complete
        · split
          · exact h.closeAtEnd hopener
          · split
            · exact h.readSolid
            · split
              · exact h.closeBefore hopener htoken
              · exact (h.report htoken _).readSolid

theorem takeInRow (h : Keeps tokens m) (htoken : tokens token) :
    Traced tokens (m.takeInRow token) := by
  unfold Machine.takeInRow
  split
  · exact (h.pushPlain rfl).read
  · split
    · exact h.close tokens_complete
    · split
      · exact h.close tokens_endOfText
      · split
        · exact h.close (tokens_handBack htoken)
        · split
          · exact h.readSolid
          · split
            · exact h.close (tokens_handBack htoken)
            · exact (h.report htoken _).readSolid

theorem cellEnded (h : Keeps tokens m)
    (houtcome : ∀ token, outcome.token? = some token → tokens token) :
    Traced tokens (m.cellEnded outcome) := by
  unfold Machine.cellEnded
  split
  · exact h.take (houtcome _ rfl)
  · exact h.close tokens_endOfText
  · exact h.readSolid

theorem anchorTag (h : Keeps tokens m) (htoken : tokens token) :
    Traced tokens (m.anchorTag token) := by
  unfold Machine.anchorTag
  dsimp only
  split
  · split
    · exact (h.append _).read
    · exact (h.pushFor rfl htoken).read
  · split
    · exact (h.append _).read
    · exact (h.report htoken _).read

theorem imageTag (h : Keeps tokens m) (htoken : tokens token) :
    Traced tokens (m.imageTag token) := by
  unfold Machine.imageTag
  dsimp only
  split
  · exact (h.report htoken _).read
  · exact (h.append _).read

theorem paragraphTag (h : Keeps tokens m) (htoken : tokens token) :
    Traced tokens (m.paragraphTag token) := by
  unfold Machine.paragraphTag
  split
  · exact (h.modifyTop_same fun frame => by split <;> simp_all [Construct.opener?]).read
  · exact h.closeParagraph (tokens_newParagraph htoken)

theorem startTag (h : Keeps tokens m) (htoken : tokens token) :
    Traced tokens (m.startTag token) := by
  unfold Machine.startTag
  split
  · exact h.styleStart ..
  · exact (h.pushFor rfl htoken).read
  · split
    · exact h.paragraphTag htoken
    · exact (h.append _).read
    · exact (h.append _).read
    · exact (h.pushFor rfl htoken).readSolid
    · exact (h.pushFor rfl htoken).readSolid
    · exact (h.pushFor rfl htoken).readSolid
    · exact (h.pushFor rfl htoken).read
    · exact h.anchorTag htoken
    · exact h.imageTag htoken
    · split
      · exact h.closeParagraph (tokens_handBack htoken)
      · exact (h.report htoken _).read
    · exact (h.report htoken _).read

theorem endTag (h : Keeps tokens m) (htoken : tokens token) : Traced tokens (m.endTag token) := by
  unfold Machine.endTag
  split
  · exact h.styleEnd htoken _
  · split
    · exact h.read
    · dsimp only
      split
      · exact h.closeParagraph (tokens_handBack htoken)
      · exact (h.report htoken _).read

/-! ### Blocks -/

theorem simpleSection (h : Keeps tokens m) (htoken : tokens token) (type : SimpleSectionType) :
    Traced tokens (m.simpleSection token type) := by
  unfold Machine.simpleSection
  split
  · exact h.closeParagraph (tokens_handBack htoken)
  · have htitle := h.sectionTitle type
    generalize m.sectionTitle type = read at htitle
    dsimp only
    split
    · exact (((htitle.setChildren _).pushPlain rfl).setChildren _).read
    · exact (htitle.pushPlain rfl).read

theorem keyword (h : Keeps tokens m) (htoken : tokens token) (hkind : token.kind = .keyword) :
    Traced tokens (m.keyword token) := by
  have htitle := h.plainKeyword htoken hkind (t := token.value)
    fun _ hother => List.mem_append_left _ hother
  have hbody := htitle.plainKeyword htoken hkind (t := token.text)
    fun _ hother => List.mem_append_right _ hother
  exact (hbody.append _).read

theorem paramSection (h : Keeps tokens m) (htoken : tokens token) (type : ParamSectionType) :
    Traced tokens (m.paramSection token type) := by
  unfold Machine.paramSection
  split
  · exact h.closeParagraph (tokens_handBack htoken)
  · have hdirection := h.direction htoken type
    generalize m.direction token type = read at hdirection
    dsimp only
    have hprevious : Keeps tokens (if (read.2.parametersBefore? type).isSome then
        read.2.setChildren read.2.children.tail else read.2) := by
      split
      · exact hdirection.setChildren _
      · exact hdirection
    refine Keeps.read (Keeps.pushPlain (Keeps.setChildren (Keeps.pushPlain ?_ rfl) _) rfl)
    exact ((hprevious.names _).reportIf _ htoken _).parameters type _

theorem xrefItem (h : Keeps tokens m) (htoken : tokens token) :
    Traced tokens (m.xrefItem token) := by
  unfold Machine.xrefItem
  split
  · exact h.closeParagraph (tokens_handBack htoken)
  · have hkey := h.itemKey htoken
    generalize m.itemKey token = read at hkey
    have hcounted : Keeps tokens { read.2.2 with items := read.2.2.items + 1 } :=
      hkey.congr rfl rfl
    refine Keeps.read (hcounted.pushPlain ?_)
    rfl

theorem openItem (h : Keeps tokens m) (token : Token) : Traced tokens (m.openItem token) := by
  unfold Machine.openItem
  split
  · next frame outer hstack =>
    split
    · next hconstruct =>
      refine Keeps.read (Keeps.pushPlain (h.replaceTop hstack ?_) ?_)
      · rw [hconstruct]
        rfl
      · rfl
    · exact h.read
  · exact h.read

theorem listMarker (h : Keeps tokens m) (htoken : tokens token) :
    Traced tokens (m.listMarker token) := by
  unfold Machine.listMarker
  dsimp only
  split
  · exact ((h.addWord _).append _).read
  · split
    · exact h.closeParagraph (tokens_handBack htoken)
    · refine Keeps.openItem ?_ token
      exact (h.pushPlain rfl : Keeps tokens (m.push (.autoList _ _))).congr rfl rfl

theorem itemEnded (h : Keeps tokens m) (list : AutoList) (next : Whole)
    (houtcome : ∀ token, outcome.token? = some token → tokens token) :
    Traced tokens (m.itemEnded list next outcome) := by
  have hleft : Keeps tokens { m with scanner := m.scanner.endList } := h.congr rfl rfl
  unfold Machine.itemEnded
  split
  · split
    · exact h.openItem _
    · dsimp only
      split
      · exact hleft.close tokens_complete
      · exact hleft.close houtcome
  · exact hleft.close houtcome

theorem simpleList (h : Keeps tokens m) (htoken : tokens token) :
    Traced tokens (m.simpleList token) := by
  unfold Machine.simpleList
  split
  · exact h.closeParagraph (tokens_handBack htoken)
  · exact ((h.pushPlain rfl).pushPlain rfl).read

theorem internal (h : Keeps tokens m) (htoken : tokens token) :
    Traced tokens (m.internal token) := by
  unfold Machine.internal
  split
  · exact (h.report htoken _).read
  · exact (h.pushPlain rfl).read

theorem refItem (h : Keeps tokens m) (htoken : tokens token) : Keeps tokens (m.refItem token) := by
  have hread := h.argument.restOfLine
  unfold Machine.refItem
  dsimp only
  split
  · exact hread.report htoken _
  · next target _ =>
    have hshown (shown : Text) := (hread.resolve target).plain shown
    split
    · exact (hshown _).append _
    · exact ((hshown _).append _).report htoken _

theorem takeInRefList (h : Keeps tokens m) (hopener : tokens opener) (htoken : tokens token) :
    Traced tokens (m.takeInRefList opener token) := by
  unfold Machine.takeInRefList
  split
  · exact (h.refItem htoken).readSolid
  · split
    · exact h.close tokens_complete
    · split
      · exact (h.report hopener _).close tokens_endOfText
      · exact (h.report htoken _).readSolid

/-! ### Raw text, files, images and references -/

theorem verbatim (h : Keeps tokens m) (htoken : tokens token) (type : VerbatimType)
    (ending : Text) : Traced tokens (m.verbatim token type ending) := by
  have hhint : Keeps tokens (if type == .code then m.attached '\x7b' '\x7d' else (none, m)).2 := by
    split
    · exact h.attached ..
    · exact h
  unfold Machine.verbatim
  dsimp only
  generalize (if type == .code then m.attached '\x7b' '\x7d' else (none, m)) = hint at hhint
  have hoption : Keeps tokens
      (if type == .htmlOnly then hint.2.attached '[' ']' else (none, hint.2)).2 := by
    split
    · exact hhint.attached ..
    · exact hhint
  generalize (if type == .htmlOnly then hint.2.attached '[' ']' else (none, hint.2)) = option
    at hoption
  have hraw := hoption.raw (Command.markers ending)
  refine Keeps.read (Keeps.append ?_ _)
  split
  · exact hraw
  · exact hraw.report htoken _

theorem formula (h : Keeps tokens m) (htoken : tokens token) : Traced tokens (m.formula token) := by
  have htext := h.formulaText token
  unfold Machine.formula
  generalize m.formulaText token = read at htext
  dsimp only
  have hread : Keeps tokens (if read.2.1 then read.2.2
      else read.2.2.report token (.unterminatedFormula token.value)) := by
    split
    · exact htext
    · exact htext.report htoken _
  generalize (if read.2.1 then read.2.2 else _ : Machine) = m' at hread
  have hknown : Keeps tokens { m' with formulas := (Formula.register m'.formulas read.1).2 } :=
    hread.congr rfl rfl
  exact (hknown.append _).read

theorem inclusion (h : Keeps tokens m) (htoken : tokens token) (type : IncludeType) :
    Traced tokens (m.inclusion token type) := by
  have hread := h.argument
  unfold Machine.inclusion
  generalize m.argument = read at hread
  obtain ⟨_ | file, m'⟩ := read
  · exact (hread.report htoken _).read
  · have hblock : Keeps tokens (if type == .snippet then m'.argument else (none, m')).2 := by
      split
      · exact hread.argument
      · exact hread
    dsimp only
    generalize (if type == .snippet then m'.argument else (none, m')) = block at hblock
    have htext := (hblock.reportIf (type == .snippet && (block.1.getD []).isEmpty) htoken
      (.missingBlockName file)).includedText htoken file (block.1.getD [])
    refine Keeps.read (Keeps.append ?_ _)
    split
    · exact htext.congr rfl rfl
    · exact htext

theorem includeStep (h : Keeps tokens m) (htoken : tokens token) (operator : IncludeOperator) :
    Traced tokens (m.includeStep token operator) := by
  have hread := h.restOfLine.reportIf m.restOfLine.1.isEmpty htoken (.missingPattern token.value)
  unfold Machine.includeStep
  dsimp only
  generalize (if m.restOfLine.1.isEmpty then _ else m.restOfLine.2 : Machine) = m' at hread
  refine Keeps.read (Keeps.append (Keeps.setChildren ?_ _) _)
  split
  · exact hread.congr rfl rfl
  · exact hread.report htoken _

theorem image (h : Keeps tokens m) (htoken : tokens token) : Traced tokens (m.image token) := by
  have hfile : Keeps tokens
      (if m.argument.1.isSome then m.argument.2.argument else (none, m.argument.2)).2 := by
    split
    · exact h.argument.argument
    · exact h.argument
  unfold Machine.image
  dsimp only
  generalize (if m.argument.1.isSome then m.argument.2.argument else (none, m.argument.2)) = read
    at hfile
  split
  · next format file _ _ =>
    split
    · exact (hfile.report htoken _).read
    · have hcaption := hfile.captionAndSize
      have hname : Keeps tokens (if Path.isAbsolute file then (file, read.2.captionAndSize.2.2)
          else read.2.captionAndSize.2.2.publishedName token file format).2 := by
        split
        · exact hcaption
        · exact hcaption.publishedName htoken ..
      refine Keeps.read (Keeps.append ?_ _)
      split
      · exact hname
      · exact hname.plain _
  · exact (hfile.report htoken _).read

theorem diagramFile (h : Keeps tokens m) (htoken : tokens token) (type : DiagramType) :
    Traced tokens (m.diagramFile token type) := by
  have hread := h.argument
  unfold Machine.diagramFile
  generalize m.argument = read at hread
  obtain ⟨_ | file, m'⟩ := read
  · exact (hread.report htoken _).read
  · have hcaption := hread.captionAndSize
    dsimp only at hcaption ⊢
    generalize m'.captionAndSize = caption at hcaption
    have htext : Keeps tokens
        (if caption.1.isEmpty then ([], caption.2.2) else caption.2.2.plain false caption.1).2 := by
      split
      · exact hcaption
      · exact hcaption.plain _
    exact (htext.append _).read

theorem reference (h : Keeps tokens m) (htoken : tokens token) (isSubPage : Bool) :
    Traced tokens (m.reference token isSubPage) := by
  have hread := h.argument
  unfold Machine.reference
  generalize m.argument = read at hread
  obtain ⟨_ | target, m'⟩ := read
  · exact (hread.report htoken _).read
  · have hfound := hread.quoted.resolve target
    dsimp only
    generalize m'.quoted.2.resolve target = found at hfound
    obtain ⟨_ | found, m''⟩ := found
    · exact ((((hfound.report htoken _).changeStyle ..).append _).changeStyle ..).read
    · refine Keeps.read (Keeps.append ?_ _)
      split
      · exact hfound.plain _
      · exact hfound

theorem link (h : Keeps tokens m) (htoken : tokens token) : Traced tokens (m.link token) := by
  have hread := h.argument
  unfold Machine.link
  generalize m.argument = read at hread
  obtain ⟨_ | target, m'⟩ := read
  · exact (hread.report htoken _).read
  · exact ((hread.resolve target).pushFor rfl htoken).read

theorem citation (h : Keeps tokens m) (htoken : tokens token) :
    Traced tokens (m.citation token) := by
  have hread := h.argument
  unfold Machine.citation
  generalize m.argument = read at hread
  obtain ⟨_ | label, m'⟩ := read
  · exact (hread.report htoken _).read
  · refine Keeps.read (Keeps.append ?_ _)
    split
    · exact hread
    · exact hread.report htoken _

theorem internalReference (h : Keeps tokens m) (htoken : tokens token) :
    Traced tokens (m.internalReference token) := by
  have hread := h.argument
  unfold Machine.internalReference
  generalize m.argument = read at hread
  obtain ⟨_ | target, m'⟩ := read
  · exact (hread.report htoken _).read
  · exact ((hread.quoted.plain _).append _).read

theorem copy (h : Keeps tokens m) (htoken : tokens token) (brief details : Bool) :
    Traced tokens (m.copy token brief details) := by
  have hread := h.argument
  unfold Machine.copy
  generalize m.argument = read at hread
  obtain ⟨_ | target, m'⟩ := read
  · exact (hread.report htoken _).read
  · exact (hread.append _).read

theorem anchor (h : Keeps tokens m) (htoken : tokens token) : Traced tokens (m.anchor token) := by
  have hread := h.argument
  unfold Machine.anchor
  generalize m.argument = read at hread
  obtain ⟨_ | name, m'⟩ := read
  · exact (hread.report htoken _).read
  · exact (hread.append _).read

theorem indexEntry (h : Keeps tokens m) : Traced tokens m.indexEntry := by
  unfold Machine.indexEntry
  dsimp only
  split
  · exact h.restOfLine.read
  · exact (h.restOfLine.append _).read

/-! ### Steps -/

theorem command (h : Keeps tokens m) (htoken : tokens token)
    (hread : ∀ other, Emits m (m.command token) other → tokens other) :
    Traced tokens (m.command token) := by
  have hentered : Keeps tokens (m.record (.entered token.value)) := h.record (by rintro _ ⟨⟩)
  have hback : Traced tokens ((m.record (.entered token.value)).closeParagraph (.handBack token)) :=
    hentered.closeParagraph (tokens_handBack htoken)
  have hunmatched : Traced tokens
      ((m.record (.entered token.value)).report token (.endWithoutStart token.value)).read :=
    (hentered.report htoken _).read
  unfold Machine.command at hread ⊢
  dsimp only at hread ⊢
  generalize Command.ofName token.value = meaning at hread
  cases meaning with
  | word style => exact hentered.styledWord htoken style hread
  | sect level => exact hback
  | simpleSection type => exact hentered.simpleSection htoken type
  | paramSection type => exact hentered.paramSection htoken type
  | xrefItem => exact hentered.xrefItem htoken
  | verbatim type ending => exact hentered.verbatim htoken type ending
  | inclusion type => exact hentered.inclusion htoken type
  | includeStep operator => exact hentered.includeStep htoken operator
  | diagramFile type => exact hentered.diagramFile htoken type
  | lineBreak => exact (hentered.append _).read
  | sourceBreak => exact (hentered.append _).read
  | anchor => exact hentered.anchor htoken
  | indexEntry => exact hentered.indexEntry
  | listItem => exact hentered.simpleList htoken
  | internal => exact hentered.internal htoken
  | endInternal =>
      dsimp only
      split
      · exact hback
      · exact hunmatched
  | parBlock => exact (hentered.pushFor rfl htoken).read
  | endParBlock =>
      dsimp only
      split
      · exact hback
      · exact hunmatched
  | refList => exact (hentered.pushFor rfl htoken).readSolid
  | reference isSubPage => exact hentered.reference htoken isSubPage
  | link => exact hentered.link htoken
  | citation => exact hentered.citation htoken
  | internalReference => exact hentered.internalReference htoken
  | copy brief details => exact hentered.copy htoken brief details
  | image => exact hentered.image htoken
  | formula => exact hentered.formula htoken
  | ignored => exact hentered.read
  | unmatched => exact hunmatched
  | unknown => exact ((hentered.report htoken _).append _).read

theorem takeInParagraph (h : Keeps tokens m) (htoken : tokens token)
    (hread : ∀ other, Emits m (m.takeInParagraph token) other → tokens other) :
    Traced tokens (m.takeInParagraph token) := by
  unfold Machine.takeInParagraph at hread ⊢
  cases hkind : token.kind with
  | endOfText => exact h.closeParagraph tokens_endOfText
  | newParagraph => exact h.closeParagraph (tokens_newParagraph htoken)
  | whiteSpace =>
      dsimp only
      split
      · exact (h.append _).read
      · split
        · exact h.read
        · exact (h.append _).read
  | word => exact (h.addInWord token).read
  | symbol => exact (h.addInWord token).read
  | url => exact (h.addInWord token).read
  | listItem => exact h.listMarker htoken
  | endList =>
      dsimp only
      split
      · exact h.closeParagraph (tokens_handBack htoken)
      · exact (h.report htoken _).read
  | command =>
      rw [hkind] at hread
      exact h.command htoken hread
  | startTag => exact h.startTag htoken
  | endTag => exact h.endTag htoken
  | keyword => exact h.keyword htoken hkind
  | unknown => exact h.read

theorem openSection (h : Keeps tokens m) (htoken : tokens token) (level : Nat) :
    Traced tokens (m.openSection token level) := by
  have hread := h.argument
  unfold Machine.openSection
  generalize m.argument = read at hread
  obtain ⟨_ | label, m'⟩ := read
  · exact ((hread.report htoken _).pushPlain rfl).read
  · exact (hread.restOfLine.pushPlain rfl).read

theorem dispatch (h : Keeps tokens m) (htoken : tokens token)
    (hread : ∀ other, Emits m (m.dispatch token) other → tokens other) :
    Traced tokens (m.dispatch token) := by
  have hopened : Traced tokens (m.openParagraph.take token) := h.openParagraph.take htoken
  unfold Machine.dispatch at hread ⊢
  cases hstack : m.stack with
  | nil => exact (h.congr hstack.symm rfl : Keeps tokens { m with stack := [] }).finished
  | cons frame outer =>
      have hopener := h.opener frame (hstack ▸ List.mem_cons_self)
      rw [hstack] at hread
      dsimp only at hread ⊢
      cases hconstruct : frame.construct <;> rw [hconstruct] at hread hopener <;>
        dsimp only at hread ⊢
      case root =>
        split
        · exact (h.reportIf _ htoken _).openSection htoken _
        · exact hopened
      case sect =>
        split
        · split
          · exact h.close (tokens_handBack htoken)
          · exact h.openSection htoken _
        · exact hopened
      case paragraph => exact h.takeInParagraph htoken hread
      case refList => exact h.takeInRefList (hopener _ rfl) htoken
      case list => exact h.takeInList (hopener _ rfl) htoken
      case descList => exact h.takeInDescList (hopener _ rfl) htoken
      case table => exact h.takeInTable _ (hopener _ rfl) htoken
      case row => exact h.takeInRow htoken
      case descTitle => exact h.takeInline htoken _ hread
      case caption => exact h.takeInline htoken _ hread
      case header => exact h.takeInline htoken _ hread
      case hyperlink => exact h.takeInline htoken _ hread
      case link => exact h.takeInline htoken _ hread
      all_goals exact hopened

theorem sectionPartEnded (h : Keeps tokens m)
    (houtcome : ∀ token, outcome.token? = some token → tokens token)
    (unexpected : Text → Problem) : Traced tokens (m.sectionPartEnded outcome unexpected) := by
  unfold Machine.sectionPartEnded
  split
  · split
    · exact h.take (houtcome _ rfl)
    · exact (h.report (houtcome _ rfl) _).read
  · exact h.read

theorem blockParagraphEnded (h : Keeps tokens m)
    (houtcome : ∀ token, outcome.token? = some token → tokens token) (isEnd : Token → Bool) :
    Traced tokens (m.blockParagraphEnded outcome isEnd) := by
  unfold Machine.blockParagraphEnded
  split
  · exact h.read
  · split
    · exact h.close tokens_complete
    · exact h.close houtcome
  · exact h.close houtcome

theorem resume (h : Keeps tokens m)
    (houtcome : ∀ token, outcome.token? = some token → tokens token) :
    Traced tokens (m.resume outcome) := by
  unfold Machine.resume
  cases hstack : m.stack with
  | nil => exact (h.congr hstack.symm rfl : Keeps tokens { m with stack := [] }).finished
  | cons frame outer =>
      have hopener := h.opener frame (hstack ▸ List.mem_cons_self)
      dsimp only
      cases hconstruct : frame.construct <;> rw [hconstruct] at hopener <;> dsimp only
      case root =>
        split
        · exact (h.congr hstack.symm rfl : Keeps tokens { m with stack := frame :: outer }).finished
        · exact h.sectionPartEnded houtcome _
      case sect =>
        split
        · exact h.close houtcome
        · exact h.sectionPartEnded houtcome _
      case paragraph =>
        split
        · exact h.read
        · exact h.take (houtcome _ rfl)
        · exact h.closeParagraph houtcome
      case autoListItem =>
        split
        · split
          · exact h.read
          · exact h.close houtcome
        · exact h.close houtcome
      case autoList => exact h.itemEnded _ _ houtcome
      case simpleList =>
        split
        · split
          · exact (h.pushPlain rfl).read
          · exact h.close houtcome
        · exact h.close houtcome
      case internal => exact h.blockParagraphEnded houtcome _
      case parBlock =>
        exact (h.reportIf _ (hopener _ rfl) _).blockParagraphEnded houtcome _
      case listItem => exact h.blockParagraphEnded houtcome _
      case descData => exact h.blockParagraphEnded houtcome _
      case blockQuote =>
        exact (h.reportIf _ (hopener _ rfl) _).blockParagraphEnded houtcome _
      case cell =>
        split
        · exact h.read
        · split
          · exact h.read
          · exact h.close houtcome
        · exact h.close houtcome
      case list => exact h.partEnded (hopener _ rfl) houtcome
      case descList => exact h.partEnded (hopener _ rfl) houtcome
      case table => exact h.partEnded (hopener _ rfl) houtcome
      case row => exact h.cellEnded houtcome
      all_goals exact h.close houtcome

end

end Keeps

/-- One step. -/
theorem Traced.step (h : Traced tokens m) (hread : ∀ other, Emits m m.step other → tokens other) :
    Traced tokens m.step := by
  unfold Machine.step at hread ⊢
  cases hphase : m.phase with
  | read =>
      rw [hphase] at hread
      exact h.toKeeps.next.take (hread _ (m.emits_next.congr rfl))
  | readSolid =>
      rw [hphase] at hread
      dsimp only at hread ⊢
      split at hread
      · next hblank =>
        rw [if_pos hblank]
        exact h.toKeeps.next.readSolid
      · next hsolid =>
        rw [if_neg hsolid]
        exact h.toKeeps.next.take (hread _ (m.emits_next.congr rfl))
  | readWord style =>
      rw [hphase] at hread
      exact h.toKeeps.continueWord style hread
  | take token =>
      rw [hphase] at hread
      exact h.toKeeps.dispatch (h.inHand token (by rw [hphase]; rfl)) hread
  | ended outcome =>
      exact h.toKeeps.resume fun token htoken => h.inHand token (by rw [hphase]; exact htoken)
  | finished => exact h

end DocMarkup.Parser.Machine
