import DocMarkup.Proofs.Parser.Block
import DocMarkup.Proofs.Parser.Markup
import DocMarkup.Proofs.Parser.Resource

/-!
Every step is a turn.
-/

namespace DocMarkup.Parser.Machine

variable {m m' : Machine} {ends : Outcome → Prop}

/-! ### Tokens in a paragraph -/

theorem command_goes (hm : m.InParagraph) (token : Token) :
    Goes m (endsWith token) (m.command token) := by
  have hentered := readsOn_record m (.entered token.value) rfl nofun
  have hm' := hm.fills hentered.fills
  suffices h : Goes (m.record (.entered token.value)) (endsWith token) (m.command token) from
    h.after hentered.fills
  unfold command
  dsimp only
  generalize m.record (.entered token.value) = m' at hm' ⊢
  split
  · next hstyle =>
    exact styledWord_goes hm'.listsText (by rw [hm'.kind]; rfl) token
      (isInlineStyle_of_ofName hstyle)
  · exact hm'.closes (.refl m') (.inr (.inr rfl))
  · exact simpleSection_goes hm' token _
  · exact paramSection_goes hm' token _
  · exact xrefItem_goes hm' token
  · exact (verbatim_adds m' token _ _).goes hm'
  · exact (inclusion_adds m' token _).goes hm'
  · exact (includeStep_adds m' token _).goes hm'
  · exact (diagramFile_adds m' token _).goes hm'
  · exact hm'.leaf (.refl m') rfl rfl
  · exact hm'.leaf (.refl m') rfl rfl
  · exact (anchor_adds m' token).goes hm'
  · exact (indexEntry_adds m').goes hm'
  · exact simpleList_goes hm' token
  · exact internal_goes hm' token
  · split
    · exact hm'.closes (.refl m') (.inr (.inr rfl))
    · exact hm'.read (readsOn_report _ _ _ rfl).fills
  · exact hm'.opens (.refl m') (by trivial) rfl rfl (by rintro ⟨⟩) rfl
  · split
    · exact hm'.closes (.refl m') (.inr (.inr rfl))
    · exact hm'.read (readsOn_report _ _ _ rfl).fills
  · exact hm'.opens (.refl m') (by trivial) rfl rfl (by rintro ⟨⟩) rfl
  · exact (reference_adds m' token _).goes hm'
  · exact link_goes hm' token
  · exact (citation_adds m' token).goes hm'
  · exact (internalReference_adds m' token).goes hm'
  · exact (copy_adds m' token _ _).goes hm'
  · exact (image_adds m' token).goes hm'
  · exact (formula_adds m' token).goes hm'
  · exact hm'.read (.refl m')
  · exact hm'.read (readsOn_report _ _ _ rfl).fills
  · exact hm'.leaf (readsOn_report _ _ _ rfl).fills rfl rfl

theorem takeInParagraph_goes (hm : m.InParagraph) {token : Token} (htoken : token.IsKnown)
    (hend : token.kind ≠ .endOfText) : Goes m (endsWith token) (m.takeInParagraph token) := by
  unfold takeInParagraph
  split
  · exact absurd ‹_› hend
  · exact hm.closes (.refl m) (.inr (.inl rfl))
  · dsimp only
    split
    · exact hm.read ((Fills.refl m).append (.leaf _ _ rfl rfl) (hm.lists rfl))
    · split
      · exact hm.read (.refl m)
      · exact hm.leaf (.refl m) rfl rfl
  · exact hm.read ((Fills.refl m).addInWord hm.listsText htoken)
  · exact hm.read ((Fills.refl m).addInWord hm.listsText htoken)
  · exact hm.read ((Fills.refl m).addInWord hm.listsText htoken)
  · exact listMarker_goes hm ‹_›
  · split
    · exact hm.closes (.refl m) (.inr (.inr rfl))
    · exact hm.read (readsOn_report _ _ _ rfl).fills
  · exact command_goes hm token
  · exact startTag_goes hm token
  · exact endTag_goes hm token
  · exact keyword_goes hm token
  · exact hm.read (.refl m)

/-! ### Tokens -/

theorem openParagraph_turn (hm : m.Ready) {token : Token} (hphase : m.phase = .take token)
    (hkind : opensFor m.innermost token = some .paragraph) (hlists : m.innermost.lists .paragraph) :
    Turn m (m.openParagraph.take token) := by
  obtain ⟨m₁, hbegins, hfills, hparagraph⟩ := exists_openParagraph hm.stacked hlists
  refine .opensFor token hphase (.refl m) hbegins (hfills.phase _) rfl (hkind.trans ?_)
  exact congrArg some (hfills.innermost.trans hparagraph).symm

/-- The innermost construct ends with the text. -/
theorem close_turn (hm : m.Ready) (hphase : m.phase.isClosing) (h : Fills m m')
    (hroot : m.innermost ≠ .root) (hcaption : m.innermost ≠ .caption)
    (hparagraph : m.innermost ≠ .paragraph) : Turn m (m'.close .endOfText) := by
  rw [← h.innermost] at hroot hcaption hparagraph
  have hm' := h.stacked hm.stacked
  exact .closes hphase h (leaves_close hm' hroot hcaption hparagraph _) (phase_close hm' _)

theorem openSection_turn (hm : m.Ready) {token : Token} (hphase : m.phase = .take token)
    (htoken : token.kind ≠ .endOfText) (h : ReadsOn m m') (hkind : mayHold m.innermost .sect)
    (level : Nat) : Turn m (m'.openSection token level) := by
  have hlabel := h.trans (readsOn_argument m')
  unfold openSection
  dsimp only
  generalize m'.argument = label at hlabel ⊢
  have htitle := hlabel.trans
    (readsOn_iteArgument label.1.isSome [] (readsOn_restOfLine label.2))
  generalize (if label.1.isSome then label.2.restOfLine else ([], label.2)) = title at htitle ⊢
  have hreport := (htitle.trans (readsOn_ite' label.1.isSome
    (readsOn_report _ token (.missingSectionLabel token.value) rfl))).fills
  refine .takes token hphase htoken (.opens hreport (begins_push (c := .sect _) trivial ?_
    (hreport.stacked hm.stacked) (by rintro ⟨⟩)) ((Fills.refl _).phase .read) rfl rfl rfl)
  rwa [hreport.innermost]

theorem takeInline_turn (hm : m.Ready) {token : Token} (hphase : m.phase = .take token)
    (hkind : holdsText m.innermost) (construct : Construct) :
    Turn m (m.takeInline construct token) := by
  by_cases htoken : token.kind = .endOfText
  · rw [takeInline_endOfText construct htoken]
    obtain ⟨m₁, hfills, -, hleaves, hphase'⟩ := exists_closeInline hm.stacked hkind .endOfText
    exact .closes (by simp [hphase, Phase.isClosing, htoken]) hfills hleaves hphase'
  · exact .takes token hphase htoken
      (takeInline_goes hm.stacked hkind construct (hm.isKnown token hphase) htoken)

theorem ne_endOfText_of_sectionLevel? {token : Token} {level : Nat}
    (h : sectionLevel? token = some level) : token.kind ≠ .endOfText := by
  intro htoken
  unfold sectionLevel? at h
  rw [htoken] at h
  cases h

/-- A construct made of parts takes a token, or ends with the text. -/
theorem part_turn (hm : m.Ready) {token : Token} (hphase : m.phase = .take token) {k : Kind}
    (hstructure : m.InStructure k)
    (htake : token.kind ≠ .endOfText → Goes m (endsWith token) m')
    (hend : token.kind = .endOfText → ∃ m₁, Fills m m₁ ∧ m' = m₁.close .endOfText) :
    Turn m m' := by
  by_cases htoken : token.kind = .endOfText
  · obtain ⟨m₁, hfills, rfl⟩ := hend htoken
    have hk := hstructure.holdsParts
    refine close_turn hm (by simp [hphase, Phase.isClosing, htoken]) hfills ?_ ?_ ?_
    all_goals
      rw [hstructure.kind]
      rintro rfl
      cases hk
  · exact .takes token hphase htoken (htake htoken)

theorem takeInParagraph_turn (hm : m.Ready) {token : Token} (hphase : m.phase = .take token)
    (hkind : m.innermost = .paragraph) : Turn m (m.takeInParagraph token) := by
  by_cases htoken : token.kind = .endOfText
  · obtain ⟨m₁, hfills, hleaves⟩ := exists_closeParagraph hm.stacked hkind .endOfText
    unfold takeInParagraph
    rw [htoken]
    exact .closes (by simp [hphase, Phase.isClosing, htoken]) hfills hleaves
      (phase_closeParagraph hm.stacked _)
  · exact .takes token hphase htoken
      (takeInParagraph_goes ⟨hm.stacked, hkind⟩ (hm.isKnown token hphase) htoken)

/-- A cell outside a row begins one; any other token goes to the table. -/
theorem takeInTable_turn (hm : m.Ready) {token : Token} (hphase : m.phase = .take token)
    (hkind : m.innermost = .table) (caption : Option Node) (opener : Token) :
    Turn m (m.takeInTable caption opener token) := by
  cases hcell : token.isStartTag ["td", "th"] with
  | true =>
      rw [takeInTable_cell caption opener hcell]
      have hreport := (readsOn_report m token
        (.expectedRow (units "<" ++ token.value ++ units ">")) rfl).fills
      refine .opensFor token hphase hreport (begins_push (c := .row []) trivial ?_
        (hreport.stacked hm.stacked) (by rintro ⟨⟩)) ((Fills.refl _).phase _) rfl ?_
      · rw [hreport.innermost, hkind]
        rfl
      · rw [hkind]
        exact if_pos hcell
  | false =>
      have htable : m.InStructure .table := ⟨hm.stacked, hkind, rfl⟩
      refine part_turn hm hphase htable
        (fun htoken => takeInTable_goes htable caption opener htoken hcell)
        fun htoken => ⟨m.reportUnclosed opener, (readsOn_report _ _ _ rfl).fills, ?_⟩
      simp [takeInTable, Token.isStartTag, Token.isEndTag, htoken, closeAtEnd]

/-- A construct begins another for a token, begins a section, takes the token, or ends with the
text. -/
theorem dispatch_turn (hm : m.Ready) {token : Token} (hphase : m.phase = .take token) :
    Turn m (m.dispatch token) := by
  have hfilled := hm.filled (by simp [hphase])
  unfold dispatch
  split
  · next hstack =>
    have hstacked := hm.stacked
    rw [hstack] at hstacked
    cases hstacked
  · next frame outer hstack =>
    have hframe : m.innermost = frame.construct.kind := innermost_eq hstack
    dsimp only
    cases hconstruct : frame.construct <;> rw [hconstruct] at hframe
    case root singleLine =>
      dsimp only
      split
      · next level hlevel =>
        have htoken := ne_endOfText_of_sectionLevel? hlevel
        have htop : m.isAtTop := by simp [isAtTop_eq, hframe, Construct.kind]
        exact openSection_turn hm hphase htoken
          (readsOn_ite _ (readsOn_sectionAtTopLevel htop token token.value))
          (by rw [hframe]; rfl) level
      · next hlevel =>
        refine openParagraph_turn hm hphase ?_ ?_ <;> rw [hframe]
        · simp [opensFor, Construct.kind, hlevel]
        · rfl
    case sect sect =>
      dsimp only
      split
      · next level hlevel =>
        have htoken := ne_endOfText_of_sectionLevel? hlevel
        split
        · exact .takes token hphase htoken (.close (.refl m) hm.stacked (by rw [hframe]; rintro ⟨⟩)
            (by rw [hframe]; rintro ⟨⟩) (by rw [hframe]; rintro ⟨⟩) (by rw [hframe]; rintro ⟨⟩)
            (.inr (.inr rfl)))
        · exact openSection_turn hm hphase htoken (.refl m) (by rw [hframe]; rfl) level
      · next hlevel =>
        refine openParagraph_turn hm hphase ?_ ?_ <;> rw [hframe]
        · simp [opensFor, Construct.kind, hlevel]
        · rfl
    case paragraph attributes styles => exact takeInParagraph_turn hm hphase hframe
    case refList opener =>
      refine part_turn hm hphase ⟨hm.stacked, hframe, rfl⟩
        (fun htoken => takeInRefList_goes hm.stacked hframe opener htoken) fun htoken =>
        ⟨m.report opener .unterminatedRefList, (readsOn_report _ _ _ rfl).fills, ?_⟩
      simp [takeInRefList, Token.isCommand, htoken]
    case list list next opener =>
      have hlist : m.InStructure .list := ⟨hm.stacked, hframe, rfl⟩
      refine part_turn hm hphase hlist (fun htoken => takeInList_goes hlist opener htoken)
        fun htoken => ⟨m.reportUnclosed opener, (readsOn_report _ _ _ rfl).fills, ?_⟩
      simp [takeInList, Token.isStartTag, Token.isEndTag, htoken, closeAtEnd]
    case descList attributes opener =>
      have hlist : m.InStructure .descList := ⟨hm.stacked, hframe, rfl⟩
      refine part_turn hm hphase hlist (fun htoken => takeInDescList_goes hlist opener htoken)
        fun htoken => ⟨m.reportUnclosed opener, (readsOn_report _ _ _ rfl).fills, ?_⟩
      simp [takeInDescList, Token.isStartTag, Token.isEndTag, htoken, closeAtEnd]
    case table attributes caption opener => exact takeInTable_turn hm hphase hframe caption opener
    case row attributes =>
      have hrow : m.InStructure .row := ⟨hm.stacked, hframe, rfl⟩
      refine part_turn hm hphase hrow (fun htoken => takeInRow_goes hrow htoken) fun htoken =>
        ⟨m, .refl m, ?_⟩
      simp [takeInRow, Token.isStartTag, Token.isEndTag, htoken]
    case descTitle attributes => exact takeInline_turn hm hphase (by rw [hframe]; rfl) _
    case caption attributes kept => exact takeInline_turn hm hphase (by rw [hframe]; rfl) _
    case header header opener => exact takeInline_turn hm hphase (by rw [hframe]; rfl) _
    case hyperlink link opener => exact takeInline_turn hm hphase (by rw [hframe]; rfl) _
    case link link resolved opener => exact takeInline_turn hm hphase (by rw [hframe]; rfl) _
    case paramSection | autoList | simpleList =>
      -- these are made of what ends in them and are never told of a token
      rw [hframe] at hfilled
      cases hfilled
    all_goals exact openParagraph_turn hm hphase (by rw [hframe]; rfl) (by rw [hframe]; rfl)

/-! ### Constructs that have ended -/

/-- Constructs that end as they are once what stands in them has ended. -/
def endsInTurn : Kind → Bool
  | .root | .caption | .paragraph | .row => false
  | _ => true

theorem ne_of_endsInTurn {kind : Kind} (h : endsInTurn kind) :
    kind ≠ .root ∧ kind ≠ .caption ∧ kind ≠ .paragraph ∧ kind ≠ .row := by
  refine ⟨?_, ?_, ?_, ?_⟩
  all_goals
    rintro rfl
    cases h

/-- The innermost construct ends in turn. -/
theorem close_resume (hm : m.Ready) {outcome : Outcome} (hphase : m.phase = .ended outcome)
    (h : Fills m m') (hkind : endsInTurn m.innermost) : Turn m (m'.close outcome) := by
  obtain ⟨hroot, hcaption, hparagraph, hrow⟩ := ne_of_endsInTurn hkind
  by_cases houtcome : outcome = .endOfText
  · subst houtcome
    exact close_turn hm (by simp [hphase, Phase.isClosing]) h hroot hcaption hparagraph
  · exact .resumes outcome hphase houtcome (.close h hm.stacked hroot hcaption hparagraph hrow
      (.inr rfl))

theorem blockParagraphEnded_turn (hm : m.Ready) {outcome : Outcome}
    (hphase : m.phase = .ended outcome) (h : Fills m m') (hfilled : m.innermost.isFilled = false)
    (hkind : endsInTurn m.innermost) (isEnd : Token → Bool) :
    Turn m (m'.blockParagraphEnded outcome isEnd) := by
  obtain ⟨hroot, hcaption, hparagraph, hrow⟩ := ne_of_endsInTurn hkind
  unfold blockParagraphEnded
  split
  · exact .resumes _ hphase (by simp) (.read h hfilled)
  · split
    · exact .resumes _ hphase (by simp)
        (.close h hm.stacked hroot hcaption hparagraph hrow (.inl rfl))
    · exact close_resume hm hphase h hkind
  · exact close_resume hm hphase h hkind

theorem sectionPartEnded_turn {outcome : Outcome} (hphase : m.phase = .ended outcome)
    (houtcome : outcome ≠ .endOfText) (hkind : m.innermost = .root ∨ m.innermost = .sect)
    {unexpected : Text → Problem} (hunexpected : ∀ t, (unexpected t).isFoundReading) :
    Turn m (m.sectionPartEnded outcome unexpected) := by
  have hfilled : m.innermost.isFilled = false := by
    rcases hkind with hkind | hkind <;> rw [hkind] <;> rfl
  unfold sectionPartEnded
  split
  · next token =>
    split
    · next hlevel =>
      refine .retakes token hphase ((Fills.refl m).phase _) rfl (.inr ⟨?_, hfilled⟩)
      rcases hkind with hkind | hkind <;> rw [hkind] <;> exact if_pos hlevel
    · exact .resumes _ hphase houtcome
        (.read (readsOn_report _ _ _ (hunexpected _)).fills hfilled)
  · exact .resumes _ hphase houtcome (.read (.refl m) hfilled)

theorem partEnded_turn (hm : m.Ready) {k : Kind} (hstructure : m.InStructure k) {outcome : Outcome}
    (hphase : m.phase = .ended outcome)
    (hkind : m.innermost = .table ∨ ∀ token, opensFor m.innermost token = none) (opener : Token) :
    Turn m (m.partEnded opener outcome) := by
  have hk := hstructure.holdsParts
  unfold partEnded
  split
  · have hclosing : m.phase.isClosing := by simp [hphase, Phase.isClosing]
    refine close_turn hm hclosing (readsOn_report _ _ _ rfl).fills ?_ ?_ ?_
    all_goals
      rw [hstructure.kind]
      rintro rfl
      cases hk
  · next token =>
    exact .retakes token hphase ((Fills.refl m).phase _) rfl
      (hkind.imp_right fun h => ⟨h token, hstructure.not_isFilled⟩)
  · next hend hback =>
    exact .resumes _ hphase hend (hstructure.readSolid (.refl m))

theorem mayHold_caption (c : Construct) : mayHold .caption c.kind = false := by
  cases c <;> rfl

/-- No paragraph is in a caption, so a caption is never gone on with. -/
theorem Ready.ne_caption (hm : m.Ready) {outcome : Outcome} (hphase : m.phase = .ended outcome) :
    m.innermost ≠ .caption := by
  obtain ⟨c, hc⟩ := hm.holding outcome hphase
  intro hcaption
  rw [hcaption, mayHold_caption] at hc
  cases hc

theorem cellEnded_turn (hm : m.Ready) {outcome : Outcome} (hphase : m.phase = .ended outcome)
    (hkind : m.innermost = .row) : Turn m (m.cellEnded outcome) := by
  have hrow : m.InStructure .row := ⟨hm.stacked, hkind, rfl⟩
  unfold cellEnded
  split
  · next token =>
    refine .retakes token hphase ((Fills.refl m).phase _) rfl (.inr ⟨?_, hrow.not_isFilled⟩)
    rw [hkind]
    rfl
  · exact close_turn hm (by simp [hphase, Phase.isClosing]) (.refl m) (by rw [hkind]; rintro ⟨⟩)
      (hm.ne_caption hphase) (by rw [hkind]; rintro ⟨⟩)
  · next hback hend => exact .resumes _ hphase hend (hrow.readSolid (.refl m))

/-- A construct goes on when one within it has ended, begins its next part, takes the token that
was handed back, or ends in turn. -/
theorem resume_turn (hm : m.Ready) {outcome : Outcome} (hphase : m.phase = .ended outcome) :
    Turn m (m.resume outcome) := by
  have hclose : endsInTurn m.innermost → Turn m (m.close outcome) :=
    close_resume hm hphase (.refl m)
  unfold resume
  split
  · next hstack =>
    have hstacked := hm.stacked
    rw [hstack] at hstacked
    cases hstacked
  · next frame outer hstack =>
    have hframe : m.innermost = frame.construct.kind := innermost_eq hstack
    cases hconstruct : frame.construct <;> rw [hconstruct] at hframe
    case root singleLine =>
      dsimp only
      split
      · next houtcome =>
        exact .finishes (hphase.trans (by simpa using houtcome)) hframe
      · next houtcome =>
        exact sectionPartEnded_turn hphase (by simpa using houtcome) (.inl hframe) fun _ => rfl
    case sect sect =>
      dsimp only
      split
      · exact hclose (by rw [hframe]; rfl)
      · next houtcome =>
        exact sectionPartEnded_turn hphase (by simpa using houtcome) (.inr hframe) fun _ => rfl
    case paragraph attributes styles =>
      have hparagraph : m.InParagraph := ⟨hm.stacked, hframe⟩
      dsimp only
      split
      · exact .resumes _ hphase (by simp) (hparagraph.read (.refl m))
      · next token =>
        refine .retakes token hphase ((Fills.refl m).phase _) rfl (.inr ⟨?_, ?_⟩) <;>
        · rw [hframe]
          rfl
      · by_cases houtcome : outcome = .endOfText
        · subst houtcome
          obtain ⟨m₁, hfills, hleaves⟩ := exists_closeParagraph hm.stacked hframe .endOfText
          exact .closes (by simp [hphase, Phase.isClosing]) hfills hleaves
            (phase_closeParagraph hm.stacked _)
        · exact .resumes _ hphase houtcome (hparagraph.closes (.refl m) (.inr rfl))
    case autoListItem item =>
      dsimp only
      split
      · split
        · exact .resumes _ hphase (by simp) (.read (.refl m) (by rw [hframe]; rfl))
        · exact hclose (by rw [hframe]; rfl)
      · exact hclose (by rw [hframe]; rfl)
    case autoList list next =>
      by_cases houtcome : outcome = .endOfText
      · subst houtcome
        have hend : Fills m { m with scanner := m.scanner.endList } :=
          ⟨rfl, rfl, le_rfl, rfl, .refl _ _, .refl _⟩
        exact close_resume hm hphase hend (by rw [hframe]; rfl)
      · exact .resumes _ hphase houtcome (itemEnded_goes hm.stacked hframe list next)
    case simpleList =>
      dsimp only
      split
      · split
        · refine .resumes _ hphase (by simp) (.opens (.refl m) (begins_push (c := .simpleListItem)
            trivial ?_ hm.stacked (by rintro ⟨⟩)) ((Fills.refl _).phase .read) rfl rfl rfl)
          rw [hframe]
          rfl
        · exact hclose (by rw [hframe]; rfl)
      · exact hclose (by rw [hframe]; rfl)
    case cell attributes isHeading =>
      dsimp only
      split
      · exact .resumes _ hphase (by simp) (.read (.refl m) (by rw [hframe]; rfl))
      · split
        · exact .resumes _ hphase (by simp) (.read (.refl m) (by rw [hframe]; rfl))
        · exact hclose (by rw [hframe]; rfl)
      · exact hclose (by rw [hframe]; rfl)
    case list list next opener =>
      exact partEnded_turn hm ⟨hm.stacked, hframe, rfl⟩ hphase
        (.inr (by rw [hframe]; exact fun _ => rfl)) opener
    case descList attributes opener =>
      exact partEnded_turn hm ⟨hm.stacked, hframe, rfl⟩ hphase
        (.inr (by rw [hframe]; exact fun _ => rfl)) opener
    case table attributes caption opener =>
      exact partEnded_turn hm ⟨hm.stacked, hframe, rfl⟩ hphase (.inl hframe) opener
    case row attributes => exact cellEnded_turn hm hphase hframe
    case internal | listItem | descData =>
      exact blockParagraphEnded_turn hm hphase (.refl m) (by rw [hframe]; rfl)
        (by rw [hframe]; rfl) _
    case parBlock | blockQuote =>
      exact blockParagraphEnded_turn hm hphase (readsOn_ite _ (readsOn_report _ _ _ rfl)).fills
        (by rw [hframe]; rfl) (by rw [hframe]; rfl) _
    case caption => exact absurd hframe (hm.ne_caption hphase)
    all_goals exact hclose (by rw [hframe]; rfl)

/-! ### Steps -/

theorem continueWord_turn (hphase : m.phase.isReading) (htext : m.ListsText) {style : Style}
    (hstyle : isInlineStyle style) : Turn m (m.continueWord style) := by
  have hnext := scanned_next m
  have hfills := (readsOn_next m).fills
  unfold continueWord
  dsimp only
  split
  · next hword =>
    have hadd := hfills.addInWord htext hnext.isKnown
    refine .reads hphase (hadd.phase _) rfl (fun style' heq => ?_) ?_
    · cases heq
      exact ⟨htext, hstyle⟩
    obtain ⟨hend, -⟩ | ⟨-, hprogress⟩ := hnext.progress
    · simp [Token.isInWord, hend] at hword
    · have hadd' := (Fills.refl m.next.2).addInWord (hfills.listsText.2 htext) hnext.isKnown
      exact hprogress.trans_le hadd'.offset
  · have hchange := hfills.changeStyle (htext _ rfl) style (.inr hstyle) false m.next.1.start []
    refine .scans m.next.1 hphase (hchange.phase _) rfl
      ⟨?_, hnext.isKnown, (congrArg Scanner.token (scanner_append ..)).trans hnext.isLast⟩
    simpa [take, changeStyle] using hnext.progress

theorem step_turn (hm : m.Ready) (hphase : m.phase ≠ .finished) : Turn m m.step := by
  have hnext := scanned_next m
  have hfills := (readsOn_next m).fills
  have hscans : m.phase.isReading → Turn m (m.next.2.take m.next.1) := fun hreading =>
    .scans m.next.1 hreading (hfills.phase _) rfl ⟨hnext.progress, hnext.isKnown, hnext.isLast⟩
  unfold step
  cases hphase' : m.phase with
  | read => exact hscans (by rw [hphase']; rfl)
  | readSolid =>
      dsimp only
      split
      · next hblank =>
        refine .reads (by rw [hphase']; rfl) (hfills.phase _) rfl (fun _ h => by cases h) ?_
        obtain ⟨hend, -⟩ | ⟨-, hprogress⟩ := hnext.progress
        · simp [Token.isBlank, hend] at hblank
        · exact hprogress
      · exact hscans (by rw [hphase']; rfl)
  | readWord style =>
      obtain ⟨htext, hstyle⟩ := hm.word style hphase'
      exact continueWord_turn (by rw [hphase']; rfl) htext hstyle
  | take token => exact dispatch_turn hm hphase'
  | ended outcome => exact resume_turn hm hphase'
  | finished => exact absurd hphase' hphase

end DocMarkup.Parser.Machine
