import DocMarkup.Proofs.Parser.Paragraph

/-!
Text within a line: words, styles, and the constructs that hold nothing else.
-/

namespace DocMarkup.Parser

/-- Constructs that hold text within a line and no blocks. -/
def holdsText : Kind → Bool
  | .link | .header | .hyperlink | .caption | .descTitle => true
  | _ => false

namespace Machine

variable {m m' : Machine} {ends : Outcome → Prop}

theorem listsText_of_holdsText (h : holdsText m.innermost) : m.ListsText := by
  intro kind hkind
  generalize m.innermost = innermost at h
  cases innermost <;> first | exact hkind | cases h

theorem isFilled_of_holdsText (h : holdsText m.innermost) : m.innermost.isFilled = false := by
  generalize m.innermost = innermost at h
  cases innermost <;> first | rfl | cases h

theorem InParagraph.listsText (hm : m.InParagraph) : m.ListsText := by
  intro kind hkind
  refine hm.lists ?_
  cases kind <;> first | rfl | cases hkind

/-! ### Words -/

namespace Fills

theorem appendText (h : Fills m m') (hm : m.ListsText) (content : Content) (flags : NodeFlags)
    (hwhole : isWhole content) (hkind : content.kind.isInline) (hflags : flags.synthetic = false) :
    Fills m (m'.append (.node content flags [] [] [])) :=
  h.append (.leaf content flags hwhole hflags) (hm _ hkind)

theorem appendWord (h : Fills m m') (hm : m.ListsText) {n : Node} (hn : IsWord n) :
    Fills m (m'.append n) := by
  cases hn with
  | word word flags hflags => exact h.appendText hm _ flags rfl rfl hflags
  | linkedWord word => exact h.appendText hm _ {} rfl rfl rfl

theorem addWord (h : Fills m m') (hm : m.ListsText) (word : Text) : Fills m (m'.addWord word) :=
  addWord_induction (fun target h => h.reads (readsOn_resolve _ target))
    (fun hn h => h.appendWord hm hn) h word

theorem addInWord (h : Fills m m') (hm : m.ListsText) {token : Token} (htoken : token.IsKnown) :
    Fills m (m'.addInWord token) := by
  unfold Machine.addInWord
  split
  · exact h.addWord hm token.value
  · next hkind => exact h.appendText hm _ {} (htoken hkind) rfl rfl
  · exact h.appendText hm _ {} rfl rfl rfl

end Fills

/-- The styles of words are styles within a line. -/
theorem isInlineStyle_of_ofName {name : Text} {style : Style}
    (h : Command.ofName name = .word style) : isInlineStyle style := by
  have htable : Command.actions.all fun entry =>
      match entry.2 with
      | .word style => isInlineStyle style
      | _ => true := by
    decide
  unfold Command.ofName Command.lookup at h
  split at h
  · cases h
  · cases h
  · next command hcommand _ _ =>
    obtain rfl : command = .word style := h
    obtain ⟨entry, hentry, heq⟩ := Option.map_eq_some_iff.1 hcommand
    have hstyle := List.all_eq_true.1 htable entry (List.mem_of_find?_eq_some hentry)
    rwa [heq] at hstyle
  · split at h <;> cases h

/-- A styled word goes on until the first token that cannot be part of it. -/
theorem styledWord_goes (hm : m.ListsText) (hfilled : m.innermost.isFilled = false) (token : Token)
    {style : Style} (hstyle : isInlineStyle style) : Goes m ends (m.styledWord token style) := by
  have hskip := readsOn_scanner m m.scanner.advances_skipHorizontalSpace
  unfold styledWord
  dsimp only
  generalize ({ m with scanner := m.scanner.skipHorizontalSpace } : Machine) = m' at hskip ⊢
  have hnext := scanned_next m'
  have hfills := (hskip.trans (readsOn_next m')).fills
  split
  · have hword := ((hfills.changeStyle (hm _ rfl) style (.inr hstyle) true token.start []).addInWord
      hm hnext.isKnown)
    refine .reads (hword.phase _) hfilled rfl fun style' heq => ?_
    cases heq
    exact ⟨hm, hstyle⟩
  · refine .scans m'.next.1 ((hfills.reads (readsOn_report _ _ _ rfl)).phase _) hfilled rfl
      ⟨?_, hnext.isKnown, hnext.isLast⟩
    rw [← hskip.scanner.text]
    exact hnext.progress.imp_right fun h => ⟨h.1, hskip.scanner.offset.trans_lt h.2⟩

/-! ### Styles -/

theorem styleStart_goes (hm : m.InParagraph) (token : Token) (style : Style) :
    Goes m ends (m.styleStart token style) := by
  have hstart := hm.changeStyle (.refl m) style true token.start token.attributes
  unfold styleStart
  dsimp only
  split
  · exact hm.read (hm.changeStyle hstart ..)
  · exact hm.read (hstart.enterStyle _)

theorem styleEnd_goes (hm : m.InParagraph) (token : Token) (style : Style) :
    Goes m ends (m.styleEnd token style) := by
  unfold styleEnd
  split
  · have hchange : Fills m ((if m.leaveStyle.insidePre && style != .preformatted then m.leaveStyle
        else m.leaveStyle.setChildren (dropTrailingSpace m.leaveStyle.children)).changeStyle style
          false token.start []) := by
      split
      · exact (Fills.refl m).endStyle hm.kind style token.start
      · rw [trim_leaveStyle]
        exact (Fills.refl m).trim.endStyle hm.kind style token.start
    refine hm.read ?_
    split
    · exact hchange.setInsidePre false
    · exact hchange
  · dsimp only
    split <;> exact hm.read (readsOn_report _ _ _ rfl).fills

/-! ### Constructs of text -/

theorem append_eq {frame : Frame} {outer : List Frame} (h : m.stack = frame :: outer) (n : Node) :
    m.append n = { m with stack := { frame with children := n :: frame.children } :: outer } := by
  unfold append modifyTop
  rw [h]

theorem appendAll_eq {frame : Frame} {outer : List Frame} (h : m.stack = frame :: outer)
    (nodes : List Node) :
    m.appendAll nodes =
      { m with stack := { frame with children := nodes.reverse ++ frame.children } :: outer } := by
  induction nodes generalizing m frame with
  | nil =>
      rw [List.reverse_nil, List.nil_append, ← h]
      rfl
  | cons n rest ih =>
      show (m.append n).appendAll rest = _
      rw [append_eq h, ih rfl, List.reverse_cons, List.append_assoc]
      rfl

/-- White space at the end of a text is dropped. -/
theorem stack_trim (m : Machine) :
    (m.setChildren (dropTrailingSpace m.children)).stack =
      m.stack.modifyHead fun f => { f with children := dropTrailingSpace f.children } := by
  unfold setChildren modifyTop children
  cases hstack : m.stack with
  | nil => exact hstack
  | cons frame outer => rfl

/-- Words are added to the innermost construct, or nothing is. -/
def AddsWords (m m' : Machine) : Prop :=
  ∃ words : List Node, (∀ n ∈ words, n.kind = .word) ∧
    m'.stack = m.stack.modifyHead fun f => { f with children := words ++ f.children }

theorem ReadsOn.addsWords (h : ReadsOn m m') : AddsWords m m' := by
  refine ⟨[], List.forall_mem_nil _, ?_⟩
  rw [h.stack]
  cases m.stack <;> rfl

theorem addsWords_append (m : Machine) (word : Text) :
    AddsWords m (m.append (.leaf (.word word))) := by
  refine ⟨[.leaf (.word word)], List.forall_mem_singleton.2 rfl, ?_⟩
  unfold append modifyTop
  cases hstack : m.stack with
  | nil => exact hstack
  | cons frame outer => rfl

theorem AddsWords.reads (h : AddsWords m m') {m'' : Machine} (h' : ReadsOn m' m'') :
    AddsWords m m'' := by
  obtain ⟨words, hwords, hstack⟩ := h
  exact ⟨words, hwords, h'.stack.trans hstack⟩

theorem AddsWords.readsBefore {m₀ : Machine} (h : AddsWords m m') (h₀ : ReadsOn m₀ m) :
    AddsWords m₀ m' := by
  obtain ⟨words, hwords, hstack⟩ := h
  exact ⟨words, hwords, h₀.stack ▸ hstack⟩

/-- Only a paragraph holds links. -/
theorem exists_around_link (hm : Stacked m.stack) (hkind : m.innermost = .link) :
    ∃ inner outer rest, m.stack = inner :: outer :: rest ∧ inner.construct.kind = .link ∧
      outer.construct.kind = .paragraph := by
  obtain ⟨inner, outer, rest, hstack, hinner, -, hholds, -⟩ :=
    exists_around hm (by rw [hkind]; rintro ⟨⟩)
  rw [hkind] at hinner hholds
  refine ⟨inner, outer, rest, hstack, hinner, ?_⟩
  revert hholds
  cases outer.construct.kind <;> simp [mayHold, Kind.lists, Kind.isInline, Kind.isPlain]

/-- A link without a target leaves its text in the paragraph. -/
theorem exists_closeLink (hm : Stacked m.stack) (hkind : m.innermost = .link) (link : Link)
    (resolved : Bool) (opener : Token) (outcome : Outcome) :
    ∃ m₁, Fills m m₁ ∧ AddsWords m m₁ ∧ Leaves m₁ (m.closeLink link resolved opener outcome) ∧
      (m.closeLink link resolved opener outcome).phase = .ended outcome := by
  have hreport := readsOn_ite' (outcome == .complete)
    (readsOn_report m opener (.unterminatedLink link.target) rfl)
  unfold closeLink
  dsimp only
  generalize (if outcome == .complete then m else _ : Machine) = m₁ at hreport ⊢
  have hword : Fills m (if m₁.children.isEmpty then m₁.append (.leaf (.word link.target))
      else m₁) := by
    split
    · exact hreport.fills.leaf rfl (by rw [hkind]; rfl)
    · exact hreport.fills
  have hadds : AddsWords m (if m₁.children.isEmpty then m₁.append (.leaf (.word link.target))
      else m₁) := by
    split
    · exact (addsWords_append m₁ link.target).readsBefore hreport
    · exact hreport.addsWords
  generalize (if m₁.children.isEmpty then _ else _ : Machine) = m₂ at hword hadds ⊢
  split
  · have hkind₂ := hword.innermost.trans hkind
    exact ⟨m₂, hword, hadds, leaves_close (hword.stacked hm) (by rw [hkind₂]; rintro ⟨⟩)
      (by rw [hkind₂]; rintro ⟨⟩) (by rw [hkind₂]; rintro ⟨⟩) outcome,
      phase_close (hword.stacked hm) outcome⟩
  · have hreported := readsOn_report m₂ opener (.unresolvedLink link.target) rfl
    have hunresolved := hword.reads hreported
    replace hadds := hadds.reads hreported
    clear hreported
    generalize m₂.report opener (.unresolvedLink link.target) = m₃ at hunresolved hadds ⊢
    obtain ⟨inner, outer, rest, hstack, hinner, houter⟩ :=
      exists_around_link (hunresolved.stacked hm) (hunresolved.innermost.trans hkind)
    have hpop : m₃.pop.stack = outer :: rest := by
      unfold pop
      rw [hstack]
      rfl
    refine ⟨m₃, hunresolved, hadds, ?_, rfl⟩
    unfold changeStyle children
    rw [hstack, append_eq hpop, appendAll_eq rfl, append_eq rfl]
    refine ⟨rfl, rfl, le_rfl, rfl, .refl _ _, ?_⟩
    rw [hstack]
    dsimp only [ended, List.head?_cons, Option.map_some, Option.getD_some]
    rw [List.reverse_reverse]
    exact .intro inner outer _ rest (.text _ _ hinner houter)

theorem leaves_closeCaption (hm : Stacked m.stack) {frame : Frame} {outer : List Frame}
    (hstack : m.stack = frame :: outer) (hkind : frame.construct.kind = .caption) (kept : Bool)
    (outcome : Outcome) : Leaves m (m.closeCaption frame kept outcome) := by
  rw [hstack] at hm
  cases hm with
  | root _ hroot =>
      rw [hkind] at hroot
      cases hroot
  | cons _ table rest hmade hholds hrest =>
      have hpop : m.pop.stack = table :: rest := by
        unfold pop
        rw [hstack]
        rfl
      unfold closeCaption
      dsimp only
      split
      · refine ⟨rfl, rfl, le_rfl, rfl, .refl _ _, ?_⟩
        rw [hstack]
        exact hpop ▸ .intro frame table table rest (.secondCaption hkind)
      · unfold modifyTop
        rw [hpop]
        refine ⟨rfl, rfl, le_rfl, rfl, .refl _ _, ?_⟩
        rw [hstack]
        refine .intro frame table _ rest ?_
        dsimp only
        split
        · next attributes caption opener htable =>
          exact .caption attributes caption opener hkind htable
        · exact .secondCaption hkind

/-- Before a construct of text ends, white space at its end is dropped and words may be added. -/
theorem exists_closeInline (hm : Stacked m.stack) (hkind : holdsText m.innermost)
    (outcome : Outcome) :
    ∃ m₁, Fills m m₁ ∧ AddsWords (m.setChildren (dropTrailingSpace m.children)) m₁ ∧
      Leaves m₁ (m.closeInline outcome) ∧ (m.closeInline outcome).phase = .ended outcome := by
  have htrim := (Fills.refl m).trim
  unfold closeInline
  dsimp only
  generalize m.setChildren (dropTrailingSpace m.children) = m' at htrim ⊢
  have hm' := htrim.stacked hm
  have hkind' : holdsText m'.innermost := htrim.innermost ▸ hkind
  have hclose : ∀ m'', ReadsOn m' m'' → m'.innermost ≠ .caption →
      ∃ m₁, Fills m m₁ ∧ AddsWords m' m₁ ∧ Leaves m₁ (m''.close outcome) ∧
        (m''.close outcome).phase = .ended outcome := by
    intro m'' h hcaption
    have hother {kind : Kind} (hkind : holdsText kind = false) : m''.innermost ≠ kind := by
      rw [h.fills.innermost]
      rintro rfl
      exact absurd hkind' (Bool.eq_false_iff.1 hkind)
    rw [← h.fills.innermost] at hcaption
    have hm'' := h.fills.stacked hm'
    exact ⟨m'', htrim.reads h, h.addsWords,
      leaves_close hm'' (hother rfl) hcaption (hother rfl) outcome, phase_close hm'' outcome⟩
  split
  · next hstack =>
    rw [hstack] at hm'
    cases hm'
  · next frame outer hstack =>
    have hframe : m'.innermost = frame.construct.kind := innermost_eq hstack
    split
    · next link resolved opener hlink =>
      rw [hlink] at hframe
      obtain ⟨m₁, hfills, hadds, hleaves, hphase⟩ :=
        exists_closeLink hm' hframe link resolved opener outcome
      exact ⟨m₁, htrim.trans hfills, hadds, hleaves, hphase⟩
    · next header opener hheader =>
      rw [hheader] at hframe
      unfold closeHeader
      refine hclose _ ?_ (by rw [hframe]; rintro ⟨⟩)
      split
      · exact .refl m'
      · exact readsOn_report _ _ _ rfl
      · exact readsOn_report _ _ _ rfl
    · next link opener hlink =>
      rw [hlink] at hframe
      exact hclose _ (readsOn_ite _ (readsOn_report _ _ _ rfl)) (by rw [hframe]; rintro ⟨⟩)
    · next attributes kept hcaption =>
      have hleaves := leaves_closeCaption hm' hstack (by rw [hcaption]; rfl) kept outcome
      exact ⟨m', htrim, (ReadsOn.refl m').addsWords, hleaves, rfl⟩
    · next hlink hheader hhyperlink hcaption =>
      refine hclose _ (.refl m') ?_
      rw [hframe]
      intro hkind
      cases hconstruct : frame.construct with
      | caption attributes kept => exact hcaption attributes kept hconstruct
      | _ =>
          rw [hconstruct] at hkind
          cases hkind

theorem closeInline_goes (hm : Stacked m.stack) (hkind : holdsText m.innermost)
    {outcome : Outcome} (hends : ends outcome) : Goes m ends (m.closeInline outcome) := by
  obtain ⟨m₁, hfills, -, hleaves, hphase⟩ := exists_closeInline hm hkind outcome
  refine .leaves outcome hfills hleaves hphase hends fun hrow => ?_
  rw [hrow] at hkind
  cases hkind

/-- The tag of a style, a line break or any other tag in a construct of text. -/
theorem inlineTag_goes (hkind : holdsText m.innermost) {token : Token}
    (hbreak : Goes m (endsWith token) (m.append (.leaf .lineBreak)).read)
    (hback : Goes m (endsWith token) (m.closeInline (.handBack token))) (style? : Option Style) :
    Goes m (endsWith token)
      (match style?.filter isInlineStyle with
        | some style =>
          (m.changeStyle style (token.kind == .startTag) token.start token.attributes).read
        | none =>
          if token.isStartTag ["br"] then (m.append (.leaf .lineBreak)).read
          else m.closeInline (.handBack token)) := by
  cases hfound : style?.filter isInlineStyle with
  | none =>
      dsimp only
      split
      · exact hbreak
      · exact hback
  | some style =>
      obtain ⟨-, hstyle⟩ := Option.filter_eq_some_iff.1 hfound
      exact .read ((Fills.refl m).changeStyle (listsText_of_holdsText hkind _ rfl) style
        (.inr hstyle) ..) (isFilled_of_holdsText hkind)

theorem takeInline_goes (hm : Stacked m.stack) (hkind : holdsText m.innermost)
    (construct : Construct) {token : Token} (htoken : token.IsKnown)
    (hend : token.kind ≠ .endOfText) : Goes m (endsWith token) (m.takeInline construct token) := by
  have htext := listsText_of_holdsText hkind
  have hfilled := isFilled_of_holdsText hkind
  have hback : Goes m (endsWith token) (m.closeInline (.handBack token)) :=
    closeInline_goes hm hkind (.inr (.inr rfl))
  have hbreak : Goes m (endsWith token) (m.append (.leaf .lineBreak)).read :=
    .read ((Fills.refl m).appendText htext _ {} rfl rfl rfl) hfilled
  unfold takeInline
  split
  · exact closeInline_goes hm hkind (.inl rfl)
  · split
    · exact absurd ‹_› hend
    · exact closeInline_goes hm hkind (.inr (.inl rfl))
    · exact .read ((Fills.refl m).addInWord htext htoken) hfilled
    · exact .read ((Fills.refl m).addInWord htext htoken) hfilled
    · exact .read ((Fills.refl m).addInWord htext htoken) hfilled
    · refine .read ?_ hfilled
      split
      · exact .refl m
      · exact (Fills.refl m).appendText htext _ {} rfl rfl rfl
    · exact inlineTag_goes hkind hbreak hback _
    · exact inlineTag_goes hkind hbreak hback _
    · split
      · next hstyle => exact styledWord_goes htext hfilled token (isInlineStyle_of_ofName hstyle)
      · exact hbreak
      · exact hback
    · exact hback

/-- At the end of the text a construct of text ends. -/
theorem takeInline_endOfText (construct : Construct) {token : Token}
    (htoken : token.kind = .endOfText) :
    m.takeInline construct token = m.closeInline .endOfText := by
  have hends : endsInline construct token = false := by
    cases construct <;> simp [endsInline, Token.isCommand, Token.isEndTag, htoken]
  unfold takeInline
  rw [hends, htoken]
  rfl

end Machine

end DocMarkup.Parser
