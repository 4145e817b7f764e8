import DocMarkup.Proofs.Parser.StyleSteps
import DocMarkup.Proofs.Parser.Step

/-!
What every step does to the spans of styles, handler by handler.
-/

namespace DocMarkup.Parser.Machine

variable {m m' : Machine}

/-! ### Raw text, files and references -/

theorem Notes.quiet (h : Notes m m') : Quiet m m' := by
  cases h with
  | intro h included items formulas => exact h.quiet.memory included items formulas

theorem kind_ne_styleChange {content : Content} (h : isWhole content) :
    content.kind ≠ .styleChange := by
  cases content <;> first
    | (cases h; done)
    | nofun

/-- A reference without a target becomes a word between two changes of style; all other nodes that
are added are quiet. -/
theorem Adds.styles (h : Adds m m') (hm : m.innermost = .paragraph) : StyleStep m m' .stays := by
  cases h with
  | nothing h => exact h.quiet.read
  | leaf h hwhole hkind =>
      exact h.quiet.leaf (beq_false_of_ne (kind_ne_styleChange hwhole))
  | titled h htext hcontent hkind =>
      refine h.quiet.branch (beq_false_of_ne fun hstyle => ?_)
      rw [hstyle] at hcontent
      cases hcontent
  | step h step hfirst hlast => exact (h.quiet.setChildren (styleMarks_continueRun _)).leaf rfl
  | @emphasized m₁ h position word =>
      obtain ⟨p, rest, hm⟩ := exists_within hm
      have hopen := (hm.reads h).changeStyle .italic true position []
      have hword := hopen.append (n := .leaf (.word word)) rfl
      have hspans := (hword.changeStyle .italic false position []).spans_eq
      simp only [reopening_changeStyle, insidePre_changeStyle, Machine.append, reopening_modifyTop,
        insidePre_modifyTop, h.reopening, h.insidePre] at hspans
      exact .brackets .italic hm hspans (by simp [Machine.read, Machine.append, h.begun])

theorem link_styles (m : Machine) (token : Token) : StyleStep m (m.link token) .stays := by
  have hargument := readsOn_argument m
  unfold link
  split
  · next m' heq =>
    rw [heq] at hargument
    exact (hargument.trans (readsOn_report _ _ _ rfl)).quiet.read
  · next target m' heq =>
    rw [heq] at hargument
    exact (hargument.trans (readsOn_resolve ..)).quiet.opens rfl rfl

/-! ### Blocks -/

theorem simpleSection_styles (hm : m.InParagraph) (token : Token) (type : SimpleSectionType) :
    StyleStep m (m.simpleSection token type) .stays := by
  unfold simpleSection
  split
  · exact hm.ends (.refl m) _
  · have htitle := readsOn_sectionTitle m type
    generalize m.sectionTitle type = title at htitle ⊢
    have hm' := hm.fills htitle.fills
    dsimp only
    split
    · next n hsame =>
      obtain ⟨parent, outer, hstack, -⟩ := hm'.exists_stack
      obtain ⟨before, hchildren, hn⟩ := exists_sectionBefore hstack hsame
      have hmark : n.styleMark? = none := Node.styleMark?_eq_none (by rw [Node.kind, hn]; rintro ⟨⟩)
      have htail : title.2.children.tail.filterMap Node.styleMark? =
          title.2.children.filterMap Node.styleMark? := by
        rw [children_eq hstack, hchildren, List.tail_cons, List.filterMap_cons_none hmark]
      have hopened := (htitle.quiet.setChildren htail).push
        (c := .simpleSection type n.heads) (by rintro ⟨⟩)
      exact (hopened.replaceChildren (by rintro ⟨⟩) _).read
    · exact htitle.quiet.opens rfl rfl

theorem keyword_styles (m : Machine) (token : Token) : StyleStep m (m.keyword token) .stays := by
  have htitle := readsOn_plain m true token.value
  have hbody := htitle.trans (readsOn_plain (m.plain true token.value).2 true token.text)
  exact (hbody.quiet.append rfl).read

theorem paramSection_styles (hm : m.InParagraph) (token : Token) (type : ParamSectionType) :
    StyleStep m (m.paramSection token type) .stays := by
  unfold paramSection
  split
  · exact hm.ends (.refl m) _
  · have hdirection := readsOn_direction m token type
    generalize m.direction token type = direction at hdirection ⊢
    obtain ⟨parent, outer, hstack, -⟩ := (hm.fills hdirection.fills).exists_stack
    have hlast : Quiet m (if (direction.2.parametersBefore? type).isSome then
        direction.2.setChildren direction.2.children.tail else direction.2) := by
      cases hprevious : direction.2.parametersBefore? type with
      | none => exact hdirection.quiet
      | some previous =>
          obtain ⟨before, hchildren, hn⟩ := exists_parametersBefore hstack hprevious
          refine hdirection.quiet.setChildren ?_
          rw [children_eq hstack, hchildren, List.tail_cons, List.filterMap_cons_none]
          exact Node.styleMark?_eq_none (by rw [Node.kind, hn]; rintro ⟨⟩)
    dsimp only at hlast ⊢
    generalize direction.2.parametersBefore? type = previous at hlast ⊢
    generalize (if previous.isSome then _ else direction.2 : Machine) = behind at hlast ⊢
    have hnames := hlast.reads (readsOn_names behind.scanner.cursor.ahead.length behind)
    generalize names behind.scanner.cursor.ahead.length behind = written at hnames ⊢
    have hreport := hnames.reads (readsOn_ite written.1.isEmpty
      (readsOn_report _ token (.missingParameterName token.value) rfl))
    generalize (if written.1.isEmpty then _ else written.2 : Machine) = reported at hreport ⊢
    have hfound := hreport.reads (readsOn_parameters type written.1 reported)
    generalize parameters type written.1 reported = found at hfound ⊢
    refine Quiet.opens (Quiet.replaceChildren (hfound.push ?_) ?_ _) rfl rfl <;> rintro ⟨⟩

theorem xrefItem_styles (hm : m.InParagraph) (token : Token) :
    StyleStep m (m.xrefItem token) .stays := by
  unfold xrefItem
  split
  · exact hm.ends (.refl m) _
  · exact ((readsOn_itemKey m token).quiet.memory _ _ _).opens rfl rfl

/-- The next item of an automatic list is begun. -/
theorem Quiet.openItem {m₀ : Machine} (h : Quiet m₀ m) (token : Token) :
    StyleStep m₀ (m.openItem token) .stays := by
  unfold Machine.openItem
  split
  · next frame outer hstack =>
    split
    · next list next hconstruct =>
      dsimp only
      have hitem : Quiet m { m with stack :=
          { frame with construct := .autoList list (token.number.getD next + 1) } :: outer } := by
        refine ⟨spans_top hstack ?_, le_rfl⟩
        rw [Frame.paragraph?, Frame.paragraph?, hconstruct]
      exact (h.trans hitem).opens rfl rfl
        (c := .autoListItem { indent := token.indent, number := token.number.getD next })
    · exact h.read
  · exact h.read

theorem listMarker_styles (hm : m.InParagraph) (token : Token) :
    StyleStep m (m.listMarker token) .stays := by
  unfold listMarker
  dsimp only
  split
  · exact ((Quiet.addWord (.refl m) token.value).append rfl).read
  · split
    · exact hm.ends (.refl m) _
    · generalize (List.countP _ _ : Nat) = depth
      have hlist := (Quiet.refl m).push (c := .autoList
        { indent := token.indent, isNumbered := token.flags.isNumbered, depth } 1) (by rintro ⟨⟩)
      exact (hlist.scanner m.scanner.startList rfl).openItem token

theorem simpleList_styles (hm : m.InParagraph) (token : Token) :
    StyleStep m (m.simpleList token) .stays := by
  unfold simpleList
  split
  · exact hm.ends (.refl m) _
  · exact ((Quiet.refl m).push (c := .simpleList) (by rintro ⟨⟩)).opens rfl rfl

theorem internal_styles (m : Machine) (token : Token) :
    StyleStep m (m.internal token) .stays := by
  unfold internal
  split
  · exact (readsOn_report _ _ _ rfl).quiet.read
  · exact (Quiet.refl m).opens rfl rfl

/-! ### Tags -/

theorem anchorTag_styles (m : Machine) (token : Token) :
    StyleStep m (m.anchorTag token) .stays := by
  unfold anchorTag
  dsimp only
  split
  · split
    · exact (Quiet.refl m).leaf rfl
    · exact (Quiet.refl m).opens rfl rfl
  · split
    · exact (Quiet.refl m).leaf rfl
    · exact (readsOn_report _ _ _ rfl).quiet.read

theorem imageTag_styles (m : Machine) (token : Token) :
    StyleStep m (m.imageTag token) .stays := by
  unfold imageTag
  dsimp only
  split
  · exact (readsOn_report _ _ _ rfl).quiet.read
  · exact (Quiet.refl m).leaf rfl

theorem paragraphTag_styles (hm : m.InParagraph) (token : Token) :
    StyleStep m (m.paragraphTag token) .stays := by
  unfold paragraphTag
  split
  · refine (Quiet.modifyTop (.refl m) fun frame => ?_).read
    split
    · next attributes styles hconstruct => rw [Frame.paragraph?, Frame.paragraph?, hconstruct]
    · rfl
  · exact hm.ends (.refl m) _

theorem startTag_styles (hm : m.InParagraph) {token : Token} (htoken : token.kind = .startTag) :
    StyleStep m (m.startTag token) (m.styleMoveOf token) := by
  unfold startTag
  cases hstyle : Command.tagStyle? token.value with
  | some style => exact styleStart_styles hm.kind htoken hstyle
  | none =>
      have hmove : m.styleMoveOf token = .stays := by
        unfold styleMoveOf
        rw [hstyle]
      rw [hmove]
      cases Command.headerLevel? token.value with
      | some level => exact (Quiet.refl m).opens rfl rfl
      | none =>
          dsimp only
          split
          · exact paragraphTag_styles hm token
          · exact (Quiet.refl m).leaf rfl
          · exact (Quiet.refl m).leaf rfl
          · exact (Quiet.refl m).opens rfl rfl
          · exact (Quiet.refl m).opens rfl rfl
          · exact (Quiet.refl m).opens rfl rfl
          · exact (Quiet.refl m).opens rfl rfl
          · exact anchorTag_styles m token
          · exact imageTag_styles m token
          · split
            · exact hm.ends (.refl m) _
            · exact (readsOn_report _ _ _ rfl).quiet.read
          · exact (readsOn_report _ _ _ rfl).quiet.read

theorem endTag_styles (hm : m.InParagraph) {token : Token} (htoken : token.kind = .endTag) :
    StyleStep m (m.endTag token) (m.styleMoveOf token) := by
  unfold endTag
  cases hstyle : Command.tagStyle? token.value with
  | some style => exact styleEnd_styles hm.kind htoken hstyle
  | none =>
      have hmove : m.styleMoveOf token = .stays := by
        unfold styleMoveOf
        rw [hstyle]
      rw [hmove]
      dsimp only
      split
      · exact (Quiet.refl m).read
      · split
        · exact hm.ends (.refl m) _
        · exact (readsOn_report _ _ _ rfl).quiet.read

/-! ### Tokens in a paragraph -/

theorem command_styles (hm : m.InParagraph) (token : Token) :
    StyleStep m (m.command token) .stays := by
  have hentered := readsOn_record m (.entered token.value) rfl nofun
  have hm' := hm.fills hentered.fills
  suffices h : StyleStep (m.record (.entered token.value)) (m.command token) .stays from
    h.after hentered
  unfold command
  dsimp only
  generalize m.record (.entered token.value) = m' at hm' ⊢
  have hquiet := Quiet.refl m'
  split
  · next hstyle => exact styledWord_styles hm'.listsText token (isInlineStyle_of_ofName hstyle)
  · exact hm'.ends (.refl m') _
  · exact simpleSection_styles hm' token _
  · exact paramSection_styles hm' token _
  · exact xrefItem_styles hm' token
  · exact (verbatim_adds m' token _ _).styles hm'.kind
  · exact (inclusion_adds m' token _).styles hm'.kind
  · exact (includeStep_adds m' token _).styles hm'.kind
  · exact (diagramFile_adds m' token _).styles hm'.kind
  · exact hquiet.leaf rfl
  · exact hquiet.leaf rfl
  · exact (anchor_adds m' token).styles hm'.kind
  · exact (indexEntry_adds m').styles hm'.kind
  · exact simpleList_styles hm' token
  · exact internal_styles m' token
  · split
    · exact hm'.ends (.refl m') _
    · exact (readsOn_report _ _ _ rfl).quiet.read
  · exact hquiet.opens rfl rfl
  · split
    · exact hm'.ends (.refl m') _
    · exact (readsOn_report _ _ _ rfl).quiet.read
  · exact hquiet.opens rfl rfl
  · exact (reference_adds m' token _).styles hm'.kind
  · exact link_styles m' token
  · exact (citation_adds m' token).styles hm'.kind
  · exact (internalReference_adds m' token).styles hm'.kind
  · exact (copy_adds m' token _ _).styles hm'.kind
  · exact (image_adds m' token).styles hm'.kind
  · exact (formula_adds m' token).styles hm'.kind
  · exact hquiet.read
  · exact (readsOn_report _ _ _ rfl).quiet.read
  · exact (readsOn_report _ _ _ rfl).quiet.leaf rfl

theorem takeInParagraph_styles (hm : m.InParagraph) (token : Token) :
    StyleStep m (m.takeInParagraph token) (m.styleMoveOf token) := by
  have hquiet := Quiet.refl m
  unfold takeInParagraph
  cases htoken : token.kind
  case startTag => exact startTag_styles hm htoken
  case endTag => exact endTag_styles hm htoken
  all_goals rw [styleMoveOf_stays (by rw [htoken]; rintro ⟨⟩) (by rw [htoken]; rintro ⟨⟩)]
  case endOfText | newParagraph => exact hm.ends (.refl m) _
  case whiteSpace =>
    dsimp only
    split
    · exact (hquiet.append rfl).read
    · split
      · exact hquiet.read
      · exact hquiet.leaf rfl
  case word | symbol | url => exact (hquiet.addInWord token).read
  case listItem => exact listMarker_styles hm token
  case endList =>
    dsimp only
    split
    · exact hm.ends (.refl m) _
    · exact (readsOn_report _ _ _ rfl).quiet.read
  case command => exact command_styles hm token
  case keyword => exact keyword_styles m token
  case unknown => exact hquiet.read

/-! ### Inline text -/

/-- The nodes of a link go to the paragraph around it, between the two changes of one style. -/
theorem spillLink_styles {m₀ : Machine} (h₀ : Quiet m₀ m) (hm : Stacked m.stack)
    (hkind : m.innermost = .link) {f : Frame} {outer : List Frame} (hstack : m₀.stack = f :: outer)
    {link : Link} {resolved : Bool} {opener : Token}
    (hlink : f.construct = .link link resolved opener) (hresolved : resolved = false)
    (hmarks : m.children.filterMap Node.styleMark? = f.children.filterMap Node.styleMark?)
    (outcome : Outcome) :
    StyleStep m₀ ((((m.pop.changeStyle .italic true opener.start []).appendAll
      m.children.reverse).changeStyle .italic false opener.start []).ended outcome) .stays := by
  subst hresolved
  have hpop := h₀.trans (quiet_pop (by rw [hkind]; rintro ⟨⟩))
  have houter : m.pop.innermost = .paragraph := by
    obtain ⟨inner, around, rest, hstack', -, haround⟩ := exists_around_link hm hkind
    rw [innermost, pop, hstack']
    exact haround
  obtain ⟨p, rest, hwithin⟩ := exists_within houter
  have hbefore := hwithin.changeStyle .italic true opener.start []
  have htext := hbefore.appendAll m.children.reverse
  rw [List.filterMap_reverse, List.reverse_reverse, hmarks] at htext
  have hafter := htext.changeStyle .italic false opener.start []
  have hspans := hafter.spans_eq
  have hreopening : m.pop.reopening = m₀.reopening := congrArg Spans.reopening hpop.spans
  have hparagraphs : m₀.spans.paragraphs = p :: rest :=
    (congrArg Spans.paragraphs hpop.spans).symm.trans hwithin.paragraphs
  have hpre : m.pop.insidePre = m₀.insidePre := congrArg Spans.insidePre hpop.spans
  rw [reopening_changeStyle, reopening_appendAll, reopening_changeStyle, hreopening,
    insidePre_changeStyle, insidePre_appendAll, insidePre_changeStyle, hpre] at hspans
  refine .spills ((.italic, false) :: (f.children.filterMap Node.styleMark? ++
    [(.italic, true)])) hstack hlink hparagraphs ?_ ?_ ?_
  · intro mark hmark
    rcases List.mem_cons.1 hmark with rfl | hmark
    · exact .inl rfl
    · rcases List.mem_append.1 hmark with hmark | hmark
      · exact .inr hmark
      · exact .inl (List.mem_singleton.1 hmark ▸ rfl)
  · rw [settled_eq (by rintro _ ⟨⟩), List.cons_append, List.append_assoc]
    exact hspans
  · simpa [ended] using hpop.begun

/-- A link without a target leaves what it holds to the paragraph around it. -/
theorem closeLink_styles {m₀ : Machine} (h₀ : Quiet m₀ m) (hm : Stacked m.stack)
    (hkind : m.innermost = .link) {f : Frame} {outer : List Frame} (hstack : m₀.stack = f :: outer)
    {link : Link} {resolved : Bool} {opener : Token}
    (hlink : f.construct = .link link resolved opener)
    (hmarks : m.children.filterMap Node.styleMark? = f.children.filterMap Node.styleMark?)
    (outcome : Outcome) :
    StyleStep m₀ (m.closeLink link resolved opener outcome) .stays := by
  have hreport := readsOn_ite' (outcome == .complete)
    (readsOn_report m opener (.unterminatedLink link.target) rfl)
  have hquiet := h₀.reads hreport
  rw [← hreport.children] at hmarks
  replace hreport := hreport.fills
  unfold closeLink
  dsimp only
  generalize (if outcome == .complete then m else _ : Machine) = m₁ at hreport hquiet hmarks ⊢
  have hword : Fills m (if m₁.children.isEmpty then m₁.append (.leaf (.word link.target))
      else m₁) ∧ Quiet m₀ (if m₁.children.isEmpty then m₁.append (.leaf (.word link.target))
      else m₁) := by
    split
    · exact ⟨hreport.leaf rfl (by rw [hkind]; rfl), hquiet.append rfl⟩
    · exact ⟨hreport, hquiet⟩
  have hmarks₂ : (if m₁.children.isEmpty then m₁.append (.leaf (.word link.target))
      else m₁).children.filterMap Node.styleMark? = f.children.filterMap Node.styleMark? := by
    split
    · rw [styleMarks_append rfl, hmarks]
    · exact hmarks
  generalize (if m₁.children.isEmpty then _ else _ : Machine) = m₂ at hword hmarks₂ ⊢
  obtain ⟨hfills, hquiet⟩ := hword
  split
  · exact hquiet.closes (by rw [hfills.innermost, hkind]; rintro ⟨⟩) outcome
  · next hresolved =>
    have hread := readsOn_report m₂ opener (.unresolvedLink link.target) rfl
    replace hfills := hfills.reads hread
    rw [← hread.children] at hmarks₂
    exact spillLink_styles (hquiet.reads hread) (hfills.stacked hm)
      (hfills.innermost.trans hkind) hstack hlink (Bool.eq_false_iff.2 hresolved) hmarks₂ outcome

theorem closeCaption_styles {m₀ : Machine} (h₀ : Quiet m₀ m) (hkind : m.innermost ≠ .paragraph)
    (frame : Frame) (kept : Bool) (outcome : Outcome) :
    StyleStep m₀ (m.closeCaption frame kept outcome) .stays := by
  have hpop := h₀.trans (quiet_pop hkind)
  unfold closeCaption
  refine Quiet.phase ?_ (by rintro _ ⟨⟩)
  split
  · exact hpop
  · refine hpop.modifyTop fun outer => ?_
    split
    · next attributes caption opener hconstruct =>
      rw [Frame.paragraph?, Frame.paragraph?, hconstruct]
    · rfl

/-- Inline text ends in a construct other than a paragraph. -/
theorem closeInline_styles (hm : Stacked m.stack) (hkind : m.innermost ≠ .paragraph)
    (outcome : Outcome) : StyleStep m (m.closeInline outcome) .stays := by
  have htrim := Quiet.trim (.refl m)
  have hfills := Fills.trim (.refl m)
  obtain ⟨f, outer, hstack⟩ : ∃ f outer, m.stack = f :: outer := by
    generalize m.stack = stack at hm
    cases hm <;> exact ⟨_, _, rfl⟩
  have htop : (m.setChildren (dropTrailingSpace m.children)).stack =
      { f with children := dropTrailingSpace m.children } :: outer := by
    rw [setChildren_eq hstack]
  unfold closeInline
  dsimp only
  generalize m.setChildren (dropTrailingSpace m.children) = m' at htrim hfills htop ⊢
  have hm' := hfills.stacked hm
  have hkind' : m'.innermost ≠ .paragraph := hfills.innermost.symm ▸ hkind
  rw [htop]
  dsimp only
  split
  · next link resolved opener hlink =>
    refine closeLink_styles htrim hm' ?_ hstack hlink ?_ outcome
    · rw [innermost, htop]
      exact congrArg Construct.kind hlink
    · rw [children_eq htop, children_eq hstack]
      exact styleMarks_dropTrailingSpace f.children
  · unfold closeHeader
    split
    · exact htrim.closes hkind' _
    · exact (htrim.reads (readsOn_report _ _ _ rfl)).closes hkind' _
    · exact (htrim.reads (readsOn_report _ _ _ rfl)).closes hkind' _
  · split
    · exact (htrim.reads (readsOn_report _ _ _ rfl)).closes hkind' outcome
    · exact htrim.closes hkind' outcome
  · exact closeCaption_styles htrim hkind' _ _ outcome
  · exact htrim.closes hkind' outcome

/-- The tag of a style, a line break or any other tag in a construct of text. -/
theorem inlineTag_styles (hparagraph : m.innermost ≠ .paragraph) {token : Token}
    (hback : StyleStep m (m.closeInline (.handBack token)) .stays) (style? : Option Style) :
    StyleStep m
      (match style? with
        | some style =>
          (m.changeStyle style (token.kind == .startTag) token.start token.attributes).read
        | none =>
          if token.isStartTag ["br"] then (m.append (.leaf .lineBreak)).read
          else m.closeInline (.handBack token)) .stays := by
  cases style? with
  | none =>
      dsimp only
      split
      · exact (Quiet.refl m).leaf rfl
      · exact hback
  | some style => exact ((Quiet.refl m).changeStyle hparagraph ..).read

theorem takeInline_styles (hm : Stacked m.stack) (hkind : holdsText m.innermost)
    (construct : Construct) (token : Token) :
    StyleStep m (m.takeInline construct token) .stays := by
  have hparagraph : m.innermost ≠ .paragraph := by
    intro hparagraph
    rw [hparagraph] at hkind
    cases hkind
  have hback := closeInline_styles hm hparagraph (.handBack token)
  have hquiet := Quiet.refl m
  unfold takeInline
  split
  · exact closeInline_styles hm hparagraph .complete
  · split
    · exact closeInline_styles hm hparagraph .endOfText
    · exact closeInline_styles hm hparagraph (.newParagraph token)
    · exact (hquiet.addInWord token).read
    · exact (hquiet.addInWord token).read
    · exact (hquiet.addInWord token).read
    · split
      · exact hquiet.read
      · exact hquiet.leaf rfl
    · exact inlineTag_styles hparagraph hback _
    · exact inlineTag_styles hparagraph hback _
    · split
      · next hstyle =>
        exact styledWord_styles (listsText_of_holdsText hkind) token
          (isInlineStyle_of_ofName hstyle)
      · exact hquiet.leaf rfl
      · exact hback
    · exact hback

/-! ### Structures -/

theorem closeBefore_styles (hkind : m.innermost ≠ .paragraph) (opener token : Token) :
    StyleStep m (m.closeBefore opener token) .stays :=
  (readsOn_report _ _ _ rfl).quiet.closes hkind _

theorem closeAtEnd_styles (hkind : m.innermost ≠ .paragraph) (opener : Token) :
    StyleStep m (m.closeAtEnd opener) .stays :=
  (readsOn_report _ _ _ rfl).quiet.closes hkind _

/-- The next item of a list of tags is begun. -/
theorem listItem_styles (m : Machine) (token : Token) :
    StyleStep m (m.listItem token) .stays := by
  unfold listItem
  split
  · next frame outer hstack =>
    split
    · next list next opener hconstruct =>
      generalize (Whole.read? ((token.attributes.get? (units "value")).getD [])).getD next = number
      dsimp only
      have hitem : Quiet m { m with stack :=
          { frame with construct := .list list (number + 1) opener } :: outer } := by
        refine ⟨spans_top hstack ?_, le_rfl⟩
        rw [Frame.paragraph?, Frame.paragraph?, hconstruct]
      exact hitem.opens (c := .listItem { number, attributes := token.attributes }) rfl rfl
    · exact (Quiet.refl m).read
  · exact (Quiet.refl m).read

theorem takeInList_styles (hkind : m.innermost ≠ .paragraph) (opener token : Token) :
    StyleStep m (m.takeInList opener token) .stays := by
  unfold takeInList
  split
  · exact listItem_styles m token
  · split
    · split
      · exact (Quiet.refl m).closes hkind _
      · exact (readsOn_report _ _ _ rfl).quiet.closes hkind _
    · split
      · exact closeAtEnd_styles hkind opener
      · split
        · exact closeBefore_styles hkind opener token
        · exact (readsOn_report _ _ _ rfl).quiet.readSolid

theorem takeInDescList_styles (hkind : m.innermost ≠ .paragraph) (opener token : Token) :
    StyleStep m (m.takeInDescList opener token) .stays := by
  unfold takeInDescList
  split
  · exact (Quiet.refl m).opens rfl rfl
  · split
    · exact (Quiet.refl m).opens rfl rfl
    · split
      · exact (Quiet.refl m).closes hkind _
      · split
        · exact closeAtEnd_styles hkind opener
        · split
          · exact closeBefore_styles hkind opener token
          · exact (readsOn_report _ _ _ rfl).quiet.readSolid

theorem takeInTable_styles (hkind : m.innermost ≠ .paragraph) (caption : Option Node)
    (opener token : Token) : StyleStep m (m.takeInTable caption opener token) .stays := by
  unfold takeInTable
  split
  · exact (readsOn_ite _ (readsOn_report _ _ _ rfl)).quiet.opens rfl rfl
  · split
    · exact (Quiet.refl m).opens rfl rfl
    · split
      · exact ((readsOn_report _ _ _ rfl).quiet.push (c := .row []) (by rintro ⟨⟩)).take token
      · split
        · exact (Quiet.refl m).closes hkind _
        · split
          · exact closeAtEnd_styles hkind opener
          · split
            · exact (Quiet.refl m).readSolid
            · split
              · exact closeBefore_styles hkind opener token
              · exact (readsOn_report _ _ _ rfl).quiet.readSolid

theorem takeInRow_styles (hkind : m.innermost ≠ .paragraph) (token : Token) :
    StyleStep m (m.takeInRow token) .stays := by
  unfold takeInRow
  split
  · exact (Quiet.refl m).opens rfl rfl
  · repeat' split
    all_goals first
      | exact (Quiet.refl m).closes hkind _
      | exact (Quiet.refl m).readSolid
      | exact (readsOn_report _ _ _ rfl).quiet.readSolid

theorem takeInRefList_styles (hkind : m.innermost ≠ .paragraph) (opener token : Token) :
    StyleStep m (m.takeInRefList opener token) .stays := by
  unfold takeInRefList
  split
  · refine Quiet.readSolid ?_
    have htext := (readsOn_argument m).trans (readsOn_restOfLine m.argument.2)
    unfold refItem
    dsimp only
    split
    · exact (htext.trans (readsOn_report _ _ _ rfl)).quiet
    · next target _ =>
      have hresolve := htext.trans (readsOn_resolve _ target)
      generalize m.argument.2.restOfLine.2.resolve target = found at hresolve ⊢
      have hitem : ∀ shown item, Quiet m ((found.2.plain false shown).2.append
          (.branch (.refItem item) (found.2.plain false shown).1)) := fun shown item =>
        (hresolve.trans (readsOn_plain found.2 false shown)).quiet.append rfl
      split
      · exact hitem _ _
      · exact (hitem _ _).reads (readsOn_report _ _ _ rfl)
  · split
    · exact (Quiet.refl m).closes hkind _
    · split
      · exact (readsOn_report _ _ _ rfl).quiet.closes hkind _
      · exact (readsOn_report _ _ _ rfl).quiet.readSolid

/-! ### Tokens -/

theorem openSection_styles {m₀ : Machine} (h : ReadsOn m₀ m) (token : Token) (level : Nat) :
    StyleStep m₀ (m.openSection token level) .stays := by
  have hlabel := h.trans (readsOn_argument m)
  unfold openSection
  dsimp only
  generalize m.argument = label at hlabel ⊢
  have htitle := hlabel.trans
    (readsOn_iteArgument label.1.isSome [] (readsOn_restOfLine label.2))
  generalize (if label.1.isSome then label.2.restOfLine else ([], label.2)) = title at htitle ⊢
  have hreport := htitle.trans (readsOn_ite' label.1.isSome
    (readsOn_report _ token (.missingSectionLabel token.value) rfl))
  exact hreport.quiet.opens rfl rfl

theorem openParagraph_styles (m : Machine) (token : Token) :
    StyleStep m (m.openParagraph.take token) .stays := by
  obtain ⟨hspans, hbegun⟩ := spans_openParagraph m
  refine .opens ?_ (show m.begun < m.openParagraph.begun by omega)
  rw [settled_eq (m := m.openParagraph.take token) (by rintro _ ⟨⟩)]
  exact hspans

/-- A token in a paragraph may enter or leave a style; no other does. -/
theorem dispatch_styles (hm : m.Ready) (token : Token) :
    StyleStep m (m.dispatch token)
      (if m.innermost = .paragraph then m.styleMoveOf token else .stays) := by
  unfold dispatch
  split
  · next hstack =>
    have hkind : m.innermost ≠ .paragraph := by
      rw [innermost, hstack]
      rintro ⟨⟩
    rw [if_neg hkind]
    exact (Quiet.refl m).phase (by rintro _ ⟨⟩)
  · next frame outer hstack =>
    have hframe : m.innermost = frame.construct.kind := innermost_eq hstack
    dsimp only
    by_cases hkind : m.innermost = .paragraph
    · rw [if_pos hkind]
      cases hconstruct : frame.construct <;> rw [hconstruct, hkind] at hframe
      case paragraph => exact takeInParagraph_styles ⟨hm.stacked, hkind⟩ token
      all_goals cases hframe
    · rw [if_neg hkind]
      cases hconstruct : frame.construct <;> rw [hconstruct] at hframe
      case paragraph => exact absurd hframe hkind
      case root singleLine =>
        dsimp only
        split
        · have htop : m.isAtTop := by simp [isAtTop_eq, hframe, Construct.kind]
          exact openSection_styles
            (readsOn_ite _ (readsOn_sectionAtTopLevel htop token token.value)) token _
        · exact openParagraph_styles m token
      case sect sect =>
        dsimp only
        split
        · split
          · exact (Quiet.refl m).closes hkind _
          · exact openSection_styles (.refl m) token _
        · exact openParagraph_styles m token
      case refList opener => exact takeInRefList_styles hkind opener token
      case list list next opener => exact takeInList_styles hkind opener token
      case descList attributes opener => exact takeInDescList_styles hkind opener token
      case table attributes caption opener => exact takeInTable_styles hkind caption opener token
      case row attributes => exact takeInRow_styles hkind token
      case descTitle | caption | header | hyperlink | link =>
        exact takeInline_styles hm.stacked (by rw [hframe]; rfl) _ token
      all_goals exact openParagraph_styles m token

/-! ### Constructs that have ended -/

theorem itemEnded_styles (hkind : m.innermost ≠ .paragraph) (list : AutoList) (next : Whole)
    (outcome : Outcome) : StyleStep m (m.itemEnded list next outcome) .stays := by
  have hend := (Quiet.refl m).scanner m.scanner.endList rfl
  unfold itemEnded
  split
  · split
    · exact (Quiet.refl m).openItem _
    · dsimp only
      split
      · exact hend.closes hkind _
      · exact hend.closes hkind _
  · exact hend.closes hkind _

theorem sectionPartEnded_styles (m : Machine) (outcome : Outcome) {unexpected : Text → Problem}
    (hunexpected : ∀ t, (unexpected t).isFoundReading) :
    StyleStep m (m.sectionPartEnded outcome unexpected) .stays := by
  unfold sectionPartEnded
  split
  · split
    · exact (Quiet.refl m).take _
    · exact (readsOn_report _ _ _ (hunexpected _)).quiet.read
  · exact (Quiet.refl m).read

theorem blockParagraphEnded_styles {m₀ : Machine} (h : Quiet m₀ m)
    (hkind : m.innermost ≠ .paragraph) (outcome : Outcome) (isEnd : Token → Bool) :
    StyleStep m₀ (m.blockParagraphEnded outcome isEnd) .stays := by
  unfold blockParagraphEnded
  split
  · exact h.read
  · split
    · exact h.closes hkind _
    · exact h.closes hkind _
  · exact h.closes hkind _

theorem partEnded_styles (hkind : m.innermost ≠ .paragraph) (opener : Token) (outcome : Outcome) :
    StyleStep m (m.partEnded opener outcome) .stays := by
  unfold partEnded
  split
  · exact closeAtEnd_styles hkind opener
  · exact (Quiet.refl m).take _
  · exact (Quiet.refl m).readSolid

/-- No style is entered or left where a construct has ended. -/
theorem resume_styles (hm : m.Ready) (outcome : Outcome) :
    StyleStep m (m.resume outcome) .stays := by
  have hquiet := Quiet.refl m
  unfold resume
  split
  · exact hquiet.phase (by rintro _ ⟨⟩)
  · next frame outer hstack =>
    have hframe : m.innermost = frame.construct.kind := innermost_eq hstack
    cases hconstruct : frame.construct <;> rw [hconstruct] at hframe
    case paragraph attributes styles =>
      dsimp only
      split
      · exact hquiet.read
      · exact hquiet.take _
      · exact InParagraph.ends ⟨hm.stacked, hframe⟩ (.refl m) _
    -- only paragraphs hold styles, so any other construct ends quietly
    all_goals
      have hkind : m.innermost ≠ .paragraph := by
        rw [hframe]
        rintro ⟨⟩
    case root singleLine =>
      dsimp only
      split
      · exact hquiet.phase (by rintro _ ⟨⟩)
      · exact sectionPartEnded_styles m outcome fun _ => rfl
    case sect sect =>
      dsimp only
      split
      · exact hquiet.closes hkind _
      · exact sectionPartEnded_styles m outcome fun _ => rfl
    case autoListItem item =>
      dsimp only
      split
      · split
        · exact hquiet.read
        · exact hquiet.closes hkind _
      · exact hquiet.closes hkind _
    case autoList list next => exact itemEnded_styles hkind list next outcome
    case simpleList =>
      dsimp only
      split
      · split
        · exact hquiet.opens rfl rfl
        · exact hquiet.closes hkind _
      · exact hquiet.closes hkind _
    case cell attributes isHeading =>
      dsimp only
      split
      · exact hquiet.read
      · split
        · exact hquiet.read
        · exact hquiet.closes hkind _
      · exact hquiet.closes hkind _
    case list | descList | table => exact partEnded_styles hkind _ outcome
    case row attributes =>
      unfold cellEnded
      dsimp only
      split
      · exact hquiet.take _
      · exact hquiet.closes hkind _
      · exact hquiet.readSolid
    case internal | listItem | descData =>
      exact blockParagraphEnded_styles hquiet hkind outcome _
    case parBlock | blockQuote =>
      have hreport := fun opener problem h =>
        readsOn_ite (outcome == .endOfText) (readsOn_report m opener problem h)
      refine blockParagraphEnded_styles (hreport _ _ rfl).quiet ?_ outcome _
      rwa [(hreport _ _ rfl).fills.innermost]
    all_goals exact hquiet.closes hkind _

/-! ### Steps -/

/-- What the next step does to the styles that are entered. -/
def styleMove (m : Machine) : StyleMove :=
  match m.phase with
  | .take token => if m.innermost = .paragraph then m.styleMoveOf token else .stays
  | _ => .stays

/-- A step does to the spans of styles what its move says. -/
theorem step_styles (hm : m.Ready) : StyleStep m.settled m.step m.styleMove := by
  have hnext := readsOn_next m
  unfold step styleMove
  cases hphase : m.phase with
  | readWord style => exact continueWord_styles (hm.word style hphase).1 hphase
  | take token =>
      rw [settled_eq (by rw [hphase]; rintro _ ⟨⟩)]
      exact dispatch_styles hm token
  | ended outcome =>
      rw [settled_eq (by rw [hphase]; rintro _ ⟨⟩)]
      exact resume_styles hm outcome
  | read =>
      rw [settled_eq (by rw [hphase]; rintro _ ⟨⟩)]
      exact hnext.quiet.take _
  | readSolid =>
      rw [settled_eq (by rw [hphase]; rintro _ ⟨⟩)]
      dsimp only
      split
      · exact hnext.quiet.readSolid
      · exact hnext.quiet.take _
  | finished =>
      rw [settled_eq (by rw [hphase]; rintro _ ⟨⟩)]
      exact (Quiet.refl m).step (by rw [hphase]; rintro _ ⟨⟩)

end DocMarkup.Parser.Machine
