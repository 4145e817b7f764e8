import DocMarkup.Parser.Inline
import DocMarkup.Proofs.Parser.Shadows.Machine

/-!
Paragraphs, words and text within a line in machines that read a text with and without carriage
returns.
-/

namespace DocMarkup.Parser.Machine

open Text (crlfOffset)

/-! ### Changes of style -/

section

variable (style : Style) (enable : Bool) (position position' : Nat)
  {attributes attributes' : Attributes}
  (h : attributes'.mapValues Text.dropReturns = attributes.mapValues Text.dropReturns)
include h

theorem styleChange_congr :
    (Content.styleChange { style, enable, position := position', attributes := attributes' }).dropReturns =
      (Content.styleChange { style, enable, position, attributes }).dropReturns := by
  simp only [Content.dropReturns, h]

theorem syntheticChange_congr :
    (syntheticChange style enable position' attributes').dropReturns =
      (syntheticChange style enable position attributes).dropReturns := by
  unfold syntheticChange
  rw [Node.dropReturns_asSynthetic, Node.dropReturns_asSynthetic, Node.dropReturns_leaf,
    Node.dropReturns_leaf, styleChange_congr style enable position position' h]

end

theorem finishedChildren_congr {children children' : List Node}
    (h : children'.map Node.dropReturns = children.map Node.dropReturns)
    (styles : List OpenStyle) (insidePre : Bool) (position position' : Nat) :
    (finishedChildren children' (styles.map OpenStyle.crlf) insidePre position').map
        Node.dropReturns =
      (finishedChildren children styles insidePre position).map Node.dropReturns := by
  have htrimmed : (if insidePre then children' else dropTrailingSpace children').map
        Node.dropReturns =
      (if insidePre then children else dropTrailingSpace children).map Node.dropReturns := by
    split
    · exact h
    · exact dropTrailingSpace_congr h
  unfold finishedChildren
  dsimp only
  revert htrimmed
  generalize (if insidePre then children' else dropTrailingSpace children') = trimmed'
  generalize (if insidePre then children else dropTrailingSpace children) = trimmed
  intro htrimmed
  rw [Node.all_isSynthetic_congr htrimmed]
  split
  · rfl
  · refine dropTrailingSpace_congr ?_
    clear * - htrimmed
    induction styles generalizing trimmed trimmed' with
    | nil => exact htrimmed
    | cons entered rest ih =>
        exact ih _ _ (congrArg₂ List.cons (syntheticChange_congr _ _ _ _ rfl) htrimmed)

namespace Shadows

variable {t : Text} {m m' : Machine} (h : Shadows t m m')
include h

theorem ownStyle? : m'.ownStyle? = m.ownStyle?.map OpenStyle.crlf := by
  unfold Machine.ownStyle?
  rcases h.stack_cases with ⟨hm, hm'⟩ | ⟨f, f', outer, outer', hm, hm', hf, -⟩
  · rw [hm, hm']
    rfl
  · rw [hm, hm']
    show f'.construct.styles.head? = f.construct.styles.head?.map _
    rw [hf.construct.styles, List.head?_map]

theorem changeStyle (style : Style) (enable : Bool) (position position' : Nat)
    {attributes attributes' : Attributes} (hattributes : attributes'.mapValues Text.dropReturns =
      attributes.mapValues Text.dropReturns) :
    Shadows t (m.changeStyle style enable position attributes)
      (m'.changeStyle style enable position' attributes') :=
  h.appendLeaf (styleChange_congr style enable position position' hattributes)

theorem changeStyle_bare (style : Style) (enable : Bool) (position position' : Nat) :
    Shadows t (m.changeStyle style enable position []) (m'.changeStyle style enable position' []) :=
  h.changeStyle style enable position position' rfl

/-! ### Paragraphs -/

theorem enterStyle (entered : OpenStyle) :
    Shadows t (m.enterStyle entered) (m'.enterStyle entered.crlf) := by
  unfold Machine.enterStyle
  dsimp only
  generalize hx : m.modifyTop _ = x
  generalize hx' : m'.modifyTop _ = x'
  have hentered : Shadows t x x' := by
    subst hx hx'
    refine h.modifyTop fun {a a'} ha => ?_
    rcases ha.construct.paragraph_cases with ⟨attributes, styles, hc, hc'⟩ | ⟨hc, hc'⟩
    · rw [hc, hc']
      exact { ha with construct := Construct.alike_crlf (.paragraph attributes (entered :: styles)) }
    · split
      · exact absurd ‹_› (hc _ _)
      · exact ha
  show Shadows t (if entered.style == .preformatted then _ else _)
    (if entered.style == .preformatted then _ else _)
  split
  · exact hentered.setInsidePre true
  · exact hentered

theorem leaveStyle : Shadows t m.leaveStyle m'.leaveStyle := by
  refine h.modifyTop fun {a a'} ha => ?_
  rcases ha.construct.paragraph_cases with ⟨attributes, styles, hc, hc'⟩ | ⟨hc, hc'⟩
  · rw [hc, hc']
    refine { ha with construct := ?_ }
    dsimp only
    rw [← List.map_tail]
    exact Construct.alike_crlf (.paragraph attributes styles.tail)
  · split
    · exact absurd ‹_› (hc _ _)
    · exact ha

theorem openParagraph : Shadows t m.openParagraph m'.openParagraph := by
  have hpushed : Shadows t (({ m with reopening := [] } : Machine).push (.paragraph [] []))
      (({ m' with reopening := [] } : Machine).push (.paragraph [] [])) := by
    have hnone : Shadows t { m with reopening := [] } { m' with reopening := [] } :=
      { h with reopening := rfl }
    exact hnone.push (Construct.alike_crlf (.paragraph [] []))
  unfold Machine.openParagraph
  dsimp only
  rw [h.reopening]
  generalize m.reopening = styles
  revert hpushed
  generalize ({ m with reopening := [] } : Machine).push (.paragraph [] []) = x
  generalize ({ m' with reopening := [] } : Machine).push (.paragraph [] []) = x'
  intro hpushed
  clear h
  induction styles generalizing x x' with
  | nil => exact hpushed
  | cons entered rest ih =>
      refine ih _ _ (enterStyle (hpushed.append (syntheticChange_congr _ _ _ _ ?_)) entered)
      exact Attributes.dropReturns_mapValues _

theorem closeParagraph (outcome : Outcome) :
    Shadows t (m.closeParagraph outcome) (m'.closeParagraph (outcome.crlf (crlfOffset t))) := by
  unfold Machine.closeParagraph
  rcases h.stack_cases with ⟨hm, hm'⟩ | ⟨f, f', outer, outer', hm, hm', hf, houter⟩
  · rw [hm, hm']
    exact { h.finished with stack := .nil }
  · rw [hm, hm']
    dsimp only
    have hchildren := finishedChildren_congr hf.children f.construct.styles m.insidePre
      m.scanner.offset m'.scanner.offset
    have hpre : (f.construct.styles.map OpenStyle.crlf).any (·.style == .preformatted) =
        f.construct.styles.any (·.style == .preformatted) := List.any_map ..
    rw [h.insidePre, hf.construct.styles, hpre]
    revert hchildren
    generalize finishedChildren f'.children _ _ _ = children'
    generalize finishedChildren f.children _ _ _ = children
    intro hchildren
    have hleft : Shadows t
        (if f.construct.styles.any (·.style == .preformatted) then m.setInsidePre false else m)
        (if f.construct.styles.any (·.style == .preformatted) then m'.setInsidePre false
          else m') := by
      split
      · exact h.setInsidePre false
      · exact h
    revert hleft
    generalize (if f.construct.styles.any _ then m.setInsidePre false else m) = x
    generalize (if f.construct.styles.any _ then m'.setInsidePre false else m') = x'
    intro hleft
    have houtside : Shadows t
        { x with stack := outer, reopening := x.reopening ++ f.construct.styles.reverse }
        { x' with
          stack := outer'
          reopening := x'.reopening ++ (f.construct.styles.map OpenStyle.crlf).reverse } :=
      { hleft with
        stack := houter
        reopening := by
          dsimp only
          rw [hleft.reopening, ← List.map_reverse, List.map_append] }
    have hfinished : Frame.Alike (crlfOffset t) { f with children } { f' with children := children' } :=
      { hf with children := hchildren }
    rw [Node.isEmpty_congr hchildren]
    split
    · exact houtside.ended outcome
    · exact (houtside.attach hfinished).ended outcome

/-! ### Words and styles -/

theorem plainWord (word : Text) : Shadows t (m.plainWord word) (m'.plainWord word) := by
  unfold Machine.plainWord
  rw [h.insidePre]
  exact h.append rfl

theorem addWord (word : Text) : Shadows t (m.addWord word) (m'.addWord word) := by
  unfold Machine.addWord
  dsimp only
  rw [h.insidePre, h.options]
  split
  · exact h.plainWord word
  · generalize (if (Text.dropWhileRight isEndPunctuation word).head? == _ then _ else _ : Text) =
      target
    obtain ⟨_ | found, x, x', hx, hx', hresolved⟩ := h.resolve target
    · rw [hx, hx']
      exact hresolved.plainWord word
    · rw [hx, hx']
      dsimp only
      rw [hresolved.relPath]
      have hlinked := hresolved.appendLeaf
        (Eq.refl (Content.linkedWord (linkedWord target x.setting.relPath found)).dropReturns)
      split
      · exact hlinked.appendLeaf rfl
      · exact hlinked

theorem addInWord {token : Token} (hsolid : token.isBlank = false) :
    Shadows t (m.addInWord token) (m'.addInWord (token.crlf (crlfOffset t))) := by
  unfold Machine.addInWord
  rw [Token.value_crlf hsolid, Token.kind_crlf]
  split
  · exact h.addWord token.value
  · exact h.appendLeaf rfl
  · exact h.appendLeaf rfl

theorem styledWord (hlist : m.scanner.breaksListEnd = false) (token : Token) (style : Style) :
    Shadows t (m.styledWord token style)
      (m'.styledWord (token.crlf (crlfOffset t)) style) := by
  have hspace : Shadows t { m with scanner := m.scanner.skipHorizontalSpace }
      { m' with scanner := m'.scanner.skipHorizontalSpace } :=
    h.scanned h.scanner.skipHorizontalSpace m.scanner.advances_skipHorizontalSpace.text
  obtain ⟨next, x, x', hx, hx', hnext⟩ :=
    hspace.next (Scanner.breaksListEnd_skipHorizontalSpace hlist)
  unfold Machine.styledWord
  rw [hx, hx']
  dsimp only
  rw [Token.isInWord_crlf]
  split
  · next hword =>
    have hchanged := hnext.changeStyle_bare style true token.start
      (token.crlf (crlfOffset t)).start
    exact { hchanged.addInWord (Token.isBlank_of_isInWord hword) with phase := rfl }
  · exact (hnext.report ..).take next

theorem continueWord (hlist : m.scanner.breaksListEnd = false) (style : Style) :
    Shadows t (m.continueWord style) (m'.continueWord style) := by
  obtain ⟨next, x, x', hx, hx', hnext⟩ := h.next hlist
  unfold Machine.continueWord
  rw [hx, hx']
  dsimp only
  rw [Token.isInWord_crlf]
  split
  · next hword => exact { hnext.addInWord (Token.isBlank_of_isInWord hword) with phase := rfl }
  · exact (hnext.changeStyle_bare style false ..).take next

theorem styleStart {token : Token} (hsolid : token.isBlank = false) (style : Style) :
    Shadows t (m.styleStart token style)
      (m'.styleStart (token.crlf (crlfOffset t)) style) := by
  have hchanged := h.changeStyle style true token.start (token.crlf (crlfOffset t)).start
    (Attributes.dropReturns_mapValues token.attributes)
  unfold Machine.styleStart
  dsimp only
  rw [Token.value_crlf hsolid, Token.flags_crlf]
  split
  · exact (hchanged.changeStyle_bare style false ..).read
  · exact (hchanged.enterStyle { style, tag := token.value, attributes := token.attributes }).read

theorem styleEnd (token : Token) (style : Style) :
    Shadows t (m.styleEnd token style)
      (m'.styleEnd (token.crlf (crlfOffset t)) style) := by
  have hown : m'.ownStyle?.any (·.style == style) = m.ownStyle?.any (·.style == style) := by
    rw [h.ownStyle?, Option.any_map]
    rfl
  unfold Machine.styleEnd
  rw [hown]
  split
  · have hleft := h.leaveStyle
    have hkept : Shadows t
        (if m.leaveStyle.insidePre && style != .preformatted then m.leaveStyle
          else m.leaveStyle.setChildren (dropTrailingSpace m.leaveStyle.children))
        (if m'.leaveStyle.insidePre && style != .preformatted then m'.leaveStyle
          else m'.leaveStyle.setChildren (dropTrailingSpace m'.leaveStyle.children)) := by
      rw [hleft.insidePre]
      split
      · exact hleft
      · exact hleft.setChildren (dropTrailingSpace_congr hleft.children)
    have hchanged := hkept.changeStyle_bare style false token.start
      (token.crlf (crlfOffset t)).start
    dsimp only
    split
    · exact (hchanged.setInsidePre false).read
    · exact hchanged.read
  · exact (h.report ..).read

/-! ### Text within a line -/

theorem reportUnclosed (token token' : Token) :
    Shadows t (m.reportUnclosed token) (m'.reportUnclosed token') := h.report ..

theorem closeLink (link : Link) (resolved : Bool) (token token' : Token) (outcome : Outcome) :
    Shadows t (m.closeLink link resolved token outcome)
      (m'.closeLink link resolved token' (outcome.crlf (crlfOffset t))) := by
  have hreported := h.report_unless (outcome == .complete) (outcome == .complete) token token'
    (.unterminatedLink link.target) (.unterminatedLink link.target)
  unfold Machine.closeLink
  rw [Outcome.crlf_beq_complete]
  revert hreported
  generalize (if outcome == .complete then m else _ : Machine) = x
  generalize (if outcome == .complete then m' else _ : Machine) = x'
  intro hreported
  have hshown : Shadows t
      (if x.children.isEmpty then x.append (.leaf (.word link.target)) else x)
      (if x'.children.isEmpty then x'.append (.leaf (.word link.target)) else x') := by
    rw [Node.isEmpty_congr hreported.children]
    split
    · exact hreported.appendLeaf rfl
    · exact hreported
  dsimp only
  revert hshown
  generalize (if x.children.isEmpty then _ else x : Machine) = y
  generalize (if x'.children.isEmpty then _ else x' : Machine) = y'
  intro hshown
  split
  · exact hshown.close outcome
  · have hunresolved := hshown.report token token' (.unresolvedLink link.target)
      (.unresolvedLink link.target)
    have hbegun := hunresolved.pop.changeStyle_bare .italic true token.start token'.start
    have hfilled := hbegun.appendAll (Node.reverse_congr hunresolved.children)
    exact (hfilled.changeStyle_bare ..).ended outcome

theorem closeHeader (token token' : Token) (outcome : Outcome) :
    Shadows t (m.closeHeader token outcome)
      (m'.closeHeader token' (outcome.crlf (crlfOffset t))) := by
  unfold Machine.closeHeader
  cases outcome with
  | complete => exact h.close .complete
  | endOfText => exact (h.reportUnclosed token token').close .endOfText
  | newParagraph last => exact Shadows.close (h.report ..) (.newParagraph last)
  | handBack last => exact Shadows.close (h.report ..) (.handBack last)

theorem closeCaption {f f' : Frame} (hf : Frame.Alike (crlfOffset t) f f') (kept : Bool)
    (outcome : Outcome) :
    Shadows t (m.closeCaption f kept outcome)
      (m'.closeCaption f' kept (outcome.crlf (crlfOffset t))) := by
  unfold Machine.closeCaption
  dsimp only
  split
  · exact h.pop.ended outcome
  · refine Shadows.ended (h.pop.modifyTop fun {a a'} ha => ?_) outcome
    rcases ha.construct.table_cases with ⟨attributes, given, given', token, hc, hc'⟩ | ⟨hc, hc'⟩
    · rw [hc, hc']
      exact { ha with construct := ⟨[f'.toNode], rfl, congrArg (fun n => [n]) hf.toNode⟩ }
    · split
      · exact absurd ‹_› (hc _ _ _)
      · exact ha

theorem closeInline (outcome : Outcome) :
    Shadows t (m.closeInline outcome) (m'.closeInline (outcome.crlf (crlfOffset t))) := by
  have htrimmed := h.setChildren (dropTrailingSpace_congr h.children)
  unfold Machine.closeInline
  dsimp only
  rcases htrimmed.stack_cases with ⟨hm, hm'⟩ | ⟨f, f', outer, outer', hm, hm', hf, -⟩
  · rw [hm, hm']
    exact { htrimmed.finished with stack := .nil }
  · rw [hm, hm']
    obtain ⟨heads, hconstruct, -⟩ := hf.construct
    dsimp only
    rw [hconstruct]
    cases f.construct
    case link link resolved token => exact htrimmed.closeLink ..
    case header header token => exact htrimmed.closeHeader ..
    case hyperlink link token =>
      dsimp only [Construct.crlf, Construct.withHeads]
      rw [Outcome.crlf_beq_endOfText]
      exact Shadows.close (htrimmed.report_if ..) outcome
    case caption attributes kept => exact htrimmed.closeCaption hf kept outcome
    all_goals exact htrimmed.close outcome

end Shadows

theorem endsInline_congr {move : Nat → Nat} {c c' : Construct} (h : c.Alike move c')
    (token : Token) : endsInline c' (token.crlf move) = endsInline c token := by
  obtain ⟨heads, rfl, -⟩ := h
  cases c
  case link => exact Token.isCommand_crlf ..
  case descTitle => exact Token.isEndTag_crlf ..
  case caption => exact Token.isEndTag_crlf ..
  case hyperlink => exact Token.isEndTag_crlf ..
  case header header opener => exact Token.named_crlf (by decide) (· == opener.value)
  all_goals rfl

/-- Text within a line goes on alike. -/
theorem Shadows.takeInline {t : Text} {m m' : Machine} (h : Shadows t m m')
    (hlist : m.scanner.breaksListEnd = false) {c c' : Construct}
    (hc : c.Alike (crlfOffset t) c') (token : Token) :
    Shadows t (m.takeInline c token) (m'.takeInline c' (token.crlf (crlfOffset t))) := by
  unfold Machine.takeInline
  rw [endsInline_congr hc]
  split
  · exact h.closeInline .complete
  rw [Token.kind_crlf]
  have hback := h.closeInline (.handBack token)
  have hsolid {kind : TokenKind} (hkind : token.kind = kind) := Token.isBlank_of_kind hkind
  cases hkind : token.kind
  case endOfText => exact h.closeInline .endOfText
  case newParagraph => exact h.closeInline (.newParagraph token)
  case word => exact (h.addInWord (hsolid hkind (by decide))).read
  case symbol => exact (h.addInWord (hsolid hkind (by decide))).read
  case url => exact (h.addInWord (hsolid hkind (by decide))).read
  case whiteSpace =>
    dsimp only
    rw [Node.isEmpty_congr h.children]
    split
    · exact h.read
    · refine Shadows.read (h.appendLeaf ?_)
      simp only [Content.dropReturns, Token.dropReturns_text_crlf]
  case startTag =>
    dsimp only
    rw [Token.value_crlf (hsolid hkind (by decide)), Token.isStartTag_crlf]
    split
    · exact (h.changeStyle _ _ _ _ (Attributes.dropReturns_mapValues _)).read
    · split
      · exact (h.appendLeaf rfl).read
      · exact hback
  case endTag =>
    dsimp only
    rw [Token.value_crlf (hsolid hkind (by decide)), Token.isStartTag_crlf]
    split
    · exact (h.changeStyle _ _ _ _ (Attributes.dropReturns_mapValues _)).read
    · split
      · exact (h.appendLeaf rfl).read
      · exact hback
  case command =>
    dsimp only
    rw [Token.value_crlf (hsolid hkind (by decide))]
    split
    · exact h.styledWord hlist token _
    · exact (h.appendLeaf rfl).read
    · exact hback
  all_goals exact hback

end DocMarkup.Parser.Machine
