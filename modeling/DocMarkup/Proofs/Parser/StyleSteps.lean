import DocMarkup.Proofs.Parser.Spans

/-!
What the handlers of tokens do to the spans of styles.  A style is entered or left by a tag; a
styled word and an emphasized reference enter and leave one at once; everything else that happens
inside a paragraph is quiet, begins a block, or ends the paragraph.
-/

namespace DocMarkup.Parser

/-- What a step does to the styles that are entered. -/
inductive StyleMove where
  | stays
  | enters (entered : OpenStyle)
  | leaves (entered : OpenStyle)

namespace Machine

/-- What a step does to the spans of styles.  A word that is being read counts as ended. -/
inductive StyleStep (m m' : Machine) : StyleMove → Prop
  | quiet (h : m'.settled.spans = m.spans) (hbegun : m.begun ≤ m'.begun) : StyleStep m m' .stays
  /-- A style begins and ends at once. -/
  | brackets {p : OpenParagraph} {rest : List OpenParagraph} (style : Style)
      (hm : m.Within p rest)
      (h : m'.settled.spans =
        ⟨(p.mark style true).mark style false :: rest, m.reopening, m.insidePre⟩)
      (hbegun : m.begun ≤ m'.begun) : StyleStep m m' .stays
  | enters {p : OpenParagraph} {rest : List OpenParagraph} (entered : OpenStyle)
      (hm : m.Within p rest)
      (h : m'.settled.spans =
        ⟨{ p.mark entered.style true with styles := entered :: p.styles } :: rest, m.reopening,
          entered.isPreformatted || m.insidePre⟩)
      (hbegun : m.begun ≤ m'.begun) : StyleStep m m' (.enters entered)
  | leaves {p : OpenParagraph} {rest : List OpenParagraph} (entered : OpenStyle)
      (styles : List OpenStyle) (hm : m.Within p rest) (hstyles : p.styles = entered :: styles)
      (h : m'.settled.spans = ⟨{ p.mark entered.style false with styles } :: rest, m.reopening,
        !entered.isPreformatted && m.insidePre⟩)
      (hbegun : m.begun ≤ m'.begun) : StyleStep m m' (.leaves entered)
  /-- A paragraph begins with the styles that waited to be opened again. -/
  | opens
      (h : m'.settled.spans =
        ⟨{ id := m.begun
           styles := m.reopening.reverse
           marks := (m.reopening.map fun entered => (entered.style, true)).reverse } ::
          m.spans.paragraphs, [], m.reopening.any (·.isPreformatted) || m.insidePre⟩)
      (hbegun : m.begun < m'.begun) : StyleStep m m' .stays
  /-- The innermost construct, a paragraph, ends. -/
  | closes {m₁ : Machine} (outcome : Outcome) (hm : m.innermost = .paragraph) (h₁ : ReadsOn m m₁)
      (h : m' = m₁.closeParagraph outcome) : StyleStep m m' .stays
  /-- A link without a target leaves its text, and what changes of style it holds, in the
  paragraph. -/
  | spills {f : Frame} {outer : List Frame} {link : Link} {opener : Token} {p : OpenParagraph}
      {rest : List OpenParagraph} (spilled : List StyleMark) (hstack : m.stack = f :: outer)
      (hlink : f.construct = .link link false opener) (hm : m.spans.paragraphs = p :: rest)
      (hspilled : ∀ mark ∈ spilled, mark.1 = .italic ∨ mark ∈ f.children.filterMap Node.styleMark?)
      (h : m'.settled.spans =
        ⟨{ p with marks := spilled ++ p.marks } :: rest, m.reopening, m.insidePre⟩)
      (hbegun : m.begun ≤ m'.begun) : StyleStep m m' .stays

variable {m m₀ m' : Machine} {move : StyleMove}

/-- What was read before counts as well. -/
theorem StyleStep.after (h₀ : ReadsOn m₀ m) (h : StyleStep m m' move) : StyleStep m₀ m' move := by
  have hspans := h₀.quiet.spans
  have hbegun₀ := h₀.quiet.begun
  have hwithin : ∀ {p rest}, m.Within p rest → m₀.Within p rest := fun h =>
    ⟨h₀.fills.innermost ▸ h.kind, hspans ▸ h.paragraphs⟩
  cases h with
  | quiet h hbegun => exact .quiet (h.trans hspans) (hbegun₀.trans hbegun)
  | brackets style hm h hbegun =>
      exact .brackets style (hwithin hm) (h₀.reopening ▸ h₀.insidePre ▸ h) (hbegun₀.trans hbegun)
  | enters entered hm h hbegun =>
      exact .enters entered (hwithin hm) (h₀.reopening ▸ h₀.insidePre ▸ h) (hbegun₀.trans hbegun)
  | leaves entered styles hm hstyles h hbegun =>
      exact .leaves entered styles (hwithin hm) hstyles (h₀.reopening ▸ h₀.insidePre ▸ h)
        (hbegun₀.trans hbegun)
  | opens h hbegun =>
      rw [h₀.begun, h₀.reopening, h₀.insidePre, hspans] at h
      exact .opens h (hbegun₀.trans_lt hbegun)
  | closes outcome hm h₁ h =>
      exact .closes outcome (h₀.fills.innermost ▸ hm) (h₀.trans h₁) h
  | spills spilled hstack hlink hm hspilled h hbegun =>
      exact .spills spilled (h₀.stack ▸ hstack) hlink (hspans ▸ hm) hspilled
        (h₀.reopening ▸ h₀.insidePre ▸ h) (hbegun₀.trans hbegun)

namespace Quiet

/-- Quiet work, after which no styled word is being read. -/
theorem step (h : Quiet m m') (hphase : ∀ style, m'.phase ≠ .readWord style) :
    StyleStep m m' .stays :=
  .quiet ((congrArg Machine.spans (settled_eq hphase)).trans h.spans) h.begun

theorem phase (h : Quiet m m') {phase : Phase} (hphase : ∀ style, phase ≠ .readWord style) :
    StyleStep m { m' with phase } .stays :=
  step ⟨h.spans, h.begun⟩ hphase

theorem read (h : Quiet m m') : StyleStep m m'.read .stays := h.phase nofun

theorem readSolid (h : Quiet m m') : StyleStep m m'.readSolid .stays := h.phase nofun

theorem take (h : Quiet m m') (token : Token) : StyleStep m (m'.take token) .stays := h.phase nofun

theorem leaf (h : Quiet m m') {content : Content}
    (hcontent : (content.kind == .styleChange) = false) :
    StyleStep m (m'.append (.leaf content)).read .stays :=
  (h.append (n := .leaf content) (Node.styleMark?_eq_none (ne_of_beq_false hcontent))).read

theorem branch (h : Quiet m m') {content : Content} {children : List Node}
    (hcontent : (content.kind == .styleChange) = false) :
    StyleStep m (m'.append (.branch content children)).read .stays :=
  (h.append (n := .branch content children)
    (Node.styleMark?_eq_none (ne_of_beq_false hcontent))).read

theorem opens (h : Quiet m m') {c : Construct} (hc : (c.kind == .paragraph) = false)
    {phase : Phase} (hphase : phase.readsAnew) :
    StyleStep m { m'.push c with phase } .stays := by
  refine (h.push (ne_of_beq_false hc)).phase fun style hstyle => ?_
  rw [hstyle] at hphase
  cases hphase

theorem closes (h : Quiet m m') (hkind : m'.innermost ≠ .paragraph) (outcome : Outcome) :
    StyleStep m (m'.close outcome) .stays := by
  refine (h.close hkind outcome).step fun style => ?_
  unfold Machine.close
  split <;> nofun

end Quiet

/-- The innermost construct, a paragraph, ends. -/
theorem InParagraph.ends (hm : m.InParagraph) (h : ReadsOn m m') (outcome : Outcome) :
    StyleStep m (m'.closeParagraph outcome) .stays :=
  .closes outcome hm.kind h rfl

/-! ### Words and styles -/

namespace Quiet

theorem addWord (h : Quiet m m') (word : Text) : Quiet m (m'.addWord word) :=
  addWord_induction (fun target h => h.reads (readsOn_resolve _ target))
    (fun hn h => h.append hn.styleMark?_eq_none) h word

theorem addInWord (h : Quiet m m') (token : Token) : Quiet m (m'.addInWord token) := by
  unfold Machine.addInWord
  split
  · exact h.addWord token.value
  · exact h.append rfl
  · exact h.append rfl

/-- A style changes in a construct other than a paragraph. -/
theorem changeStyle (h : Quiet m m') (hkind : m'.innermost ≠ .paragraph) (style : Style)
    (enable : Bool) (position : Nat) (attributes : Attributes) :
    Quiet m (m'.changeStyle style enable position attributes) :=
  h.inside hkind fun _ => rfl

end Quiet

/-- A styled word is begun: its style counts as left when the word ends. -/
theorem styledWord_styles (hm : m.ListsText) (token : Token) {style : Style}
    (hstyle : isInlineStyle style) :
    StyleStep m (m.styledWord token style) .stays := by
  have hskip := readsOn_scanner m m.scanner.advances_skipHorizontalSpace
  unfold styledWord
  dsimp only
  generalize ({ m with scanner := m.scanner.skipHorizontalSpace } : Machine) = m' at hskip ⊢
  have hnext := hskip.trans (readsOn_next m')
  have hknown := (scanned_next m').isKnown
  generalize m'.next = next at hnext hknown ⊢
  have hm' : next.2.ListsText := hnext.fills.listsText.2 hm
  split
  · generalize hbegin : next.2.changeStyle style true token.start [] = opened
    have hopened : Fills next.2 opened :=
      hbegin ▸ (Fills.refl next.2).changeStyle (hm' _ rfl) style (.inr hstyle) true token.start []
    have hfills := ((Fills.refl opened).addInWord (hopened.listsText.2 hm') hknown).phase
      (.readWord style)
    have hquiet : Quiet opened { opened.addInWord next.1 with phase := .readWord style } :=
      let hadded := (Quiet.refl opened).addInWord next.1
      ⟨hadded.spans, hadded.begun⟩
    -- the word counts as ended, whatever is still to be read of it
    have hsettled : ({ opened.addInWord next.1 with phase := .readWord style } : Machine).settled =
        ({ opened.addInWord next.1 with phase := .readWord style } : Machine).changeStyle style
          false 0 [] := rfl
    generalize ({ opened.addInWord next.1 with phase := .readWord style } : Machine) = word
      at hfills hquiet hsettled ⊢
    have hreopening : word.reopening = m.reopening := by
      refine (congrArg Spans.reopening hquiet.spans).trans ?_
      show opened.reopening = m.reopening
      rw [← hnext.reopening, ← hbegin]
      exact reopening_changeStyle ..
    have hpre : word.insidePre = m.insidePre := by
      refine (congrArg Spans.insidePre hquiet.spans).trans ?_
      show opened.insidePre = m.insidePre
      rw [← hnext.insidePre, ← hbegin]
      exact insidePre_changeStyle ..
    have hbegun : m.begun ≤ word.begun := by
      refine hnext.begun.ge.trans (le_trans ?_ hquiet.begun)
      rw [← hbegin, begun_changeStyle]
    -- only a paragraph keeps account of its styles, elsewhere the change is quiet
    by_cases hkind : m.innermost = .paragraph
    · obtain ⟨p, rest, hm⟩ := exists_within hkind
      have hopen := (hm.reads hnext).changeStyle style true token.start []
      rw [hbegin] at hopen
      have hclosed := (hopen.quiet hquiet (Fills.innermost hfills)).changeStyle style false 0 []
      have hspans := hclosed.spans_eq
      rw [reopening_changeStyle, hreopening, insidePre_changeStyle, hpre, ← hsettled] at hspans
      exact .brackets style hm hspans hbegun
    · have hkind' : next.2.innermost ≠ .paragraph := by rwa [hnext.fills.innermost]
      have hopen := hnext.quiet.changeStyle hkind' style true token.start []
      rw [hbegin] at hopen
      have hword : word.innermost ≠ .paragraph := by
        rwa [Fills.innermost hfills, hopened.innermost]
      have hclosed := (hopen.trans hquiet).changeStyle hword style false 0 []
      rw [← hsettled] at hclosed
      exact .quiet hclosed.spans hbegun
  · exact (hnext.trans (readsOn_report _ _ _ rfl)).quiet.take _

/-- A styled word goes on, or has ended before a token that is no part of it. -/
theorem continueWord_styles (htext : m.ListsText) {style : Style}
    (hphase : m.phase = .readWord style) :
    StyleStep m.settled (m.continueWord style) .stays := by
  have hsettled : m.settled = m.changeStyle style false 0 [] := by
    rw [settled, hphase]
  have hnext := readsOn_next m
  have hknown := (scanned_next m).isKnown
  unfold continueWord
  generalize m.next = next at hnext hknown ⊢
  have hbegun : m.settled.begun ≤ next.2.begun := by
    rw [hsettled, begun_changeStyle]
    exact hnext.begun.ge
  -- ending the word changes the spans alike before and after quiet work
  have hended : ∀ m', Quiet next.2 m' → m'.innermost = next.2.innermost → ∀ position,
      (m'.changeStyle style false position []).spans = m.settled.spans := by
    intro m' hquiet hinnermost position
    rw [hsettled]
    have hread := hnext.quiet.trans hquiet
    have hkind := hinnermost.trans hnext.fills.innermost
    by_cases hparagraph : m.innermost = .paragraph
    · obtain ⟨p, rest, hm⟩ := exists_within hparagraph
      have hbefore := hm.changeStyle style false 0 []
      have hafter := (hm.quiet hread hkind).changeStyle style false position []
      rw [hbefore.spans_eq, hafter.spans_eq, reopening_changeStyle, reopening_changeStyle,
        insidePre_changeStyle, insidePre_changeStyle]
      exact congrArg₂ (Spans.mk _) (congrArg Spans.reopening hread.spans)
        (congrArg Spans.insidePre hread.spans)
    · have hbefore := (Quiet.refl m).changeStyle hparagraph style false 0 []
      have hafter := hread.changeStyle (hkind ▸ hparagraph) style false position []
      exact hafter.spans.trans hbefore.spans.symm
  dsimp only
  split
  · have hquiet := (Quiet.refl next.2).addInWord next.1
    have hfills := (Fills.refl next.2).addInWord (hnext.fills.listsText.2 htext) hknown
    exact .quiet (hended { next.2.addInWord next.1 with phase := .readWord style }
      ⟨hquiet.spans, hquiet.begun⟩ hfills.innermost 0) (hbegun.trans hquiet.begun)
  · refine .quiet (hended next.2 (.refl _) rfl next.1.start) (hbegun.trans ?_)
    exact (begun_changeStyle ..).ge

/-- What the token does to the styles of the innermost construct, a paragraph. -/
def styleMoveOf (m : Machine) (token : Token) : StyleMove :=
  match Command.tagStyle? token.value with
  | none => .stays
  | some style =>
    if token.kind == .startTag && !token.flags.selfClosing then
      .enters { style, tag := token.value, attributes := token.attributes }
    else if token.kind == .endTag then
      match m.ownStyle? with
      | some entered => if entered.style == style then .leaves entered else .stays
      | none => .stays
    else .stays

theorem styleMoveOf_stays {token : Token} (hstart : token.kind ≠ .startTag)
    (hend : token.kind ≠ .endTag) : m.styleMoveOf token = .stays := by
  unfold styleMoveOf
  split
  · rfl
  · simp [hstart, hend]

/-- A start tag enters its style, unless it closes itself. -/
theorem styleStart_styles (hm : m.innermost = .paragraph) {token : Token}
    (htoken : token.kind = .startTag) {style : Style}
    (hstyle : Command.tagStyle? token.value = some style) :
    StyleStep m (m.styleStart token style) (m.styleMoveOf token) := by
  obtain ⟨p, rest, hm⟩ := exists_within hm
  have hstart := hm.changeStyle style true token.start token.attributes
  unfold styleStart styleMoveOf
  rw [hstyle, htoken]
  dsimp only
  cases token.flags.selfClosing with
  | true =>
      have hclosed := hstart.changeStyle style false token.stop []
      have hspans := hclosed.spans_eq
      rw [reopening_changeStyle, reopening_changeStyle, insidePre_changeStyle,
        insidePre_changeStyle] at hspans
      exact .brackets style hm hspans (by simp [Machine.read])
  | false =>
      have hentered := hstart.enterStyle
        { style, tag := token.value, attributes := token.attributes }
      have hspans := hentered.spans_eq
      rw [reopening_enterStyle, reopening_changeStyle, insidePre_enterStyle,
        insidePre_changeStyle] at hspans
      exact .enters { style, tag := token.value, attributes := token.attributes } hm hspans
        (by simp [Machine.read])

/-- The white space before an end tag is dropped, unless it counts. -/
theorem Within.trimBefore {p : OpenParagraph} {rest : List OpenParagraph} (hm : m.Within p rest)
    (keeps : Bool) :
    let trimmed := if keeps then m else m.setChildren (dropTrailingSpace m.children)
    trimmed.Within p rest ∧ trimmed.reopening = m.reopening ∧
      trimmed.insidePre = m.insidePre ∧ trimmed.begun = m.begun := by
  cases keeps with
  | true => exact ⟨hm, rfl, rfl, rfl⟩
  | false => exact ⟨hm.trim, reopening_modifyTop .., insidePre_modifyTop .., begun_modifyTop ..⟩

/-- An end tag leaves the style entered last in the paragraph, if that is its own. -/
theorem styleEnd_styles (hm : m.innermost = .paragraph) {token : Token}
    (htoken : token.kind = .endTag) {style : Style}
    (hstyle : Command.tagStyle? token.value = some style) :
    StyleStep m (m.styleEnd token style) (m.styleMoveOf token) := by
  obtain ⟨p, rest, hm⟩ := exists_within hm
  have hown := hm.ownStyle?_eq
  have hproblem : ∀ problem : Problem, problem.isFoundReading →
      StyleStep m (m.report token problem).read .stays :=
    fun problem h => (readsOn_report m token problem h).quiet.read
  unfold styleEnd styleMoveOf
  rw [hstyle, htoken]
  by_cases hmatch : m.ownStyle?.any (·.style == style)
  · obtain ⟨entered, hentered, hsame⟩ := (Option.any_eq_true ..).1 hmatch
    obtain rfl : entered.style = style := by simpa using hsame
    obtain ⟨styles, hstyles⟩ := List.head?_eq_some_iff.1 (hown.symm.trans hentered)
    have hleave := hm.leaveStyle
    rw [hstyles, List.tail_cons] at hleave
    obtain ⟨htrim, hreopening, hmode, hbegun⟩ :=
      hleave.trimBefore (m.leaveStyle.insidePre && entered.style != .preformatted)
    have hleft : m.leaveStyle.reopening = m.reopening ∧ m.leaveStyle.insidePre = m.insidePre ∧
        m.leaveStyle.begun = m.begun :=
      ⟨reopening_modifyTop .., insidePre_modifyTop .., begun_modifyTop ..⟩
    rw [if_pos hmatch, hentered]
    dsimp only
    rw [if_pos hsame]
    generalize (if m.leaveStyle.insidePre && entered.style != .preformatted then m.leaveStyle
      else _ : Machine) = trimmed at htrim hreopening hmode hbegun ⊢
    have hchange := htrim.changeStyle entered.style false token.start []
    have hspans := hchange.spans_eq
    rw [reopening_changeStyle, hreopening, hleft.1, insidePre_changeStyle, hmode, hleft.2.1]
      at hspans
    have hcount : m.begun ≤ (trimmed.changeStyle entered.style false token.start []).begun := by
      rw [begun_changeStyle, hbegun, hleft.2.2]
    -- leaving preformatted text ends the mode as well
    by_cases hpre : entered.style == .preformatted
    · have hentered : entered.isPreformatted = true := hpre
      rw [if_pos hpre]
      refine .leaves entered styles hm hstyles ?_ hcount
      rw [hentered]
      exact congrArg (fun s => Spans.mk s.paragraphs s.reopening false) hspans
    · have hentered : entered.isPreformatted = false := Bool.eq_false_iff.2 hpre
      rw [if_neg hpre]
      refine .leaves entered styles hm hstyles ?_ hcount
      rw [hentered]
      exact hspans
  · have hmove : (match m.ownStyle? with
        | some entered => if entered.style == style then StyleMove.leaves entered else .stays
        | none => .stays) = .stays := by
      cases hownStyle : m.ownStyle? with
      | none => rfl
      | some entered =>
          rw [hownStyle] at hmatch
          exact if_neg hmatch
    rw [if_neg hmatch]
    simp only [hmove]
    split <;> exact hproblem _ rfl

end Machine

end DocMarkup.Parser
