import Mathlib.Data.List.Intervals
import DocMarkup.Proofs.Parser.Elements

/-!
Styles in constructs of text: links, headers, captions and terms.  A tag of a style in them is
taken as it stands, and so are a style that is never left and an end that nothing began.  So their
changes of style are those of the tags read, put between them the styled words; they nest exactly
when the tags do.
-/

namespace DocMarkup.Parser

/-- Constructs of text have no other construct inside. -/
theorem not_mayHold_of_holdsText {kind : Kind} (h : holdsText kind) (c : Construct) :
    mayHold kind c.kind = false := by
  cases kind <;> first
    | (cases h; done)
    | (cases c <;> rfl)

/-- A construct of text begins with nothing in it. -/
theorem BeginsTop.children_eq_nil {stack outer : List Frame} {f : Frame}
    (h : BeginsTop stack (f :: outer))
    (hkind : holdsText f.construct.kind) : f.children = [] := by
  cases h with
  | intro parent parent' outer c children id h =>
      cases h with
      | fresh => rfl
      | sectionAfter | parametersAfter => cases hkind

/-- What another construct stood in is no construct of text. -/
theorem LeavesTop.not_holdsText {stack outer : List Frame} {f : Frame}
    (h : LeavesTop stack (f :: outer))
    (hm : Stacked stack) : holdsText f.construct.kind = false := by
  cases h with
  | intro inner around _ rest h =>
      cases hm with
      | cons _ _ _ _ hholds _ =>
          rw [h.keeps.1]
          by_contra hkind
          rw [not_mayHold_of_holdsText (by simpa using hkind)] at hholds
          cases hholds

theorem not_holdsText_opensFor {kind opened : Kind} {token : Token}
    (h : opensFor kind token = some opened) : holdsText opened = false := by
  unfold opensFor at h
  split at h <;> (try split at h) <;> cases h <;> rfl

theorem styleMarks_toNode_of_text {f : Frame} (hkind : holdsText f.construct.kind) :
    f.toNode.styleMarks = (f.children.filterMap Node.styleMark?).reverse := by
  rw [← List.filterMap_reverse]
  cases hconstruct : f.construct <;> first
    | (rw [hconstruct] at hkind; cases hkind; done)
    | (rw [Frame.toNode, hconstruct]; rfl)

theorem content_toNode_of_text {f : Frame} (hkind : holdsText f.construct.kind)
    (children : List Node) : ({ f with children } : Frame).toNode.content = f.toNode.content := by
  cases hconstruct : f.construct <;> first
    | (rw [hconstruct] at hkind; cases hkind; done)
    | (rw [Frame.toNode, Frame.toNode, hconstruct]; rfl)

/-- The change of style that a token makes in a construct of text. -/
def styleTagOf (construct : Construct) (token : Token) : Option StyleMark :=
  if Machine.endsInline construct token then none
  else if token.kind == .startTag || token.kind == .endTag then
    ((Command.tagStyle? token.value).filter Machine.isInlineStyle).map fun style =>
      (style, token.kind == .startTag)
  else none

namespace Machine

/-- The change of style that the next step makes if the innermost construct is one of text. -/
def styleTag? (m : Machine) : Option StyleMark :=
  match m.stack, m.phase with
  | f :: _, .take token => styleTagOf f.construct token
  | _, _ => none

theorem styleTag?_of_take {m : Machine} {f : Frame} {outer : List Frame}
    (hstack : m.stack = f :: outer) {token : Token} (hphase : m.phase = .take token) :
    m.styleTag? = styleTagOf f.construct token := by
  rw [styleTag?, hstack, hphase]

theorem styleTag?_eq_none {m : Machine} (h : ∀ token, m.phase ≠ .take token) :
    m.styleTag? = none := by
  unfold styleTag?
  split
  · next hphase => exact absurd hphase (h _)
  · rfl

/-! ### Writing -/

/-- The innermost construct is `f` but for its children, among which styles change as `marks` says,
the last change first; around it are `outer`. -/
def Writes (m : Machine) (f : Frame) (outer : List Frame) (marks : List StyleMark) : Prop :=
  ∃ children, m.stack = { f with children } :: outer ∧
    children.filterMap Node.styleMark? = marks

variable {m m' : Machine} {f : Frame} {outer : List Frame} {marks : List StyleMark}

namespace Writes

theorem congr (h : m.Writes f outer marks) (hstack : m'.stack = m.stack) :
    m'.Writes f outer marks := by
  obtain ⟨children, hm, hmarks⟩ := h
  exact ⟨children, hstack.trans hm, hmarks⟩

theorem reads (h : m.Writes f outer marks) (h' : ReadsOn m m') : m'.Writes f outer marks :=
  h.congr h'.stack

theorem append (h : m.Writes f outer marks) {n : Node} (hn : n.styleMark? = none) :
    (m.append n).Writes f outer marks := by
  obtain ⟨children, hm, hmarks⟩ := h
  refine ⟨n :: children, ?_, ?_⟩
  · rw [append_eq hm]
  · rw [List.filterMap_cons_none hn, hmarks]

theorem changeStyle (h : m.Writes f outer marks) (style : Style) (enable : Bool)
    (position : Nat) (attributes : Attributes) :
    (m.changeStyle style enable position attributes).Writes f outer ((style, enable) :: marks) := by
  obtain ⟨children, hm, hmarks⟩ := h
  refine ⟨.leaf (.styleChange { style, enable, position, attributes }) :: children, ?_, ?_⟩
  · rw [Machine.changeStyle, append_eq hm]
  · rw [← hmarks]
    rfl

theorem addWord (h : m.Writes f outer marks) (word : Text) :
    (m.addWord word).Writes f outer marks :=
  addWord_induction (P := fun m => m.Writes f outer marks)
    (fun target h => h.reads (readsOn_resolve _ target))
    (fun hn h => h.append hn.styleMark?_eq_none) h word

theorem addInWord (h : m.Writes f outer marks) (token : Token) :
    (m.addInWord token).Writes f outer marks := by
  unfold Machine.addInWord
  split
  · exact h.addWord token.value
  · exact h.append rfl
  · exact h.append rfl

/-- A word that is being read counts as ended. -/
theorem readWord (h : m.Writes f outer marks) (style : Style) :
    ({ m with phase := .readWord style } : Machine).settled.Writes f outer
      ((style, false) :: marks) := by
  have hphase : ({ m with phase := .readWord style } : Machine).Writes f outer marks := h
  exact hphase.changeStyle style false 0 []

/-- Ending the word that is being read changes the children only. -/
theorem stack_of_settled (h : m.settled.Writes f outer marks) :
    ∃ children, m.stack = { f with children } :: outer := by
  obtain ⟨children, hsettled, -⟩ := h
  cases hstack : m.stack with
  | nil =>
      have hframes := frames_settled m
      rw [hstack, hsettled] at hframes
      cases hframes
  | cons g rest =>
      unfold settled at hsettled
      split at hsettled
      · rw [Machine.changeStyle, append_eq hstack] at hsettled
        obtain ⟨htop, rfl⟩ := List.cons.inj hsettled
        refine ⟨g.children, ?_⟩
        obtain ⟨hconstruct, -, hid, hmade⟩ := Frame.mk.inj htop
        rw [← hconstruct, ← hid, ← hmade]
      · exact ⟨children, hstack ▸ hsettled⟩

end Writes

/-- What a step does to a construct of text: it goes on with the tag that is taken or with a styled
word, or it ends. -/
inductive TextStep (m : Machine) (f : Frame) (outer : List Frame) (marks : List StyleMark)
    (tag? : Option StyleMark) (m' : Machine) : Prop
  | goesOn (more : List StyleMark) (hmore : WithPairs tag?.toList more)
      (h : m'.settled.Writes f outer (more.reverse ++ marks))
  | ends (children : List Node) (hmarks : children.filterMap Node.styleMark? = marks)
      (htag : tag? = none) (hfills : FillsTop m.stack ({ f with children } :: outer))
      (h : LeavesTop ({ f with children } :: outer) m'.stack)

/-- Nothing that concerns styles is taken. -/
theorem Writes.goesOn (h : m'.Writes f outer marks) (hphase : ∀ style, m'.phase ≠ .readWord style) :
    TextStep m f outer marks none m' :=
  .goesOn [] .nil (by rwa [settled_eq hphase])

/-! ### Handlers -/

theorem closeInline_text (hm : Stacked m.stack) (h : m.Writes f outer marks)
    (hkind : holdsText f.construct.kind) (outcome : Outcome) :
    TextStep m f outer marks none (m.closeInline outcome) := by
  obtain ⟨children, hstack, hmarks⟩ := h
  have hinnermost : holdsText m.innermost := by
    rw [innermost, hstack]
    exact hkind
  obtain ⟨m₁, hfills, ⟨words, hwords, hadds⟩, hleaves, -⟩ :=
    exists_closeInline hm hinnermost outcome
  have hnone : words.filterMap Node.styleMark? = [] := by
    refine List.filterMap_eq_nil_iff.2 fun n hn => Node.styleMark?_eq_none ?_
    rw [hwords n hn]
    rintro ⟨⟩
  have hfilled := hfills.stack
  have hleft := hleaves.stack
  rw [stack_trim, hstack] at hadds
  rw [hadds] at hfilled hleft
  refine .ends (words ++ dropTrailingSpace children) ?_ rfl hfilled hleft
  rw [List.filterMap_append, hnone, styleMarks_dropTrailingSpace, hmarks, List.nil_append]

/-- A styled word begins and, as far as styles go, ends with its first part. -/
theorem styledWord_text (h : m.Writes f outer marks) (token : Token) (style : Style) :
    TextStep m f outer marks none (m.styledWord token style) := by
  have hskip := readsOn_scanner m m.scanner.advances_skipHorizontalSpace
  have hnext := h.reads (hskip.trans (readsOn_next _))
  unfold styledWord
  dsimp only
  generalize ({ m with scanner := m.scanner.skipHorizontalSpace } : Machine).next = next
    at hnext ⊢
  split
  · have hword := (hnext.changeStyle style true token.start []).addInWord next.1
    exact .goesOn [(style, true), (style, false)] (.pair style .nil) (hword.readWord style)
  · have hreport := hnext.reads
      (readsOn_report next.2 token (.missingStyledWord token.value) rfl)
    exact Writes.goesOn hreport (by rintro style ⟨⟩)

/-- A word that is being read goes on, or ends; it counts as ended before and after. -/
theorem continueWord_text {style : Style} (hphase : m.phase = .readWord style)
    (h : m.settled.Writes f outer marks) :
    TextStep m f outer marks none (m.continueWord style) := by
  obtain ⟨g, hstack⟩ := h.stack_of_settled
  obtain ⟨children, hsettled, hmarks⟩ := h
  rw [settled, hphase] at hsettled
  dsimp only at hsettled
  rw [Machine.changeStyle, append_eq hstack] at hsettled
  obtain rfl : _ :: g = children := congrArg (fun stack => (stack.head?.map Frame.children).getD [])
    hsettled
  have hword : m.Writes f outer (g.filterMap Node.styleMark?) := ⟨g, hstack, rfl⟩
  have hnext := hword.reads (readsOn_next m)
  obtain rfl : (style, false) :: g.filterMap Node.styleMark? = marks := hmarks
  unfold continueWord
  dsimp only
  split
  · exact .goesOn [] .nil ((hnext.addInWord m.next.1).readWord style)
  · refine Writes.goesOn (hnext.changeStyle style false m.next.1.start []) ?_
    rintro style ⟨⟩

/-- The tag of a style, a line break or any other tag. -/
theorem inlineTag_text (h : m.Writes f outer marks) {token : Token}
    (hbreak : TextStep m f outer marks none (m.append (.leaf .lineBreak)).read)
    (hback : TextStep m f outer marks none (m.closeInline (.handBack token)))
    (style? : Option Style) :
    TextStep m f outer marks
      ((style?.filter isInlineStyle).map fun style => (style, token.kind == .startTag))
      (match style?.filter isInlineStyle with
        | some style =>
          (m.changeStyle style (token.kind == .startTag) token.start token.attributes).read
        | none =>
          if token.isStartTag ["br"] then (m.append (.leaf .lineBreak)).read
          else m.closeInline (.handBack token)) := by
  cases style?.filter isInlineStyle with
  | none =>
      dsimp only [Option.map_none]
      split
      · exact hbreak
      · exact hback
  | some style =>
      refine .goesOn [(style, token.kind == .startTag)] (.mark _ .nil) ?_
      rw [settled_eq (by rintro style ⟨⟩)]
      exact h.changeStyle ..

/-- What becomes of a token in a construct of text. -/
theorem takeInline_text (hm : Stacked m.stack) (h : m.Writes f outer marks)
    (hkind : holdsText f.construct.kind) (token : Token) :
    TextStep m f outer marks (styleTagOf f.construct token) (m.takeInline f.construct token) := by
  have hclose := closeInline_text hm h hkind
  have hadd : ∀ n : Node, n.styleMark? = none →
      TextStep m f outer marks none (m.append n).read := fun n hn =>
    Writes.goesOn (h.append hn) (by rintro style ⟨⟩)
  have hword : TextStep m f outer marks none (m.addInWord token).read :=
    Writes.goesOn (h.addInWord token) (by rintro style ⟨⟩)
  have hbreak := hadd (.leaf .lineBreak) rfl
  have htag := inlineTag_text h hbreak (hclose (.handBack token)) (Command.tagStyle? token.value)
  unfold takeInline styleTagOf
  split
  · exact hclose .complete
  · generalize token.kind = kind at htag ⊢
    cases kind with
    | startTag | endTag => exact htag
    | endOfText | newParagraph | listItem | endList | keyword | unknown => exact hclose _
    | word | symbol | url => exact hword
    | whiteSpace =>
        change TextStep m f outer marks none _
        dsimp only
        split
        · exact Writes.goesOn h (by rintro style ⟨⟩)
        · exact hadd (.leaf (.whiteSpace token.text)) rfl
    | command =>
        change TextStep m f outer marks none _
        dsimp only
        split
        · exact styledWord_text h token _
        · exact hbreak
        · exact hclose _

theorem dispatch_of_holdsText (hstack : m.stack = f :: outer) (hkind : holdsText f.construct.kind)
    (token : Token) : m.dispatch token = m.takeInline f.construct token := by
  unfold dispatch
  rw [hstack]
  dsimp only
  cases hconstruct : f.construct <;> first
    | rfl
    | (rw [hconstruct] at hkind; cases hkind)

/-- What a step does while a construct of text is the innermost one. -/
theorem step_text (hm : m.Ready) (h : m.settled.Writes f outer marks)
    (hkind : holdsText f.construct.kind) : TextStep m f outer marks m.styleTag? m.step := by
  obtain ⟨children, hstack⟩ := h.stack_of_settled
  have hinnermost : m.innermost = f.construct.kind :=
    innermost_eq (f := { f with children }) hstack
  have hnext := readsOn_next m
  unfold step
  cases hphase : m.phase with
  | read =>
      rw [settled_eq (by simp [hphase])] at h
      rw [styleTag?_eq_none (by simp [hphase])]
      have hread := h.reads hnext
      exact Writes.goesOn hread (by rintro style ⟨⟩)
  | readSolid =>
      rw [settled_eq (by simp [hphase])] at h
      rw [styleTag?_eq_none (by simp [hphase])]
      have hread := h.reads hnext
      dsimp only
      split <;> exact Writes.goesOn hread (by rintro style ⟨⟩)
  | readWord style =>
      rw [styleTag?_eq_none (by simp [hphase])]
      exact continueWord_text hphase h
  | take token =>
      rw [settled_eq (by simp [hphase])] at h
      rw [styleTag?_of_take hstack hphase]
      dsimp only
      rw [dispatch_of_holdsText hstack hkind]
      exact takeInline_text hm.stacked h hkind token
  | ended outcome =>
      obtain ⟨c, hholds⟩ := hm.holding outcome hphase
      rw [hinnermost, not_mayHold_of_holdsText hkind] at hholds
      cases hholds
  | finished =>
      rw [hinnermost.symm.trans (hm.finished hphase)] at hkind
      cases hkind

end Machine

/-! ### Turns -/

namespace Machine

variable {P : Node → Prop} {ends : Outcome → Prop}

theorem Goes.shows (hP : OfSteps P) (h : Goes m ends m') (hsound : SoundStack m.stack)
    (hs : ∀ f ∈ m.stack, f.Shows P) :
    (∀ f ∈ m'.stack, f.Shows P) ∨ ∃ m₁, Fills m m₁ ∧ Leaves m₁ m' := by
  cases h with
  | reads h => exact .inl (h.stack.shows hP hsound hs)
  | scans token h => exact .inl (h.stack.shows hP hsound hs)
  | opens h₁ h₂ h =>
      have hsound₁ := h₁.stack.sound hsound
      have hs₂ := h₂.stack.shows hP (h₁.stack.shows hP hsound hs)
      exact .inl (h.stack.shows hP (h₂.stack.sound hsound₁) hs₂)
  | opensTwo h₁ h₂ h₃ h₄ h =>
      have hsound₂ := h₂.stack.sound (h₁.stack.sound hsound)
      have hsound₄ := h₄.stack.sound (h₃.stack.sound hsound₂)
      have hs₂ := h₂.stack.shows hP (h₁.stack.shows hP hsound hs)
      have hs₄ := h₄.stack.shows hP (h₃.stack.shows hP hsound₂ hs₂)
      exact .inl (h.stack.shows hP hsound₄ hs₄)
  | leaves outcome h₁ h => exact .inr ⟨_, h₁, h⟩

/-- A turn that ends no construct leaves whole what was read so far. -/
theorem Turn.shows (hP : OfSteps P) (h : Turn m m') (hsound : SoundStack m.stack)
    (hs : ∀ f ∈ m.stack, f.Shows P) :
    (∀ f ∈ m'.stack, f.Shows P) ∨ ∃ m₁, Fills m m₁ ∧ Leaves m₁ m' := by
  cases h with
  | scans token hphase h => exact .inl (h.stack.shows hP hsound hs)
  | reads hphase h => exact .inl (h.stack.shows hP hsound hs)
  | takes token hphase htoken h => exact h.shows hP hsound hs
  | opensFor token hphase h₁ h₂ h =>
      have hsound₂ := h₂.stack.sound (h₁.stack.sound hsound)
      have hs₂ := h₂.stack.shows hP (h₁.stack.shows hP hsound hs)
      exact .inl (h.stack.shows hP hsound₂ hs₂)
  | resumes outcome hphase houtcome h => exact h.shows hP hsound hs
  | retakes token hphase h => exact .inl (h.stack.shows hP hsound hs)
  | closes hphase h₁ h => exact .inr ⟨_, h₁, h⟩
  | finishes hphase hkind => exact .inl hs

theorem not_fills_of_text (hbefore : holdsText m.innermost = false) (hstack : m'.stack = f :: outer)
    (hkind : holdsText f.construct.kind) : ¬ Fills m m' := by
  intro h
  have hinnermost : m'.innermost = f.construct.kind := innermost_eq hstack
  rw [← hinnermost, h.innermost, hbefore] at hkind
  cases hkind

/-- A construct that ends stood in no construct of text. -/
theorem Leaves.not_text (h : Leaves m m') (hm : Stacked m.stack) (hstack : m'.stack = f :: outer) :
    holdsText f.construct.kind = false :=
  LeavesTop.not_holdsText (hstack ▸ h.stack) hm

theorem Goes.begins_text (h : Goes m ends m') (hm : Stacked m.stack)
    (hbefore : holdsText m.innermost = false) (hstack : m'.stack = f :: outer)
    (hkind : holdsText f.construct.kind) : f.children = [] ∧ m'.phase.readsAnew := by
  have hfills := not_fills_of_text hbefore hstack hkind
  cases h with
  | reads h => exact absurd h hfills
  | scans token h => exact absurd h hfills
  | opens h₁ h₂ h hfilled hphase hsame =>
      have hbegins := h₂.stack
      rw [← hsame, hstack] at hbegins
      exact ⟨hbegins.children_eq_nil hkind, hphase⟩
  | opensTwo h₁ h₂ h₃ h₄ h hfilled hphase hsame =>
      have hbegins := h₄.stack
      rw [← hsame, hstack] at hbegins
      exact ⟨hbegins.children_eq_nil hkind, hphase⟩
  | leaves outcome h₁ h =>
      rw [h.not_text (h₁.stacked hm) hstack] at hkind
      cases hkind

/-- A construct of text that a turn leads into has just begun. -/
theorem Turn.begins_text (h : Turn m m') (hm : Stacked m.stack)
    (hbefore : holdsText m.innermost = false) (hstack : m'.stack = f :: outer)
    (hkind : holdsText f.construct.kind) : f.children = [] ∧ m'.phase.readsAnew := by
  have hfills := not_fills_of_text hbefore hstack hkind
  cases h with
  | scans token hphase h => exact absurd h hfills
  | reads hphase h => exact absurd h hfills
  | takes token hphase htoken h => exact h.begins_text hm hbefore hstack hkind
  | opensFor token hphase h₁ h₂ h hphase' hopened =>
      have hinnermost : m'.innermost = f.construct.kind := innermost_eq hstack
      rw [← hinnermost, not_holdsText_opensFor hopened] at hkind
      cases hkind
  | resumes outcome hphase houtcome h => exact h.begins_text hm hbefore hstack hkind
  | retakes token hphase h => exact absurd h hfills
  | closes hphase h₁ h =>
      rw [h.not_text (h₁.stacked hm) hstack] at hkind
      cases hkind
  | finishes hphase hroot => exact absurd ((Fills.refl m).phase .finished) hfills

end Machine

/-! ### Comments -/

variable (p : Parser) (comment : Comment)

/-- The changes of style that the tags taken in the steps from `i` up to `j` make. -/
def styleTags (i j : Nat) : List StyleMark :=
  (List.Ico i j).filterMap fun k => (p.after comment k).styleTag?

theorem styleTags_succ {i j : Nat} (h : i ≤ j) :
    p.styleTags comment i (j + 1) =
      p.styleTags comment i j ++ (p.after comment j).styleTag?.toList := by
  rw [styleTags, List.Ico.succ_top h, List.filterMap_append]
  congr 1

/-- From the step `i`, where it has nothing in it yet, to the step `j` the construct `f` is the
innermost one, but for its children; `outer` are those around it. -/
structure ReadsText (f : Frame) (outer : List Frame) (i j : Nat) : Prop where
  le : i ≤ j
  begins : (p.after comment i).stack = { f with children := [] } :: outer
  goesOn : ∀ k, i ≤ k → k ≤ j → ∃ children, (p.after comment k).stack = { f with children } :: outer

/-- A construct of text with changes of style was read in some steps, and its changes of style are
those of the tags taken in them, with styled words put in between. -/
def CopiesTags (n : Node) : Prop :=
  holdsText n.kind → n.styleMarks ≠ [] →
    ∃ f outer i j, p.ReadsText comment f outer i j ∧ n.content = f.toNode.content ∧
      (p.after comment (j + 1)).stack.length = outer.length ∧
      WithPairs (p.styleTags comment i j) n.styleMarks

theorem copiesTags_ofMade : OfMade (p.CopiesTags comment) where
  ignores := by
    intro n m hmatches _ _ hchildren h hkind hmarks
    have hcontent : m.content = n.content := by
      rcases hmatches.content with hcontent | hmarked
      · exact hcontent
      · rw [hmatches.kind] at hkind
        generalize n.kind = kind at hkind hmarked
        cases kind <;> first | (cases hkind; done) | cases hmarked
    rw [Node.styleMarks_eq_of_matches hchildren] at hmarks ⊢
    rw [hcontent]
    exact h (hmatches.kind ▸ hkind) hmarks
  bare := fun _ _ _ hmarks => absurd rfl hmarks
  text := by
    intro content text htext _ hmarks
    refine absurd (List.filterMap_eq_nil_iff.2 fun n hn => ?_) hmarks
    obtain ⟨content, rfl, hplain, -⟩ := htext n hn
    refine Node.styleMark?_eq_none ?_
    show content.kind ≠ .styleChange
    rintro hkind
    rw [hkind] at hplain
    cases hplain
  keyword := fun _ _ _ _ hkind => by cases hkind

/-- What holds after each step: constructs of text that have ended copied their tags, and one that
is open does so far. -/
structure CopiesSoFar (n : Nat) : Prop where
  shows : ∀ f ∈ (p.after comment n).stack, f.Shows (p.CopiesTags comment)
  text : ∀ f outer, (p.after comment n).stack = f :: outer → holdsText f.construct.kind →
    ∃ i more, p.ReadsText comment f outer i n ∧ WithPairs (p.styleTags comment i n) more ∧
      (p.after comment n).settled.Writes f outer more.reverse

variable {p comment} {n : Nat}

/-- Outside text a step ends no construct of text, and may begin one. -/
theorem CopiesSoFar.outside (h : p.CopiesSoFar comment n)
    (hkind : holdsText (p.after comment n).innermost = false) :
    p.CopiesSoFar comment (n + 1) := by
  have hready := after_ready p comment n
  have hsound := (after_conforms p comment n).sound
  have hP := copiesTags_ofMade p comment
  by_cases hfinished : (p.after comment n).phase = .finished
  · have hsame : p.after comment (n + 1) = p.after comment n := by
      rw [after_succ, Machine.step, hfinished]
    refine ⟨hsame ▸ h.shows, fun f outer hstack htext => ?_⟩
    rw [hsame] at hstack
    rw [Machine.innermost, hstack] at hkind
    exact absurd htext (by simpa using hkind)
  · have hturn := Machine.step_turn hready hfinished
    rw [← after_succ] at hturn
    refine ⟨?_, fun f outer hstack htext => ?_⟩
    · obtain hshows | ⟨m₁, hfills, hleaves⟩ := hturn.shows hP.ofSteps hsound h.shows
      · exact hshows
      · refine hleaves.stack.shows hP (hfills.stack.sound hsound) (fun g hg htext => ?_)
          (hfills.stack.shows hP.ofSteps hsound h.shows)
        have hinnermost := hfills.innermost
        rw [Machine.innermost, hg] at hinnermost
        rw [← hinnermost, Option.map_some, Option.getD_some, ← g.kind_toNode, htext] at hkind
        cases hkind
    · obtain ⟨hchildren, hphase⟩ := hturn.begins_text hready.stacked hkind hstack htext
      have hf : ({ f with children := [] } : Frame) = f := by rw [← hchildren]
      refine ⟨n + 1, [], ⟨le_rfl, hf ▸ hstack, fun k hk hk' => ?_⟩, ?_, ?_⟩
      · obtain rfl := Nat.le_antisymm hk' hk
        exact ⟨f.children, hstack⟩
      · rw [styleTags, List.Ico.self_empty]
        exact .nil
      · rw [Machine.settled_eq fun style hstyle => by rw [hstyle] at hphase; cases hphase]
        exact ⟨f.children, hstack, by rw [hchildren]; rfl⟩

/-- What was read so far is read on. -/
theorem ReadsText.succ {f : Frame} {outer : List Frame} {i : Nat}
    (h : p.ReadsText comment f outer i n) {children : List Node}
    (hstack : (p.after comment (n + 1)).stack = { f with children } :: outer) :
    p.ReadsText comment f outer i (n + 1) := by
  refine ⟨Nat.le_succ_of_le h.le, h.begins, fun k hk hk' => ?_⟩
  obtain hk' | rfl := Nat.le_succ_iff.1 hk'
  · exact h.goesOn k hk hk'
  · exact ⟨children, hstack⟩

/-- In a construct of text a step reads on, or ends it. -/
theorem CopiesSoFar.inside (h : p.CopiesSoFar comment n)
    (hkind : holdsText (p.after comment n).innermost) : p.CopiesSoFar comment (n + 1) := by
  have hready := after_ready p comment n
  have hsound := (after_conforms p comment n).sound
  have hP := copiesTags_ofMade p comment
  obtain ⟨f, outer, hstack, hinnermost⟩ := Machine.exists_stack hready.stacked
  rw [hinnermost] at hkind
  have hturn : (p.after comment n).Turn (p.after comment (n + 1)) := by
    rw [after_succ]
    refine Machine.step_turn hready fun hfinished => ?_
    rw [← hinnermost, hready.finished hfinished] at hkind
    cases hkind
  obtain ⟨i, more, hreads, hpairs, hwrites⟩ := h.text f outer hstack hkind
  have hstep := Machine.step_text hready hwrites hkind
  rw [← after_succ] at hstep
  cases hstep with
  | goesOn more' hmore' hwrites' =>
      obtain ⟨children, hstack'⟩ := hwrites'.stack_of_settled
      have hreads' := hreads.succ hstack'
      refine ⟨?_, fun g rest hg _ => ?_⟩
      · -- as many constructs are open as before, so none has ended
        refine (hturn.shows hP.ofSteps hsound h.shows).resolve_right ?_
        rintro ⟨m₁, hfills, hleaves⟩
        have hlength := hleaves.stack.length_eq
        rw [hfills.stack.length_eq, hstack, hstack', List.length_cons, List.length_cons] at hlength
        omega
      · rw [hstack'] at hg
        obtain ⟨rfl, rfl⟩ := List.cons.inj hg
        refine ⟨i, more ++ more', ⟨hreads'.le, hreads'.begins, hreads'.goesOn⟩, ?_, ?_⟩
        · rw [styleTags_succ p comment hreads.le]
          exact hpairs.append hmore'
        · rw [List.reverse_append]
          exact hwrites'
  | ends children hmarks htag hfills hleaves =>
      have hshows := hfills.shows hP.ofSteps hsound h.shows
      have hsound' := hfills.sound hsound
      have hlength := hleaves.length_eq
      refine ⟨hleaves.shows hP hsound' ?_ hshows, fun g rest hg htext => ?_⟩
      · rintro _ ⟨⟩ _ _
        have hmore : ({ f with children } : Frame).toNode.styleMarks = more := by
          rw [styleMarks_toNode_of_text (f := { f with children }) hkind, hmarks,
            List.reverse_reverse]
        refine ⟨f, outer, i, n, hreads, content_toNode_of_text hkind children, ?_, hmore ▸ hpairs⟩
        exact (Nat.succ.inj hlength).symm
      · rw [hg] at hleaves
        rw [hleaves.not_holdsText (hfills.stacked hready.stacked)] at htext
        cases htext

/-- After every step each construct of text has copied its tags. -/
theorem after_copiesSoFar (p : Parser) (comment : Comment) (n : Nat) :
    p.CopiesSoFar comment n := by
  induction n with
  | zero =>
      have hroot : ∀ f ∈ (p.after comment 0).stack, f = ⟨.root comment.singleLine, [], 0, none⟩ :=
        fun f hf => List.mem_singleton.1 hf
      refine ⟨fun f hf => ?_, fun f outer hstack htext => ?_⟩
      · rw [hroot f hf]
        exact Frame.shows_fresh (copiesTags_ofMade p comment).ofSteps (c := .root _) trivial 0 none
      · rw [hroot f (hstack ▸ List.mem_cons_self)] at htext
        cases htext
  | succ n ih =>
      cases hkind : holdsText (p.after comment n).innermost with
      | true => exact ih.inside hkind
      | false => exact ih.outside hkind

/-- Changes of style in constructs of text are copied from the tags read there, styled words put
between them; so they nest exactly when the tags do. -/
theorem parse_copies_style_tags (p : Parser) (comment : Comment) :
    ∀ n, (p.parse comment).1.root.Reaches n → holdsText n.kind → n.styleMarks ≠ [] →
      ∃ f outer i j, p.ReadsText comment f outer i j ∧ n.content = f.toNode.content ∧
        (p.after comment (j + 1)).stack.length = outer.length ∧
        WithPairs (p.styleTags comment i j) n.styleMarks ∧
        (Nested n.styleMarks ↔ Nested (p.styleTags comment i j)) := by
  intro n hn hkind hmarks
  obtain ⟨root, hstack, hroot⟩ :=
    (final_ready p comment).stack_of_finished (final_finished p comment)
  have hshows : ∀ f ∈ (p.final comment).stack, f.Shows (p.CopiesTags comment) :=
    (after_copiesSoFar p comment _).shows
  have hsound := (p.final_conforms comment).sound
  rw [hstack] at hshows hsound
  have hnode : p.CopiesTags comment root.toNode := by
    intro htext
    rw [root.kind_toNode, hroot] at htext
    cases htext
  have hwhole := (hshows root List.mem_cons_self).toNode (copiesTags_ofMade p comment)
    (hsound.frame List.mem_cons_self) hnode
  rw [parse_root, hstack] at hn
  obtain ⟨f, outer, i, j, hreads, hcontent, hlength, hpairs⟩ := hwhole n hn hkind hmarks
  exact ⟨f, outer, i, j, hreads, hcontent, hlength, hpairs, hpairs.nested_iff.symm⟩

theorem reaches_of_mem_paragraph {root n : Node}
    (h : n ∈ root.children.flatMap Node.children) : root.Reaches n := by
  obtain ⟨part, hpart, hn⟩ := List.mem_flatMap.1 h
  exact .head (Node.mem_parts.2 (.inr (.inr hpart)))
    (.single (Node.mem_parts.2 (.inr (.inr hn))))

/-- A header with a style and a styled word. -/
def styledHeader : Comment where
  text := units "<h1><b>x</b> \\e y</h1>"

theorem parse_copies_style_tags_of_header :
    ∃ n, (({} : Parser).parse styledHeader).1.root.Reaches n ∧ n.kind = .header ∧
      n.styleMarks = [(.bold, true), (.bold, false), (.italic, true), (.italic, false)] ∧
      ∃ f outer i j, ({} : Parser).ReadsText styledHeader f outer i j ∧
        n.content = f.toNode.content ∧
        (({} : Parser).after styledHeader (j + 1)).stack.length = outer.length ∧
        WithPairs (({} : Parser).styleTags styledHeader i j) n.styleMarks ∧
        (Nested n.styleMarks ↔ Nested (({} : Parser).styleTags styledHeader i j)) := by
  obtain ⟨n, hn, hkind, hmarks⟩ :
      ∃ n ∈ (({} : Parser).parse styledHeader).1.root.children.flatMap Node.children,
        n.kind = .header ∧
          n.styleMarks = [(.bold, true), (.bold, false), (.italic, true), (.italic, false)] := by
    decide +kernel
  have hreaches := reaches_of_mem_paragraph hn
  refine ⟨n, hreaches, hkind, hmarks, ?_⟩
  refine parse_copies_style_tags {} styledHeader n hreaches (by rw [hkind]; rfl) ?_
  rw [hmarks]
  exact List.cons_ne_nil _ _

/-- A header with the end of a style that nothing began. -/
def headerWithEnd : Comment where
  text := units "<h1>x</b></h1>"

/-- The end is taken as it stands. -/
theorem parse_takes_end_without_style :
    ∃ n, (({} : Parser).parse headerWithEnd).1.root.Reaches n ∧ n.kind = .header ∧
      n.styleMarks = [(.bold, false)] ∧ ¬ Nested n.styleMarks := by
  obtain ⟨n, hn, hkind, hmarks⟩ :
      ∃ n ∈ (({} : Parser).parse headerWithEnd).1.root.children.flatMap Node.children,
        n.kind = .header ∧ n.styleMarks = [(.bold, false)] := by
    decide +kernel
  refine ⟨n, reaches_of_mem_paragraph hn, hkind, hmarks, fun hnested => ?_⟩
  rw [hmarks] at hnested
  cases hnested

end DocMarkup.Parser
