import DocMarkup.Proofs.Parser.Run

/-!
Machines in comments that start on different lines.  The line a comment starts on is read for
reports only, so every handler does the same with another one and what it reports moves along.
-/

namespace DocMarkup

namespace Parser

/-- The same event in a comment that starts on another line.  What is reported stands below that
line by the line feeds before it. -/
def Event.startingAt (line : Option Number) (t : Text) : Event → Event
  | .reported d => .reported { d with line := (line.getD 1 + (Text.lineOf t d.start : Nat)).pred }
  | event => event

namespace Machine

/-- The same machine in a comment that starts on another line. -/
def startingAt (line : Option Number) (m : Machine) : Machine :=
  { m with
    setting := { m.setting with comment := { m.setting.comment with startLine := line } }
    journal := m.journal.map (Event.startingAt line m.setting.text) }

variable {line : Option Number} (m : Machine)

/-! ### What is asked of the machine -/

@[simp] theorem scanner_startingAt : (m.startingAt line).scanner = m.scanner := rfl

@[simp] theorem stack_startingAt : (m.startingAt line).stack = m.stack := rfl

@[simp] theorem phase_startingAt : (m.startingAt line).phase = m.phase := rfl

@[simp] theorem reopening_startingAt : (m.startingAt line).reopening = m.reopening := rfl

@[simp] theorem included_startingAt : (m.startingAt line).included = m.included := rfl

@[simp] theorem children_startingAt : (m.startingAt line).children = m.children := rfl

@[simp] theorem insidePre_startingAt : (m.startingAt line).insidePre = m.insidePre := rfl

@[simp] theorem around_startingAt : (m.startingAt line).around = m.around := rfl

@[simp] theorem container?_startingAt : (m.startingAt line).container? = m.container? := rfl

@[simp] theorem origin_startingAt : (m.startingAt line).origin = m.origin := rfl

@[simp] theorem outputFile_startingAt : (m.startingAt line).outputFile = m.outputFile := rfl

@[simp] theorem isDone_startingAt : (m.startingAt line).isDone = m.isDone := rfl

@[simp]
theorem insideSection_startingAt : (m.startingAt line).insideSection = m.insideSection := rfl

@[simp]
theorem onlySynthetic_startingAt : (m.startingAt line).onlySynthetic = m.onlySynthetic := rfl

@[simp] theorem ownStyle?_startingAt : (m.startingAt line).ownStyle? = m.ownStyle? := rfl

@[simp]
theorem innermostStyle?_startingAt : (m.startingAt line).innermostStyle? = m.innermostStyle? := rfl

@[simp]
theorem options_startingAt : (m.startingAt line).setting.options = m.setting.options := rfl

@[simp]
theorem relPath_startingAt : (m.startingAt line).setting.relPath = m.setting.relPath := rfl

@[simp]
theorem sectionBefore?_startingAt (type : SimpleSectionType) :
    (m.startingAt line).sectionBefore? type = m.sectionBefore? type := rfl

@[simp]
theorem parametersBefore?_startingAt (type : ParamSectionType) :
    (m.startingAt line).parametersBefore? type = m.parametersBefore? type := rfl

/-! ### What is done to the machine -/

@[simp] theorem read_startingAt : (m.startingAt line).read = m.read.startingAt line := rfl

@[simp]
theorem readSolid_startingAt : (m.startingAt line).readSolid = m.readSolid.startingAt line := rfl

@[simp]
theorem take_startingAt (token : Token) :
    (m.startingAt line).take token = (m.take token).startingAt line := rfl

@[simp]
theorem ended_startingAt (outcome : Outcome) :
    (m.startingAt line).ended outcome = (m.ended outcome).startingAt line := rfl

@[simp]
theorem report_startingAt (token : Token) (problem : Problem) :
    (m.startingAt line).report token problem = (m.report token problem).startingAt line := rfl

@[simp]
theorem reportUnclosed_startingAt (opener : Token) :
    (m.startingAt line).reportUnclosed opener = (m.reportUnclosed opener).startingAt line := rfl

@[simp]
theorem setInsidePre_startingAt (insidePre : Bool) :
    (m.startingAt line).setInsidePre insidePre = (m.setInsidePre insidePre).startingAt line := rfl

@[simp] theorem pop_startingAt : (m.startingAt line).pop = m.pop.startingAt line := rfl

@[simp]
theorem push_startingAt (c : Construct) :
    (m.startingAt line).push c = (m.push c).startingAt line := rfl

@[simp]
theorem modifyTop_startingAt (f : Frame → Frame) :
    (m.startingAt line).modifyTop f = (m.modifyTop f).startingAt line := by
  unfold modifyTop
  rw [stack_startingAt]
  cases m.stack <;> rfl

@[simp]
theorem setChildren_startingAt (children : List Node) :
    (m.startingAt line).setChildren children = (m.setChildren children).startingAt line :=
  modifyTop_startingAt ..

@[simp]
theorem append_startingAt (n : Node) :
    (m.startingAt line).append n = (m.append n).startingAt line :=
  modifyTop_startingAt ..

@[simp]
theorem appendAll_startingAt (nodes : List Node) :
    (m.startingAt line).appendAll nodes = (m.appendAll nodes).startingAt line := by
  induction nodes generalizing m with
  | nil => rfl
  | cons n rest ih =>
      rw [appendAll, List.foldl_cons, append_startingAt]
      exact ih (m.append n)

@[simp]
theorem attach_startingAt (f : Frame) :
    (m.startingAt line).attach f = (m.attach f).startingAt line := by
  unfold attach
  rw [stack_startingAt, append_startingAt]
  split <;> rfl

@[simp]
theorem close_startingAt (outcome : Outcome) :
    (m.startingAt line).close outcome = (m.close outcome).startingAt line := by
  unfold close
  rw [stack_startingAt]
  cases m.stack with
  | nil => rfl
  | cons f outer =>
      exact congrArg (ended · outcome) (attach_startingAt { m with stack := outer } f)

/-- A choice made before the comment was moved. -/
theorem ite_startingAt (c : Prop) [Decidable c] (m m' : Machine) :
    (if c then m.startingAt line else m'.startingAt line) =
      (if c then m else m').startingAt line :=
  (apply_ite (startingAt line) c m m').symm

/-- A choice between readers. -/
theorem pair_ite_startingAt {α : Type} (c : Prop) [Decidable c] (a a' : α) (m m' : Machine) :
    (if c then (a, m.startingAt line) else (a', m'.startingAt line)) =
      ((if c then (a, m) else (a', m')).1, (if c then (a, m) else (a', m')).2.startingAt line) := by
  split <;> rfl

/-! ### Readers -/

theorem argument_startingAt :
    (m.startingAt line).argument = (m.argument.1, m.argument.2.startingAt line) := rfl

theorem quoted_startingAt :
    (m.startingAt line).quoted = (m.quoted.1, m.quoted.2.startingAt line) := rfl

theorem restOfLine_startingAt :
    (m.startingAt line).restOfLine = (m.restOfLine.1, m.restOfLine.2.startingAt line) := rfl

theorem attached_startingAt (opening closing : Char) :
    (m.startingAt line).attached opening closing =
      ((m.attached opening closing).1, (m.attached opening closing).2.startingAt line) := rfl

theorem raw_startingAt (markers : List Text) :
    (m.startingAt line).raw markers = ((m.raw markers).1, (m.raw markers).2.startingAt line) := rfl

theorem next_startingAt : (m.startingAt line).next = (m.next.1, m.next.2.startingAt line) := by
  unfold next
  dsimp only [scanner_startingAt]
  split <;> rfl

theorem moveTo_startingAt (offset : Nat) :
    (m.startingAt line).moveTo offset = (m.moveTo offset).startingAt line := by
  unfold moveTo
  rw [scanner_startingAt]
  split <;> rfl

theorem resolve_startingAt (target : Text) :
    (m.startingAt line).resolve target =
      ((m.resolve target).1, (m.resolve target).2.startingAt line) := by
  unfold resolve
  rw [options_startingAt]
  split <;> rfl

theorem notePlain_startingAt (warn : Bool) (token : Token) :
    notePlain warn (m.startingAt line) token = (notePlain warn m token).startingAt line := by
  unfold notePlain
  dsimp only
  split <;> split <;> rfl

theorem plain_startingAt (warn : Bool) (t : Text) :
    (m.startingAt line).plain warn t =
      ((m.plain warn t).1, (m.plain warn t).2.startingAt line) := by
  unfold plain
  dsimp only
  generalize (Scanner.ofText t).readAll.1 = tokens
  refine congrArg (_, ·) ?_
  induction tokens generalizing m with
  | nil => rfl
  | cons token rest ih =>
      rw [List.foldl_cons, notePlain_startingAt]
      exact ih (notePlain warn m token)

/-! ### Paragraphs, words and styles -/

@[simp]
theorem enterStyle_startingAt (entered : OpenStyle) :
    (m.startingAt line).enterStyle entered = (m.enterStyle entered).startingAt line := by
  simp only [enterStyle, modifyTop_startingAt, setInsidePre_startingAt, ite_startingAt]

@[simp]
theorem openParagraph_startingAt :
    (m.startingAt line).openParagraph = m.openParagraph.startingAt line := by
  have hreopen : ∀ (styles : List OpenStyle) (m : Machine),
      styles.foldl (fun m entered =>
        (m.append (syntheticChange entered.style true m.scanner.last.start entered.attributes))
          |>.enterStyle entered) (m.startingAt line) =
      (styles.foldl (fun m entered =>
        (m.append (syntheticChange entered.style true m.scanner.last.start entered.attributes))
          |>.enterStyle entered) m).startingAt line := by
    intro styles
    induction styles with
    | nil => exact fun _ => rfl
    | cons entered styles ih =>
        intro m
        rw [List.foldl_cons, append_startingAt, enterStyle_startingAt]
        exact ih _
  exact hreopen m.reopening (({ m with reopening := [] } : Machine).push (.paragraph [] []))

@[simp]
theorem closeParagraph_startingAt (outcome : Outcome) :
    (m.startingAt line).closeParagraph outcome = (m.closeParagraph outcome).startingAt line := by
  unfold closeParagraph
  rw [stack_startingAt]
  cases m.stack with
  | nil => rfl
  | cons f outer =>
      dsimp only
      simp only [setInsidePre_startingAt, ite_startingAt]
      generalize (if f.construct.styles.any _ then _ else _ : Machine) = m₀
      rw [insidePre_startingAt, scanner_startingAt]
      generalize finishedChildren f.children _ _ _ = children
      split
      · rfl
      · exact congrArg (ended · outcome) (attach_startingAt
          { m₀ with stack := outer, reopening := m₀.reopening ++ f.construct.styles.reverse }
          { f with children := children })

@[simp]
theorem plainWord_startingAt (word : Text) :
    (m.startingAt line).plainWord word = (m.plainWord word).startingAt line :=
  append_startingAt ..

@[simp]
theorem addWord_startingAt (word : Text) :
    (m.startingAt line).addWord word = (m.addWord word).startingAt line := by
  simp only [addWord, insidePre_startingAt, options_startingAt, resolve_startingAt,
    plainWord_startingAt]
  split
  · rfl
  · generalize (if (Text.dropWhileRight isEndPunctuation word).head? == _ then _ else _ : Text) =
      target
    rcases m.resolve target with ⟨_ | found, m'⟩
    · exact plainWord_startingAt m' word
    · simp only [append_startingAt, relPath_startingAt, ite_startingAt]

@[simp]
theorem addInWord_startingAt (token : Token) :
    (m.startingAt line).addInWord token = (m.addInWord token).startingAt line := by
  unfold addInWord
  split
  · exact addWord_startingAt ..
  · exact append_startingAt ..
  · exact append_startingAt ..

@[simp]
theorem changeStyle_startingAt (style : Style) (enable : Bool) (position : Nat)
    (attributes : Attributes) :
    (m.startingAt line).changeStyle style enable position attributes =
      (m.changeStyle style enable position attributes).startingAt line :=
  append_startingAt ..

@[simp]
theorem styledWord_startingAt (token : Token) (style : Style) :
    (m.startingAt line).styledWord token style = (m.styledWord token style).startingAt line := by
  have hnext : (startingAt line { m with scanner := m.scanner.skipHorizontalSpace }).next = _ :=
    next_startingAt _
  unfold styledWord
  dsimp only at hnext ⊢
  erw [hnext]
  dsimp only
  rw [changeStyle_startingAt, addInWord_startingAt, report_startingAt, take_startingAt]
  split <;> rfl

@[simp]
theorem continueWord_startingAt (style : Style) :
    (m.startingAt line).continueWord style = (m.continueWord style).startingAt line := by
  unfold continueWord
  rw [next_startingAt]
  dsimp only
  rw [addInWord_startingAt, changeStyle_startingAt, take_startingAt]
  split <;> rfl

@[simp]
theorem leaveStyle_startingAt : (m.startingAt line).leaveStyle = m.leaveStyle.startingAt line :=
  modifyTop_startingAt ..

@[simp]
theorem styleStart_startingAt (token : Token) (style : Style) :
    (m.startingAt line).styleStart token style = (m.styleStart token style).startingAt line := by
  simp only [styleStart, changeStyle_startingAt, enterStyle_startingAt, read_startingAt,
    ite_startingAt]

@[simp]
theorem styleEnd_startingAt (token : Token) (style : Style) :
    (m.startingAt line).styleEnd token style = (m.styleEnd token style).startingAt line := by
  simp only [styleEnd, ownStyle?_startingAt, leaveStyle_startingAt, insidePre_startingAt,
    children_startingAt, setChildren_startingAt, ite_startingAt, changeStyle_startingAt,
    setInsidePre_startingAt, read_startingAt, innermostStyle?_startingAt, report_startingAt]

/-! ### Text within a line -/

theorem closeLink_startingAt (link : Link) (resolved : Bool) (opener : Token) (outcome : Outcome) :
    (m.startingAt line).closeLink link resolved opener outcome =
      (m.closeLink link resolved opener outcome).startingAt line := by
  simp only [closeLink, report_startingAt, ite_startingAt, children_startingAt, append_startingAt,
    close_startingAt, pop_startingAt, changeStyle_startingAt, appendAll_startingAt,
    ended_startingAt]

theorem closeHeader_startingAt (opener : Token) (outcome : Outcome) :
    (m.startingAt line).closeHeader opener outcome =
      (m.closeHeader opener outcome).startingAt line := by
  unfold closeHeader
  cases outcome with
  | complete => exact close_startingAt m _
  | endOfText => exact close_startingAt (m.reportUnclosed opener) _
  | newParagraph token => exact close_startingAt (m.report opener (.unclosedHeader _)) _
  | handBack token => exact close_startingAt (m.report opener (.unclosedHeader _)) _

theorem closeCaption_startingAt (frame : Frame) (kept : Bool) (outcome : Outcome) :
    (m.startingAt line).closeCaption frame kept outcome =
      (m.closeCaption frame kept outcome).startingAt line := by
  simp only [closeCaption, pop_startingAt, modifyTop_startingAt, ite_startingAt, ended_startingAt]

theorem closeInline_startingAt (outcome : Outcome) :
    (m.startingAt line).closeInline outcome = (m.closeInline outcome).startingAt line := by
  unfold closeInline
  rw [children_startingAt, setChildren_startingAt]
  dsimp only
  rw [stack_startingAt]
  split
  · rfl
  · split
    · exact closeLink_startingAt ..
    · exact closeHeader_startingAt ..
    · rw [reportUnclosed_startingAt, ite_startingAt, close_startingAt]
    · exact closeCaption_startingAt ..
    · exact close_startingAt ..

theorem takeInline_startingAt (construct : Construct) (token : Token) :
    (m.startingAt line).takeInline construct token =
      (m.takeInline construct token).startingAt line := by
  unfold takeInline
  simp only [closeInline_startingAt, addInWord_startingAt, children_startingAt, append_startingAt,
    ite_startingAt, read_startingAt, changeStyle_startingAt, styledWord_startingAt]
  split
  · rfl
  · split <;> try rfl
    · split
      · rfl
      · rfl
    · split
      · rfl
      · rfl
    · split <;> rfl

/-! ### Markup -/

theorem partEnded_startingAt (opener : Token) (outcome : Outcome) :
    (m.startingAt line).partEnded opener outcome =
      (m.partEnded opener outcome).startingAt line := by
  unfold partEnded closeAtEnd
  rw [reportUnclosed_startingAt, close_startingAt]
  split <;> rfl

theorem listItem_startingAt (token : Token) :
    (m.startingAt line).listItem token = (m.listItem token).startingAt line := by
  unfold listItem
  rw [stack_startingAt]
  cases m.stack with
  | nil => rfl
  | cons f outer =>
      dsimp only
      split <;> rfl

theorem takeInList_startingAt (opener token : Token) :
    (m.startingAt line).takeInList opener token = (m.takeInList opener token).startingAt line := by
  simp only [takeInList, closeAtEnd, closeBefore, listItem_startingAt, report_startingAt,
    ite_startingAt, close_startingAt, reportUnclosed_startingAt, readSolid_startingAt]

theorem takeInDescList_startingAt (opener token : Token) :
    (m.startingAt line).takeInDescList opener token =
      (m.takeInDescList opener token).startingAt line := by
  simp only [takeInDescList, closeAtEnd, closeBefore, push_startingAt, report_startingAt,
    ite_startingAt, close_startingAt, reportUnclosed_startingAt, read_startingAt,
    readSolid_startingAt]

theorem takeInTable_startingAt (caption : Option Node) (opener token : Token) :
    (m.startingAt line).takeInTable caption opener token =
      (m.takeInTable caption opener token).startingAt line := by
  simp only [takeInTable, closeAtEnd, closeBefore, push_startingAt, report_startingAt,
    ite_startingAt, close_startingAt, reportUnclosed_startingAt, read_startingAt,
    readSolid_startingAt, take_startingAt]

theorem takeInRow_startingAt (token : Token) :
    (m.startingAt line).takeInRow token = (m.takeInRow token).startingAt line := by
  simp only [takeInRow, push_startingAt, report_startingAt, ite_startingAt, close_startingAt,
    read_startingAt, readSolid_startingAt]

theorem cellEnded_startingAt (outcome : Outcome) :
    (m.startingAt line).cellEnded outcome = (m.cellEnded outcome).startingAt line := by
  unfold cellEnded
  rw [close_startingAt]
  split <;> rfl

theorem anchorTag_startingAt (token : Token) :
    (m.startingAt line).anchorTag token = (m.anchorTag token).startingAt line := by
  simp only [anchorTag, relPath_startingAt, outputFile_startingAt, append_startingAt,
    push_startingAt, report_startingAt, read_startingAt, ite_startingAt]
  split
  · rfl
  · split <;> rfl

theorem imageTag_startingAt (token : Token) :
    (m.startingAt line).imageTag token = (m.imageTag token).startingAt line := by
  simp only [imageTag, relPath_startingAt, append_startingAt, report_startingAt, read_startingAt,
    ite_startingAt]

theorem paragraphTag_startingAt (token : Token) :
    (m.startingAt line).paragraphTag token = (m.paragraphTag token).startingAt line := by
  simp only [paragraphTag, onlySynthetic_startingAt, modifyTop_startingAt, read_startingAt,
    closeParagraph_startingAt, ite_startingAt]

theorem startTag_startingAt (token : Token) :
    (m.startingAt line).startTag token = (m.startTag token).startingAt line := by
  unfold startTag
  simp only [styleStart_startingAt, push_startingAt, read_startingAt, readSolid_startingAt,
    paragraphTag_startingAt, append_startingAt, list, anchorTag_startingAt, imageTag_startingAt,
    container?_startingAt, closeParagraph_startingAt, report_startingAt, ite_startingAt]
  split
  · rfl
  · rfl
  · split <;> rfl

theorem endTag_startingAt (token : Token) :
    (m.startingAt line).endTag token = (m.endTag token).startingAt line := by
  simp only [endTag, styleEnd_startingAt, read_startingAt, container?_startingAt,
    closeParagraph_startingAt, report_startingAt, ite_startingAt]
  split <;> rfl

/-! ### Blocks -/

theorem sectionTitle_startingAt (type : SimpleSectionType) :
    (m.startingAt line).sectionTitle type =
      ((m.sectionTitle type).1, (m.sectionTitle type).2.startingAt line) := by
  simp only [sectionTitle, restOfLine_startingAt, plain_startingAt]
  split
  · rfl
  · split <;> rfl

theorem simpleSection_startingAt (token : Token) (type : SimpleSectionType) :
    (m.startingAt line).simpleSection token type =
      (m.simpleSection token type).startingAt line := by
  simp only [simpleSection, insideSection_startingAt, closeParagraph_startingAt,
    sectionTitle_startingAt, sectionBefore?_startingAt, children_startingAt, setChildren_startingAt,
    push_startingAt, read_startingAt]
  split
  · rfl
  · split <;> rfl

theorem keyword_startingAt (token : Token) :
    (m.startingAt line).keyword token = (m.keyword token).startingAt line := by
  simp only [keyword, plain_startingAt, append_startingAt, read_startingAt]

theorem names_startingAt (n : Nat) :
    names n (m.startingAt line) = ((names n m).1, (names n m).2.startingAt line) := by
  induction n generalizing m with
  | zero => rfl
  | succ n ih =>
      unfold names
      rw [argument_startingAt]
      rcases m.argument with ⟨_ | argument, m'⟩
      · rfl
      · dsimp only
        rw [ih]
        split <;> rfl

theorem paramName_startingAt (name : Text) (linkable : Bool) :
    (m.startingAt line).paramName name linkable =
      ((m.paramName name linkable).1, (m.paramName name linkable).2.startingAt line) := by
  simp only [paramName, options_startingAt, resolve_startingAt]
  split
  · rfl
  · rcases m.resolve name with ⟨_ | target, m'⟩ <;> rfl

theorem paramNames_startingAt (linkable : Bool) (written : List Text) :
    paramNames linkable written (m.startingAt line) =
      ((paramNames linkable written m).1, (paramNames linkable written m).2.startingAt line) := by
  induction written generalizing m with
  | nil => rfl
  | cons name rest ih => simp only [paramNames, paramName_startingAt, ih]

theorem parameters_startingAt (type : ParamSectionType) (written : List Text) :
    parameters type written (m.startingAt line) =
      ((parameters type written m).1, (parameters type written m).2.startingAt line) := by
  induction written generalizing m with
  | nil => rfl
  | cons name rest ih => simp only [parameters, paramNames_startingAt, paramName_startingAt, ih]

theorem direction_startingAt (token : Token) (type : ParamSectionType) :
    (m.startingAt line).direction token type =
      ((m.direction token type).1, (m.direction token type).2.startingAt line) := by
  simp only [direction, attached_startingAt]
  split
  · rfl
  · rcases m.attached '[' ']' with ⟨_ | option, m'⟩
    · rfl
    · dsimp only
      split <;> rfl

theorem paramSection_startingAt (token : Token) (type : ParamSectionType) :
    (m.startingAt line).paramSection token type = (m.paramSection token type).startingAt line := by
  simp only [paramSection, insideSection_startingAt, closeParagraph_startingAt,
    direction_startingAt, parametersBefore?_startingAt, children_startingAt,
    setChildren_startingAt, ite_startingAt, scanner_startingAt, names_startingAt,
    report_startingAt, parameters_startingAt, push_startingAt, read_startingAt]

theorem itemKey_startingAt (token : Token) :
    (m.startingAt line).itemKey token =
      ((m.itemKey token).1, (m.itemKey token).2.1, (m.itemKey token).2.2.startingAt line) := by
  unfold itemKey
  rw [argument_startingAt]
  rcases m.argument with ⟨key, m'⟩
  simp only [quoted_startingAt, report_startingAt, ite_startingAt]
  split <;> rfl

theorem xrefItem_startingAt (token : Token) :
    (m.startingAt line).xrefItem token = (m.xrefItem token).startingAt line := by
  simp only [xrefItem, insideSection_startingAt, closeParagraph_startingAt, itemKey_startingAt]
  split <;> rfl

theorem openItem_startingAt (token : Token) :
    (m.startingAt line).openItem token = (m.openItem token).startingAt line := by
  unfold openItem
  rw [stack_startingAt]
  cases m.stack with
  | nil => rfl
  | cons f outer =>
      dsimp only
      split <;> rfl

theorem listMarker_startingAt (token : Token) :
    (m.startingAt line).listMarker token = (m.listMarker token).startingAt line := by
  simp only [listMarker, options_startingAt, addWord_startingAt, append_startingAt,
    read_startingAt, around_startingAt, closeParagraph_startingAt, push_startingAt,
    scanner_startingAt]
  generalize hm' : m.push (.autoList _ 1) = m'
  have hopen : (startingAt line { m' with scanner := m'.scanner.startList }).openItem token = _ :=
    openItem_startingAt _ token
  split
  · rfl
  · split
    · rfl
    · exact hopen

theorem itemEnded_startingAt (list : AutoList) (next : Whole) (outcome : Outcome) :
    (m.startingAt line).itemEnded list next outcome =
      (m.itemEnded list next outcome).startingAt line := by
  have hclose (outcome : Outcome) :
      (startingAt line { m with scanner := m.scanner.endList }).close outcome = _ :=
    close_startingAt _ outcome
  unfold itemEnded
  split
  · rw [openItem_startingAt]
    show (if _ then _ else if _ then _ else _) =
      startingAt line (if _ then _ else if _ then _ else _)
    rw [apply_ite (startingAt line), apply_ite (startingAt line), ← hclose, ← hclose]
    rfl
  · exact hclose _

theorem simpleList_startingAt (token : Token) :
    (m.startingAt line).simpleList token = (m.simpleList token).startingAt line := by
  simp only [simpleList, around_startingAt, closeParagraph_startingAt, push_startingAt,
    read_startingAt, ite_startingAt]

theorem internal_startingAt (token : Token) :
    (m.startingAt line).internal token = (m.internal token).startingAt line := by
  unfold internal
  exact ite_startingAt _ (m.report token .nestedInternal).read (m.push .internal).read

theorem refItem_startingAt (token : Token) :
    (m.startingAt line).refItem token = (m.refItem token).startingAt line := by
  unfold refItem
  simp only [argument_startingAt, restOfLine_startingAt]
  split
  · rfl
  · simp only [resolve_startingAt, plain_startingAt, relPath_startingAt, append_startingAt,
      report_startingAt, ite_startingAt]

theorem takeInRefList_startingAt (opener token : Token) :
    (m.startingAt line).takeInRefList opener token =
      (m.takeInRefList opener token).startingAt line := by
  simp only [takeInRefList, refItem_startingAt, readSolid_startingAt, close_startingAt,
    report_startingAt, ite_startingAt]

/-! ### Raw text, files, images and references -/

theorem verbatim_startingAt (token : Token) (type : VerbatimType) (ending : Text) :
    (m.startingAt line).verbatim token type ending =
      (m.verbatim token type ending).startingAt line := by
  simp only [verbatim, attached_startingAt, pair_ite_startingAt, raw_startingAt,
    report_startingAt, ite_startingAt, origin_startingAt, append_startingAt, read_startingAt]

theorem formulaText_startingAt (token : Token) :
    (m.startingAt line).formulaText token =
      ((m.formulaText token).1, (m.formulaText token).2.1,
        (m.formulaText token).2.2.startingAt line) := by
  simp only [formulaText, raw_startingAt, scanner_startingAt, moveTo_startingAt, ite_startingAt]
  split
  · rfl
  · split <;> rfl

theorem formula_startingAt (token : Token) :
    (m.startingAt line).formula token = (m.formula token).startingAt line := by
  simp only [formula, formulaText_startingAt, report_startingAt, ite_startingAt]
  generalize (if (m.formulaText token).2.1 then _ else _ : Machine) = m'
  exact congrArg Machine.read (append_startingAt
    { m' with formulas := (Formula.register m'.formulas (m.formulaText token).1).2 } _)

theorem includedText_startingAt (token : Token) (file block : Text) :
    (m.startingAt line).includedText token file block =
      ((m.includedText token file block).1,
        (m.includedText token file block).2.startingAt line) := by
  simp only [includedText, options_startingAt]
  split
  · rfl
  · split
    · rfl
    · split <;> rfl

theorem inclusion_startingAt (token : Token) (type : IncludeType) :
    (m.startingAt line).inclusion token type = (m.inclusion token type).startingAt line := by
  unfold inclusion
  rw [argument_startingAt]
  rcases m.argument with ⟨_ | file, m'⟩
  · rfl
  · simp only [argument_startingAt, pair_ite_startingAt, report_startingAt, ite_startingAt,
      includedText_startingAt]
    generalize (if type == .snippet then m'.argument else (none, m')) = found
    generalize (if type == .snippet && (found.1.getD []).isEmpty then
      found.2.report token (.missingBlockName file) else found.2) = m''
    generalize m''.includedText token file (found.1.getD []) = shown
    split
    · exact congrArg Machine.read (append_startingAt
        { shown.2 with included := some { text := shown.1 } } _)
    · exact congrArg Machine.read (append_startingAt shown.2 _)

theorem includeStep_startingAt (token : Token) (operator : IncludeOperator) :
    (m.startingAt line).includeStep token operator =
      (m.includeStep token operator).startingAt line := by
  have hkeep (m : Machine) (step : Machine → IncludeStep)
      (hstep : step (m.startingAt line) = step m) :
      (((m.startingAt line).setChildren (continueRun (m.startingAt line).children)).append
        (.leaf (.includeStep (step (m.startingAt line))))).read =
      (((m.setChildren (continueRun m.children)).append
        (.leaf (.includeStep (step m)))).read).startingAt line := by
    rw [hstep, children_startingAt, setChildren_startingAt, append_startingAt, read_startingAt]
  unfold includeStep
  rw [restOfLine_startingAt]
  rcases m.restOfLine with ⟨pattern, m'⟩
  dsimp only
  rw [report_startingAt, ite_startingAt]
  generalize (if pattern.isEmpty then m'.report token (.missingPattern token.value) else m') = m''
  rw [included_startingAt]
  cases m''.included with
  | none =>
      exact hkeep (m''.report token (.noIncludedText token.value)) (fun m =>
        { operator, pattern, text := [], origin := (m.setChildren (continueRun m.children)).origin
          isFirst := beginsRun m.children, isLast := true }) (by simp)
  | some buffer =>
      exact hkeep { m'' with included := some (buffer.apply operator pattern).2 } (fun m =>
        { operator, pattern, text := (buffer.apply operator pattern).1
          origin := (m.setChildren (continueRun m.children)).origin
          isFirst := beginsRun m.children, isLast := true }) (by simp)

theorem sizes_startingAt (n : Nat) (size : Text × Text) :
    sizes n size (m.startingAt line) =
      ((sizes n size m).1, (sizes n size m).2.startingAt line) := by
  induction n generalizing m size with
  | zero => rfl
  | succ n ih =>
      unfold sizes
      rw [argument_startingAt]
      rcases m.argument with ⟨_ | argument, m'⟩
      · exact congrArg (size, ·) (moveTo_startingAt ..)
      · dsimp only
        split
        · exact ih ..
        · exact ih ..
        · exact congrArg (size, ·) (moveTo_startingAt ..)

theorem captionAndSize_startingAt :
    (m.startingAt line).captionAndSize =
      (m.captionAndSize.1, m.captionAndSize.2.1, m.captionAndSize.2.2.startingAt line) := by
  simp only [captionAndSize, quoted_startingAt, scanner_startingAt, sizes_startingAt]

theorem publishedName_startingAt (token : Token) (file format : Text) :
    (m.startingAt line).publishedName token file format =
      ((m.publishedName token file format).1,
        (m.publishedName token file format).2.startingAt line) := by
  simp only [publishedName, options_startingAt]
  split
  · rfl
  · split <;> rfl

theorem image_startingAt (token : Token) :
    (m.startingAt line).image token = (m.image token).startingAt line := by
  unfold image
  rw [argument_startingAt]
  rcases m.argument with ⟨_ | format, m'⟩
  · rfl
  · dsimp only [Option.isSome, if_true]
    simp only [if_true, argument_startingAt]
    rcases m'.argument with ⟨_ | file, m''⟩
    · rfl
    · dsimp only
      split
      · rfl
      · simp only [captionAndSize_startingAt, publishedName_startingAt, plain_startingAt,
          pair_ite_startingAt, relPath_startingAt, append_startingAt, read_startingAt]

theorem diagramFile_startingAt (token : Token) (type : DiagramType) :
    (m.startingAt line).diagramFile token type = (m.diagramFile token type).startingAt line := by
  unfold diagramFile
  rw [argument_startingAt]
  rcases m.argument with ⟨_ | file, m'⟩
  · rfl
  · simp only [captionAndSize_startingAt, plain_startingAt, pair_ite_startingAt,
      relPath_startingAt, origin_startingAt, append_startingAt, read_startingAt]

theorem reference_startingAt (token : Token) (isSubPage : Bool) :
    (m.startingAt line).reference token isSubPage =
      (m.reference token isSubPage).startingAt line := by
  unfold reference
  rw [argument_startingAt]
  rcases m.argument with ⟨_ | target, m'⟩
  · rfl
  · simp only [quoted_startingAt, resolve_startingAt]
    rcases m'.quoted.2.resolve target with ⟨_ | found, m''⟩
    · simp only [report_startingAt, changeStyle_startingAt, append_startingAt, read_startingAt]
    · cases m'.quoted.1 <;>
        simp only [plain_startingAt, relPath_startingAt, append_startingAt, read_startingAt]

theorem link_startingAt (token : Token) :
    (m.startingAt line).link token = (m.link token).startingAt line := by
  unfold link
  rw [argument_startingAt]
  rcases m.argument with ⟨_ | target, m'⟩
  · rfl
  · simp only [resolve_startingAt, relPath_startingAt, push_startingAt, read_startingAt]

theorem citation_startingAt (token : Token) :
    (m.startingAt line).citation token = (m.citation token).startingAt line := by
  unfold citation
  rw [argument_startingAt]
  rcases m.argument with ⟨_ | label, m'⟩
  · rfl
  · have hfound : (if (m'.setting.options.surroundings.citation? label).isSome then
        m'.startingAt line else (m'.report token (.unresolvedCitation label)).startingAt line) = _ :=
      ite_startingAt ..
    dsimp only
    erw [hfound]
    exact congrArg Machine.read (append_startingAt ..)

theorem internalReference_startingAt (token : Token) :
    (m.startingAt line).internalReference token = (m.internalReference token).startingAt line := by
  unfold internalReference
  rw [argument_startingAt]
  rcases m.argument with ⟨_ | target, m'⟩
  · rfl
  · simp only [quoted_startingAt, plain_startingAt, relPath_startingAt, append_startingAt,
      read_startingAt]

theorem copy_startingAt (token : Token) (brief details : Bool) :
    (m.startingAt line).copy token brief details =
      (m.copy token brief details).startingAt line := by
  unfold copy
  rw [argument_startingAt]
  rcases m.argument with ⟨_ | target, m'⟩
  · rfl
  · simp only [append_startingAt, read_startingAt]

theorem anchor_startingAt (token : Token) :
    (m.startingAt line).anchor token = (m.anchor token).startingAt line := by
  unfold anchor
  rw [argument_startingAt]
  rcases m.argument with ⟨_ | name, m'⟩
  · rfl
  · simp only [outputFile_startingAt, append_startingAt, read_startingAt]

theorem indexEntry_startingAt :
    (m.startingAt line).indexEntry = m.indexEntry.startingAt line := by
  unfold indexEntry
  rw [restOfLine_startingAt]
  rcases m.restOfLine with ⟨entry, m'⟩
  dsimp only
  show (if entry.isEmpty || !m'.setting.comment.indexWords then _ else _) =
    startingAt line (if entry.isEmpty || !m'.setting.comment.indexWords then _ else _)
  split
  · rfl
  · exact congrArg Machine.read (append_startingAt ..)

/-! ### Steps -/

theorem command_startingAt (token : Token) :
    (m.startingAt line).command token = (m.command token).startingAt line := by
  let m₀ := m.record (.entered token.value)
  have hback (c : Bool) : (if c then (m₀.startingAt line).closeParagraph (.handBack token)
      else ((m₀.startingAt line).report token (.endWithoutStart token.value)).read) =
      startingAt line (if c then m₀.closeParagraph (.handBack token)
        else (m₀.report token (.endWithoutStart token.value)).read) := by
    rw [closeParagraph_startingAt, report_startingAt, read_startingAt, ite_startingAt]
  unfold command
  dsimp only
  generalize Command.ofName token.value = meaning
  cases meaning with
  | word style => exact styledWord_startingAt m₀ token style
  | sect level => exact closeParagraph_startingAt m₀ _
  | simpleSection type => exact simpleSection_startingAt m₀ token type
  | paramSection type => exact paramSection_startingAt m₀ token type
  | xrefItem => exact xrefItem_startingAt m₀ token
  | verbatim type ending => exact verbatim_startingAt m₀ token type ending
  | inclusion type => exact inclusion_startingAt m₀ token type
  | includeStep operator => exact includeStep_startingAt m₀ token operator
  | diagramFile type => exact diagramFile_startingAt m₀ token type
  | lineBreak => exact congrArg read (append_startingAt m₀ _)
  | sourceBreak => exact congrArg read (append_startingAt m₀ _)
  | anchor => exact anchor_startingAt m₀ token
  | indexEntry => exact indexEntry_startingAt m₀
  | listItem => exact simpleList_startingAt m₀ token
  | internal => exact internal_startingAt m₀ token
  | endInternal => exact hback (m₀.around.any Construct.isInternal)
  | parBlock => rfl
  | endParBlock => exact hback (m₀.around.any Construct.isParBlock)
  | refList => rfl
  | reference isSubPage => exact reference_startingAt m₀ token isSubPage
  | link => exact link_startingAt m₀ token
  | citation => exact citation_startingAt m₀ token
  | internalReference => exact internalReference_startingAt m₀ token
  | copy brief details => exact copy_startingAt m₀ token brief details
  | image => exact image_startingAt m₀ token
  | formula => exact formula_startingAt m₀ token
  | ignored => rfl
  | unmatched => rfl
  | unknown => exact congrArg read (append_startingAt (m₀.report token (.unknownCommand _)) _)

theorem takeInParagraph_startingAt (token : Token) :
    (m.startingAt line).takeInParagraph token = (m.takeInParagraph token).startingAt line := by
  unfold takeInParagraph
  simp only [closeParagraph_startingAt, addInWord_startingAt, listMarker_startingAt,
    command_startingAt, startTag_startingAt, endTag_startingAt, keyword_startingAt,
    insidePre_startingAt, onlySynthetic_startingAt, around_startingAt, append_startingAt,
    report_startingAt, read_startingAt]
  split <;> try rfl
  · split
    · rfl
    · split <;> rfl
  · split <;> rfl

theorem openSection_startingAt (token : Token) (level : Nat) :
    (m.startingAt line).openSection token level = (m.openSection token level).startingAt line := by
  unfold openSection
  rw [argument_startingAt]
  rcases m.argument with ⟨_ | label, m'⟩ <;> rfl

theorem dispatch_startingAt (token : Token) :
    (m.startingAt line).dispatch token = (m.dispatch token).startingAt line := by
  have hopened : (m.startingAt line).openParagraph.take token =
      (m.openParagraph.take token).startingAt line := by
    rw [openParagraph_startingAt, take_startingAt]
  unfold dispatch
  rw [stack_startingAt]
  split
  · rfl
  · split
    · split
      · rw [report_startingAt, ite_startingAt]
        exact openSection_startingAt ..
      · exact hopened
    · split
      · rw [close_startingAt, openSection_startingAt, ite_startingAt]
      · exact hopened
    · exact takeInParagraph_startingAt ..
    · exact takeInRefList_startingAt ..
    · exact takeInList_startingAt ..
    · exact takeInDescList_startingAt ..
    · exact takeInTable_startingAt ..
    · exact takeInRow_startingAt ..
    · exact takeInline_startingAt ..
    · exact takeInline_startingAt ..
    · exact takeInline_startingAt ..
    · exact takeInline_startingAt ..
    · exact takeInline_startingAt ..
    · exact hopened

theorem sectionPartEnded_startingAt (outcome : Outcome) (unexpected : Text → Problem) :
    (m.startingAt line).sectionPartEnded outcome unexpected =
      (m.sectionPartEnded outcome unexpected).startingAt line := by
  unfold sectionPartEnded
  split
  · split <;> rfl
  · rfl

theorem blockParagraphEnded_startingAt (outcome : Outcome) (isEnd : Token → Bool) :
    (m.startingAt line).blockParagraphEnded outcome isEnd =
      (m.blockParagraphEnded outcome isEnd).startingAt line := by
  unfold blockParagraphEnded
  simp only [close_startingAt, read_startingAt, ite_startingAt]
  split <;> rfl

theorem resume_startingAt (outcome : Outcome) :
    (m.startingAt line).resume outcome = (m.resume outcome).startingAt line := by
  unfold resume
  simp only [stack_startingAt, sectionPartEnded_startingAt, close_startingAt, read_startingAt,
    take_startingAt, closeParagraph_startingAt, itemEnded_startingAt, push_startingAt,
    ite_startingAt, report_startingAt, reportUnclosed_startingAt, blockParagraphEnded_startingAt,
    partEnded_startingAt, cellEnded_startingAt]
  split
  · rfl
  · split <;> try rfl
    · split <;> rfl
    · split <;> rfl
    · split <;> rfl
    · split <;> rfl
    · split <;> rfl

/-- One step. -/
theorem step_startingAt : (m.startingAt line).step = m.step.startingAt line := by
  unfold step
  rw [phase_startingAt]
  split
  · rw [next_startingAt]
    rfl
  · rw [next_startingAt]
    dsimp only
    split <;> rfl
  · exact continueWord_startingAt ..
  · exact dispatch_startingAt ..
  · exact resume_startingAt ..
  · rfl

/-- A run takes the same steps. -/
theorem run_startingAt (n : Nat) : (m.startingAt line).run n = (m.run n).startingAt line := by
  induction n generalizing m with
  | zero => rfl
  | succ n ih =>
      rw [run, run, isDone_startingAt, step_startingAt, ih]
      exact ite_startingAt ..

end Machine

end Parser

end DocMarkup
