import DocMarkup.Parser.Basic
import DocMarkup.Proofs.Doc.Unnumbered

/-!
What a machine has read, without the numbers in it.  Handlers read the comment and work on the open
constructs; neither depends on numbers that were given before.
-/

namespace DocMarkup.Parser

/-! ### Without the numbers -/

/-- A construct without the numbers in what it was begun with. -/
def Construct.unnumber : Construct → Construct
  | .simpleSection type heads => .simpleSection type (heads.map Node.unnumber)
  | .paramList described types names =>
    .paramList described (types.map Node.unnumber) (names.map Node.unnumber)
  | .xrefItem item => .xrefItem { item with id := 0, anchor := [] }
  | .table attributes given opener => .table attributes (given.map Node.unnumber) opener
  | construct => construct

/-- An open construct without the numbers in it. -/
def Frame.unnumber (f : Frame) : Frame :=
  { f with construct := f.construct.unnumber, children := f.children.map Node.unnumber }

namespace Machine

/-- The same place in the comment with other constructs open and other numbers given. -/
def onto (m : Machine) (stack : List Frame) (items : Nat) (formulas : List Text) : Machine :=
  { m with stack, items, formulas }

/-- A machine without the numbers it has given. -/
def unnumber (m : Machine) : Machine := m.onto (m.stack.map Frame.unnumber) 0 []

/-! ### Readers -/

/-- A reader takes something from the comment, whatever is open. -/
def Reads {α : Type} (read : Machine → α × Machine) : Prop :=
  ∀ (m : Machine) (stack : List Frame) (items : Nat) (formulas : List Text),
    read (m.onto stack items formulas) = ((read m).1, (read m).2.onto stack items formulas)

namespace Reads

variable {α : Type} {read : Machine → α × Machine}

theorem unnumber (h : Reads read) (m : Machine) :
    read m.unnumber = ((read m).1, (read m).2.unnumber) := by
  have hsame : (read m).2.stack = m.stack :=
    (congrArg (fun r : α × Machine => r.2.stack) (h m m.stack m.items m.formulas) :)
  rw [Machine.unnumber, h, Machine.unnumber, hsame]

theorem stack (h : Reads read) (m : Machine) : (read m).2.stack = m.stack :=
  (congrArg (fun r : α × Machine => r.2.stack) (h m m.stack m.items m.formulas) :)

/-- A reader that takes two things. -/
theorem unnumber₂ {β : Type} {read : Machine → α × β × Machine}
    (h : Reads fun m => (((read m).1, (read m).2.1), (read m).2.2)) (m : Machine) :
    read m.unnumber = ((read m).1, (read m).2.1, (read m).2.2.unnumber) := by
  have hread := h.unnumber m
  simp only [Prod.mk.injEq] at hread
  exact Prod.ext hread.1.1 (Prod.ext hread.1.2 hread.2)

theorem pure (a : α) : Reads fun m => (a, m) := fun _ _ _ _ => rfl

theorem ite (c : Prop) [Decidable c] {read' : Machine → α × Machine} (h : Reads read)
    (h' : Reads read') : Reads fun m => if c then read m else read' m := by
  intro m stack items formulas
  dsimp only
  split
  · exact h m stack items formulas
  · exact h' m stack items formulas

end Reads

section

variable (m : Machine) (stack : List Frame) (items : Nat) (formulas : List Text)

@[simp] theorem setting_onto : (m.onto stack items formulas).setting = m.setting := rfl

@[simp] theorem scanner_onto : (m.onto stack items formulas).scanner = m.scanner := rfl

theorem report_onto (token : Token) (problem : Problem) :
    (m.onto stack items formulas).report token problem =
      (m.report token problem).onto stack items formulas := rfl

theorem moveTo_onto (offset : Nat) :
    (m.onto stack items formulas).moveTo offset = (m.moveTo offset).onto stack items formulas := by
  unfold moveTo
  rw [scanner_onto]
  split <;> rfl

theorem reads_next : Reads next := by
  intro m stack items formulas
  unfold next
  dsimp only [onto]
  split <;> rfl

theorem reads_argument : Reads argument := fun _ _ _ _ => rfl

theorem reads_quoted : Reads quoted := fun _ _ _ _ => rfl

theorem reads_restOfLine : Reads restOfLine := fun _ _ _ _ => rfl

theorem reads_attached (opening closing : Char) : Reads (attached · opening closing) :=
  fun _ _ _ _ => rfl

theorem reads_raw (markers : List Text) : Reads (raw · markers) := fun _ _ _ _ => rfl

theorem reads_resolve (target : Text) : Reads (resolve · target) := by
  intro m stack items formulas
  unfold resolve
  dsimp only [onto]
  split <;> rfl

theorem reads_plain (warn : Bool) (t : Text) : Reads (plain · warn t) := by
  intro m stack items formulas
  unfold plain
  dsimp only
  generalize (Scanner.ofText t).readAll.1 = tokens
  refine congrArg (_, ·) ?_
  induction tokens generalizing m with
  | nil => rfl
  | cons token rest ih =>
      rw [List.foldl_cons, List.foldl_cons, ← ih]
      unfold notePlain
      congr 1
      dsimp only
      split <;> split <;> rfl

theorem reads_sectionTitle (type : SimpleSectionType) : Reads (sectionTitle · type) := by
  intro m stack items formulas
  simp only [sectionTitle, reads_restOfLine m stack items formulas]
  split
  · rfl
  · split
    · rfl
    · simp only [reads_plain false _ _ stack items formulas]

theorem reads_names (n : Nat) : Reads (names n) := by
  intro m stack items formulas
  induction n generalizing m with
  | zero => rfl
  | succ n ih =>
      unfold names
      rw [reads_argument]
      rcases m.argument with ⟨_ | argument, m'⟩
      · rfl
      · dsimp only
        split
        · rw [ih]
        · rfl

theorem reads_paramName (name : Text) (linkable : Bool) : Reads (paramName · name linkable) := by
  intro m stack items formulas
  simp only [paramName, reads_resolve name m stack items formulas, setting_onto]
  split
  · rfl
  · rcases m.resolve name with ⟨_ | target, m'⟩ <;> rfl

theorem reads_paramNames (linkable : Bool) (names : List Text) :
    Reads (paramNames linkable names) := by
  intro m stack items formulas
  induction names generalizing m with
  | nil => rfl
  | cons name rest ih => simp only [paramNames, reads_paramName name linkable m stack items formulas, ih]

theorem reads_parameters (type : ParamSectionType) (written : List Text) :
    Reads (parameters type written) := by
  intro m stack items formulas
  induction written generalizing m with
  | nil => rfl
  | cons name rest ih =>
      simp only [parameters, reads_paramNames _ _ _ stack items formulas,
        reads_paramName _ _ _ stack items formulas, ih]

theorem reads_direction (token : Token) (type : ParamSectionType) :
    Reads (direction · token type) := by
  intro m stack items formulas
  unfold direction
  simp only [reads_attached '[' ']' m stack items formulas]
  split
  · rfl
  · rcases m.attached '[' ']' with ⟨_ | option, m'⟩
    · rfl
    · dsimp only
      split <;> rfl

theorem reads_itemKey (token : Token) :
    Reads fun m => (((m.itemKey token).1, (m.itemKey token).2.1), (m.itemKey token).2.2) := by
  intro m stack items formulas
  unfold itemKey
  split
  · rfl
  · simp only [reads_argument _ stack items formulas, reads_quoted _ stack items formulas]
    split
    · simp only [report_onto]
    · rfl

theorem reads_formulaText (token : Token) :
    Reads fun m =>
      (((m.formulaText token).1, (m.formulaText token).2.1), (m.formulaText token).2.2) := by
  intro m stack items formulas
  unfold formulaText
  simp only [reads_raw _ _ stack items formulas, scanner_onto, moveTo_onto]
  split
  · rfl
  · split
    · rfl
    · split <;> simp only [reads_raw _ _ stack items formulas]

theorem reads_includedText (token : Token) (file block : Text) :
    Reads (includedText · token file block) := by
  intro m stack items formulas
  simp only [includedText, setting_onto]
  split
  · rfl
  · split
    · rfl
    · split <;> rfl

theorem reads_sizes (n : Nat) (size : Text × Text) : Reads (sizes n size) := by
  intro m stack items formulas
  induction n generalizing m size with
  | zero => rfl
  | succ n ih =>
      unfold sizes
      rw [reads_argument m stack items formulas]
      rcases m.argument with ⟨_ | argument, m'⟩
      · exact congrArg (size, ·) (moveTo_onto ..)
      · dsimp only
        split
        · rw [ih]
        · rw [ih]
        · exact congrArg (size, ·) (moveTo_onto ..)

theorem reads_captionAndSize :
    Reads fun m => ((m.captionAndSize.1, m.captionAndSize.2.1), m.captionAndSize.2.2) := by
  intro m stack items formulas
  simp only [captionAndSize, reads_quoted m stack items formulas, scanner_onto,
    reads_sizes _ _ _ stack items formulas]

theorem reads_publishedName (token : Token) (file format : Text) :
    Reads (publishedName · token file format) := by
  intro m stack items formulas
  simp only [publishedName, setting_onto]
  split
  · rfl
  · split <;> rfl

end

/-! ### The machine without its numbers -/

section

variable (m : Machine)

@[simp] theorem setting_unnumber : m.unnumber.setting = m.setting := rfl

@[simp] theorem scanner_unnumber : m.unnumber.scanner = m.scanner := rfl

@[simp] theorem phase_unnumber : m.unnumber.phase = m.phase := rfl

@[simp] theorem reopening_unnumber : m.unnumber.reopening = m.reopening := rfl

@[simp] theorem included_unnumber : m.unnumber.included = m.included := rfl

@[simp] theorem failure_unnumber : m.unnumber.failure = m.failure := rfl

@[simp] theorem insidePre_unnumber : m.unnumber.insidePre = m.insidePre := rfl

@[simp] theorem origin_unnumber : m.unnumber.origin = m.origin := rfl

@[simp] theorem outputFile_unnumber : m.unnumber.outputFile = m.outputFile := rfl

theorem stack_unnumber : m.unnumber.stack = m.stack.map Frame.unnumber := rfl

@[simp]
theorem children_unnumber : m.unnumber.children = m.children.map Node.unnumber := by
  unfold children
  rw [stack_unnumber]
  cases m.stack <;> rfl

@[simp]
theorem onlySynthetic_unnumber : m.unnumber.onlySynthetic = m.onlySynthetic := by
  rw [onlySynthetic, children_unnumber, List.all_map]
  exact congrArg m.children.all (funext Node.isSynthetic_unnumber)

@[simp]
theorem around_unnumber : m.unnumber.around = m.around.map Construct.unnumber := by
  unfold around
  rw [stack_unnumber]
  cases m.stack with
  | nil => rfl
  | cons f outer =>
      rw [List.map_cons, List.tail_cons, List.tail_cons, List.map_map, List.map_map]
      rfl

end

end Machine

/-! ### What is asked of constructs -/

namespace Construct

variable (c : Construct)

@[simp] theorem styles_unnumber : c.unnumber.styles = c.styles := by cases c <;> rfl

@[simp] theorem autoList?_unnumber : c.unnumber.autoList? = c.autoList? := by cases c <;> rfl

@[simp] theorem container?_unnumber : c.unnumber.container? = c.container? := by cases c <;> rfl

@[simp] theorem ownsSections_unnumber : c.unnumber.ownsSections = c.ownsSections := by
  cases c <;> rfl

@[simp] theorem isInternal_unnumber : c.unnumber.isInternal = c.isInternal := by cases c <;> rfl

@[simp] theorem isParBlock_unnumber : c.unnumber.isParBlock = c.isParBlock := by cases c <;> rfl

@[simp] theorem isSimpleListItem_unnumber : c.unnumber.isSimpleListItem = c.isSimpleListItem := by
  cases c <;> rfl

end Construct

namespace Machine

@[simp]
theorem nearestAutoList?_unnumber (around : List Construct) :
    nearestAutoList? (around.map Construct.unnumber) = nearestAutoList? around := by
  simp [nearestAutoList?, List.findSome?_map, Function.comp_def]

section

variable (m : Machine)

@[simp]
theorem container?_unnumber : m.unnumber.container? = m.container? := by
  simp [container?, List.findSome?_map, Function.comp_def]

@[simp]
theorem insideSection_unnumber : m.unnumber.insideSection = m.insideSection := by
  simp only [insideSection, around_unnumber, List.find?_map, Function.comp_def,
    Construct.ownsSections_unnumber, Construct.container?_unnumber, Option.any_map]

@[simp]
theorem ownStyle?_unnumber : m.unnumber.ownStyle? = m.ownStyle? := by
  unfold ownStyle?
  rw [stack_unnumber]
  cases m.stack with
  | nil => rfl
  | cons f outer => exact congrArg List.head? f.construct.styles_unnumber

@[simp]
theorem innermostStyle?_unnumber : m.unnumber.innermostStyle? = m.innermostStyle? := by
  simp [innermostStyle?, stack_unnumber, List.findSome?_map, Function.comp_def, Frame.unnumber]

/-! ### What is done to the machine -/

@[simp] theorem read_unnumber : m.unnumber.read = m.read.unnumber := rfl

@[simp] theorem readSolid_unnumber : m.unnumber.readSolid = m.readSolid.unnumber := rfl

@[simp]
theorem take_unnumber (token : Token) : m.unnumber.take token = (m.take token).unnumber := rfl

@[simp]
theorem ended_unnumber (outcome : Outcome) :
    m.unnumber.ended outcome = (m.ended outcome).unnumber := rfl

@[simp]
theorem record_unnumber (event : Event) :
    m.unnumber.record event = (m.record event).unnumber := rfl

@[simp]
theorem report_unnumber (token : Token) (problem : Problem) :
    m.unnumber.report token problem = (m.report token problem).unnumber := rfl

@[simp]
theorem reportUnclosed_unnumber (opener : Token) :
    m.unnumber.reportUnclosed opener = (m.reportUnclosed opener).unnumber := rfl

@[simp]
theorem setInsidePre_unnumber (insidePre : Bool) :
    m.unnumber.setInsidePre insidePre = (m.setInsidePre insidePre).unnumber := rfl

@[simp]
theorem pop_unnumber : m.unnumber.pop = m.pop.unnumber := by
  unfold pop unnumber onto
  dsimp only
  rw [List.map_tail]

theorem modifyTop_unnumber {f f' : Frame → Frame}
    (h : ∀ frame : Frame, f' frame.unnumber = (f frame).unnumber) :
    m.unnumber.modifyTop f' = (m.modifyTop f).unnumber := by
  unfold modifyTop
  rw [stack_unnumber]
  cases hstack : m.stack with
  | nil => rfl
  | cons frame outer =>
      simp only [List.map_cons, h]
      rfl

/-- A change that is the same with and without numbers. -/
theorem modifyTop_unnumber_self {f : Frame → Frame}
    (h : ∀ frame : Frame, f frame.unnumber = (f frame).unnumber) :
    m.unnumber.modifyTop f = (m.modifyTop f).unnumber :=
  modifyTop_unnumber m h

@[simp]
theorem setChildren_unnumber (children : List Node) :
    m.unnumber.setChildren (children.map Node.unnumber) = (m.setChildren children).unnumber :=
  modifyTop_unnumber m fun _ => rfl

theorem append_unnumber' (n : Node) : m.unnumber.append n.unnumber = (m.append n).unnumber :=
  modifyTop_unnumber m fun _ => rfl

@[simp]
theorem append_unnumber {n : Node} (h : n.numbered = []) :
    m.unnumber.append n = (m.append n).unnumber := by
  rw [← append_unnumber', Node.unnumber_of_numbered h]

@[simp]
theorem appendAll_unnumber (nodes : List Node) :
    m.unnumber.appendAll (nodes.map Node.unnumber) = (m.appendAll nodes).unnumber := by
  induction nodes generalizing m with
  | nil => rfl
  | cons n rest ih =>
      rw [List.map_cons, appendAll, appendAll, List.foldl_cons, List.foldl_cons, append_unnumber']
      exact ih (m.append n)

theorem push_unnumber (c : Construct) : m.unnumber.push c.unnumber = (m.push c).unnumber := by
  unfold push
  rw [stack_unnumber, List.head?_map, Option.map_map]
  rfl

@[simp]
theorem toNode_unnumber (f : Frame) : f.unnumber.toNode = f.toNode.unnumber := by
  obtain ⟨construct, children, id, madeFor⟩ := f
  cases construct <;>
    simp [Frame.unnumber, Frame.toNode, Construct.unnumber, Node.unnumber_node, Content.unnumber,
      ← List.map_reverse, ← Node.placeCells_unnumber, Option.toList_map]

theorem attach_unnumber (f : Frame) : m.unnumber.attach f.unnumber = (m.attach f).unnumber := by
  unfold attach
  rw [stack_unnumber, List.head?_map, Option.map_map, toNode_unnumber, Node.kind_unnumber,
    append_unnumber']
  show (if f.madeFor == m.stack.head?.map Frame.id then _ else _) = _
  split <;> rfl

@[simp]
theorem close_unnumber (outcome : Outcome) :
    m.unnumber.close outcome = (m.close outcome).unnumber := by
  unfold close
  rw [stack_unnumber]
  cases m.stack with
  | nil => rfl
  | cons f outer => exact congrArg (ended · outcome) (attach_unnumber { m with stack := outer } f)

end

end Machine

/-! ### Children -/

@[simp]
theorem dropTrailingSpace_unnumber (children : List Node) :
    dropTrailingSpace (children.map Node.unnumber) =
      (dropTrailingSpace children).map Node.unnumber := by
  simp [dropTrailingSpace, List.dropWhile_map, Function.comp_def]

namespace Machine

@[simp]
theorem includeStep?_unnumber (n : Node) : includeStep? n.unnumber = includeStep? n := by
  rw [includeStep?, includeStep?, Node.content_unnumber]
  cases n.content <;> rfl

@[simp]
theorem beginsRun_unnumber (children : List Node) :
    beginsRun (children.map Node.unnumber) = beginsRun children := by
  rcases children with _ | ⟨n, _ | ⟨before, rest⟩⟩ <;> simp [beginsRun]

@[simp]
theorem continueRun_unnumber (children : List Node) :
    continueRun (children.map Node.unnumber) = (continueRun children).map Node.unnumber := by
  rcases children with _ | ⟨n, _ | ⟨before, rest⟩⟩
  · rfl
  · simp only [List.map_cons, List.map_nil, continueRun, includeStep?_unnumber,
      Node.isKind_unnumber]
    cases includeStep? n with
    | some step => simp [Content.unnumber]
    | none => dsimp only; split <;> rfl
  · simp only [List.map_cons, continueRun, includeStep?_unnumber, Node.isKind_unnumber]
    cases includeStep? n with
    | some step => simp [Content.unnumber]
    | none => dsimp only; cases includeStep? before <;> split <;> simp [Content.unnumber]

theorem numbered_syntheticChange (style : Style) (enable : Bool) (position : Nat)
    (attributes : Attributes) :
    (syntheticChange style enable position attributes).numbered = [] := by
  simp [syntheticChange, Content.isNumbered]

@[simp]
theorem finishedChildren_unnumber (children : List Node) (styles : List OpenStyle)
    (insidePre : Bool) (position : Nat) :
    finishedChildren (children.map Node.unnumber) styles insidePre position =
      (finishedChildren children styles insidePre position).map Node.unnumber := by
  have hclosed : ∀ trimmed : List Node,
      styles.foldl (fun children entered =>
        syntheticChange entered.style false position [] :: children) (trimmed.map Node.unnumber) =
      (styles.foldl (fun children entered =>
        syntheticChange entered.style false position [] :: children) trimmed).map
          Node.unnumber := by
    induction styles with
    | nil => exact fun _ => rfl
    | cons entered styles ih =>
        intro trimmed
        rw [List.foldl_cons, List.foldl_cons, ← ih, List.map_cons,
          Node.unnumber_of_numbered (numbered_syntheticChange ..)]
  have htrim : (if insidePre then children.map Node.unnumber
      else dropTrailingSpace (children.map Node.unnumber)) =
      (if insidePre then children else dropTrailingSpace children).map Node.unnumber := by
    cases insidePre <;> simp
  unfold finishedChildren
  rw [htrim]
  simp only [List.all_map, Function.comp_def, Node.isSynthetic_unnumber, hclosed,
    dropTrailingSpace_unnumber]
  rw [apply_ite (List.map Node.unnumber)]
  rfl

end Machine

end DocMarkup.Parser
