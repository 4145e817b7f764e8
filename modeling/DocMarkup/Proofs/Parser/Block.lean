import DocMarkup.Proofs.Parser.Inline

/-!
Blocks that commands and list markers begin.  A section that goes on with the one before it takes
up the node of that one and begins with its children.
-/

namespace DocMarkup.Parser.Machine

variable {m m' : Machine} {ends : Outcome → Prop}

theorem InParagraph.exists_stack (hm : m.InParagraph) :
    ∃ parent outer, m.stack = parent :: outer ∧ parent.construct.kind = .paragraph := by
  obtain ⟨parent, outer, hstack, hkind⟩ := Machine.exists_stack hm.stacked
  exact ⟨parent, outer, hstack, hkind.symm.trans hm.kind⟩

/-- A construct is begun with the nodes of the last child of the paragraph. -/
theorem begins_after {parent parent' : Frame} {outer : List Frame} {c : Construct}
    {children : List Node} (hm : m.stack = parent :: outer)
    (h : ReadsOn { m with stack := parent' :: outer } m') (hc : parent.Begins parent' c children)
    (hinternal : c.kind ≠ .internal) : Begins m ((m'.push c).setChildren children) := by
  obtain ⟨-, hconstruct, hid, -⟩ := hc.keeps
  have htop : ({ m with stack := parent' :: outer } : Machine).isAtTop = m.isAtTop := by
    simp only [isAtTop_eq, innermost, hm, List.head?_cons, Option.map_some, hconstruct]
  refine ⟨h.setting, h.scanner.text, h.scanner.offset, h.failure, htop ▸ h.journal, ?_⟩
  unfold setChildren modifyTop push
  rw [hm, h.stack]
  dsimp only [List.head?_cons, Option.map_some]
  rw [hid]
  exact .intro parent parent' outer c children m'.begun hc fun hkind => absurd hkind hinternal

theorem setChildren_eq {frame : Frame} {outer : List Frame} (h : m.stack = frame :: outer)
    (children : List Node) :
    m.setChildren children = { m with stack := { frame with children } :: outer } := by
  unfold setChildren modifyTop
  rw [h]

theorem children_eq {frame : Frame} {outer : List Frame} (h : m.stack = frame :: outer) :
    m.children = frame.children := by
  unfold children
  rw [h]
  rfl

/-- A construct is begun together with its first part. -/
theorem Goes.beginsWith {m₁ m₂ : Machine} (h₁ : Fills m m₁) (h₂ : Begins m₁ m₂)
    (hm : Stacked m.stack) {c : Construct} (hc : c.IsFresh)
    (hkind : mayHold m₂.innermost c.kind) (hfilled : c.kind.isFilled = false)
    (hinternal : c.kind ≠ .internal) (hitem : c.kind ≠ .autoListItem) :
    Goes m ends (m₂.push c).read :=
  .opensTwo h₁ h₂ (.refl m₂) (begins_push hc hkind (h₂.stacked (h₁.stacked hm))
    fun h => absurd h hinternal) ((Fills.refl _).phase .read) hfilled rfl rfl
    fun h => absurd h hitem

/-! ### Sections -/

theorem isFresh_sectionTitle (m : Machine) (type : SimpleSectionType) :
    (Construct.simpleSection type (m.sectionTitle type).1).IsFresh := by
  unfold sectionTitle
  split
  · exact .inl rfl
  · next htype =>
    obtain rfl : type = .user := by simpa using htype
    dsimp only
    split
    · exact .inl rfl
    · exact .inr ⟨rfl, _, rfl, isPlainText_plain _ _ _⟩

theorem exists_sectionBefore {frame : Frame} {outer : List Frame} (h : m.stack = frame :: outer)
    {type : SimpleSectionType} {n : Node} (hn : m.sectionBefore? type = some n) :
    ∃ before, frame.children = n :: before ∧ n.content = .simpleSection type := by
  unfold sectionBefore? at hn
  rw [children_eq h] at hn
  split at hn
  · cases hn
  · next last before hchildren =>
    split at hn
    · next found hfound =>
      split at hn
      · next htype =>
        cases hn
        have htype : found = type := by simpa using (Bool.and_eq_true_iff.1 htype).1
        exact ⟨before, hchildren, htype ▸ hfound⟩
      · cases hn
    · cases hn

theorem exists_parametersBefore {frame : Frame} {outer : List Frame} (h : m.stack = frame :: outer)
    {type : ParamSectionType} {sect : ParamSection} {n : Node}
    (hn : m.parametersBefore? type = some (sect, n)) :
    ∃ before, frame.children = n :: before ∧ n.content = .paramSection sect := by
  unfold parametersBefore? at hn
  rw [children_eq h] at hn
  split at hn
  · cases hn
  · next last before hchildren =>
    split at hn
    · next found hfound =>
      split at hn
      · cases hn
        exact ⟨before, hchildren, hfound⟩
      · cases hn
    · cases hn

theorem simpleSection_goes (hm : m.InParagraph) (token : Token) (type : SimpleSectionType) :
    Goes m (endsWith token) (m.simpleSection token type) := by
  unfold simpleSection
  split
  · exact hm.closes (.refl m) (.inr (.inr rfl))
  · have htitle := readsOn_sectionTitle m type
    have hfresh := isFresh_sectionTitle m type
    generalize m.sectionTitle type = title at htitle hfresh ⊢
    have hm' := hm.fills htitle.fills
    dsimp only
    split
    · next n hsame =>
      obtain ⟨parent, outer, hstack, hkind⟩ := hm'.exists_stack
      obtain ⟨before, hchildren, hn⟩ := exists_sectionBefore hstack hsame
      rw [children_eq hstack, hchildren, List.tail_cons, setChildren_eq hstack]
      have hbegins := begins_after hstack (.refl _)
        (.sectionAfter n before type hkind hchildren hn) nofun
      exact .opens htitle.fills hbegins ((Fills.refl _).phase .read) rfl rfl rfl
    · exact hm.opens htitle.fills hfresh rfl rfl (by rintro ⟨⟩) rfl

theorem keyword_goes (hm : m.InParagraph) (token : Token) : Goes m ends (m.keyword token) := by
  have htitle := readsOn_plain m true token.value
  have hbody := htitle.trans (readsOn_plain (m.plain true token.value).2 true token.text)
  have hmade := Made.keyword _ _ (isPlainText_plain m true token.value)
    (isPlainText_plain (m.plain true token.value).2 true token.text) (plainText_trimmed _)
  exact hm.read (hbody.fills.append hmade (hm.lists rfl))

/-- The names of parameters and of their types. -/
def IsNames (nodes : List Node) : Prop :=
  ∀ n ∈ nodes, ∃ content, n = .leaf content ∧ content.kind.isName

theorem IsNames.append {nodes more : List Node} (h : IsNames nodes) (hmore : IsNames more) :
    IsNames (nodes ++ more) :=
  fun n hn => (List.mem_append.1 hn).elim (h n) (hmore n)

theorem isNames_paramName (m : Machine) (name : Text) (linkable : Bool) :
    IsNames [(m.paramName name linkable).1] := by
  refine List.forall_mem_singleton.2 ?_
  unfold paramName
  split
  · exact ⟨_, rfl, rfl⟩
  · split <;> exact ⟨_, rfl, rfl⟩

theorem isNames_paramNames (linkable : Bool) (names : List Text) (m : Machine) :
    IsNames (paramNames linkable names m).1 := by
  induction names generalizing m with
  | nil => exact nofun
  | cons name rest ih => exact (isNames_paramName m name linkable).append (ih _)

theorem isNames_parameters (type : ParamSectionType) (written : List Text) (m : Machine) :
    IsNames ((parameters type written m).1.1 ++ (parameters type written m).1.2.1) := by
  induction written generalizing m with
  | nil => exact nofun
  | cons name rest ih =>
      have htypes := isNames_paramNames true ((splitTypes name).1.getD []) m
      generalize hnode : paramNames true ((splitTypes name).1.getD []) m = types at htypes
      have hname := isNames_paramName types.2 (splitTypes name).2 (type == .exception)
      unfold parameters
      dsimp only
      rw [hnode]
      rintro n hn
      have hrest := ih (types.2.paramName (splitTypes name).2 (type == .exception)).2
      simp only [List.mem_append, List.mem_cons] at hn
      rcases hn with (hn | hn) | rfl | hn
      · exact htypes n hn
      · exact hrest n (List.mem_append_left _ hn)
      · exact hname _ (List.mem_singleton_self _)
      · exact hrest n (List.mem_append_right _ hn)

theorem paramSection_goes (hm : m.InParagraph) (token : Token) (type : ParamSectionType) :
    Goes m (endsWith token) (m.paramSection token type) := by
  unfold paramSection
  split
  · exact hm.closes (.refl m) (.inr (.inr rfl))
  · have hdirection := readsOn_direction m token type
    generalize m.direction token type = direction at hdirection ⊢
    obtain ⟨parent, outer, hstack, hkind⟩ := (hm.fills hdirection.fills).exists_stack
    have hlast : ∃ parent',
        (if (direction.2.parametersBefore? type).isSome then
            direction.2.setChildren direction.2.children.tail
          else direction.2) = { direction.2 with stack := parent' :: outer } ∧
        ∀ sect, parent.Begins parent' (.paramSection sect)
          (((direction.2.parametersBefore? type).map (·.2.children.reverse)).getD []) := by
      cases hprevious : direction.2.parametersBefore? type with
      | none =>
          exact ⟨parent, hstack ▸ rfl, fun _ => .fresh _ trivial (by rw [hkind]; rfl)⟩
      | some previous =>
          obtain ⟨before, hchildren, hn⟩ := exists_parametersBefore hstack hprevious
          refine ⟨_, ?_, fun sect => .parametersAfter _ before _ sect hkind hchildren hn⟩
          rw [children_eq hstack, hchildren]
          exact setChildren_eq hstack before
    dsimp only at hlast ⊢
    generalize direction.2.parametersBefore? type = previous at hlast ⊢
    generalize (if previous.isSome then _ else direction.2 : Machine) = behind at hlast ⊢
    have hnames := readsOn_names behind.scanner.cursor.ahead.length behind
    generalize names behind.scanner.cursor.ahead.length behind = written at hnames ⊢
    have hreport := hnames.trans (readsOn_ite written.1.isEmpty
      (readsOn_report _ token (.missingParameterName token.value) rfl))
    generalize (if written.1.isEmpty then _ else written.2 : Machine) = reported at hreport ⊢
    have hfound := hreport.trans (readsOn_parameters type written.1 reported)
    have hfresh := isNames_parameters type written.1 reported
    generalize parameters type written.1 reported = found at hfound hfresh ⊢
    obtain ⟨parent', rfl, hparent⟩ := hlast
    exact .beginsWith (c := .paramList _ found.1.1 found.1.2.1) hdirection.fills
      (begins_after hstack hfound (hparent _) (by rintro ⟨⟩)) hm.stacked hfresh rfl rfl nofun
      (by rintro ⟨⟩)

theorem xrefItem_goes (hm : m.InParagraph) (token : Token) :
    Goes m (endsWith token) (m.xrefItem token) := by
  unfold xrefItem
  split
  · exact hm.closes (.refl m) (.inr (.inr rfl))
  · exact hm.opens ((readsOn_itemKey m token).fills.memory _ _ _) (by trivial) rfl rfl (by rintro ⟨⟩) rfl

/-! ### Lists -/

/-- The next item of an automatic list is begun. -/
theorem exists_openItem (hm : Stacked m.stack) (hkind : m.innermost = .autoList) (token : Token) :
    ∃ m₁, Fills m m₁ ∧ Begins m₁ (m.openItem token) ∧ (m.openItem token).phase = .read ∧
      (m.openItem token).innermost = .autoListItem := by
  obtain ⟨frame, outer, rest, hstack, hframe, -⟩ := exists_around hm (by rw [hkind]; rintro ⟨⟩)
  rw [hkind] at hframe
  unfold openItem
  rw [hstack]
  dsimp only
  cases hconstruct : frame.construct with
  | autoList list next =>
      dsimp only
      generalize token.number.getD next = number
      have hfills : Fills m { m with
          stack := { frame with construct := .autoList list (number + 1) } :: outer :: rest } := by
        refine ⟨rfl, rfl, le_rfl, rfl, .refl _ _, ?_⟩
        rw [hstack]
        exact .cons frame _ _ (.single (.construct _ (hconstruct ▸ .autoList list next _)
          fun _ => .inl (by rw [hconstruct]; rfl)))
      have hbegins := begins_push (c := .autoListItem { indent := token.indent, number }) trivial
        (by rfl) (hfills.stacked hm) nofun
      exact ⟨_, hfills, hbegins.phase .read, rfl, rfl⟩
  | _ =>
      rw [hconstruct] at hframe
      cases hframe

theorem listMarker_goes (hm : m.InParagraph) {token : Token} (htoken : token.kind = .listItem) :
    Goes m (endsWith token) (m.listMarker token) := by
  unfold listMarker
  dsimp only
  split
  · exact hm.read ((Fills.addWord (.refl m) hm.listsText _).appendText hm.listsText _ {} rfl rfl rfl)
  · split
    · exact hm.closes (.refl m) (.inr (.inr rfl))
    · generalize (List.countP _ _ : Nat) = depth
      generalize hlist : m.push (.autoList
        { indent := token.indent, isNumbered := token.flags.isNumbered, depth } 1) = m'
      have hbegins : Begins m m' :=
        hlist ▸ begins_push (c := .autoList _ 1) trivial (hm.mayHold rfl) hm.stacked nofun
      have hkind : m'.innermost = .autoList := hlist ▸ rfl
      have hstart : Fills m' { m' with scanner := m'.scanner.startList } :=
        ⟨rfl, rfl, le_rfl, rfl, .refl _ _, .refl _⟩
      obtain ⟨m₁, hfills, hitem, hphase, hinnermost⟩ :=
        exists_openItem (hstart.stacked (hbegins.stacked hm.stacked)) hkind token
      exact .opensTwo (.refl m) hbegins (hstart.trans hfills) hitem (.refl _)
        (by rw [hinnermost]; rfl) (by rw [hphase]; rfl) rfl
        fun _ => ⟨token, htoken, .inr (.inr rfl)⟩

theorem fills_endList (m : Machine) : Fills m { m with scanner := m.scanner.endList } :=
  ⟨rfl, rfl, le_rfl, rfl, .refl _ _, .refl _⟩

/-- After an item an automatic list begins the next one or ends. -/
theorem itemEnded_goes (hm : Stacked m.stack) (hkind : m.innermost = .autoList) (list : AutoList)
    (next : Whole) {outcome : Outcome} :
    Goes m (endsAfter outcome) (m.itemEnded list next outcome) := by
  have hclose : ∀ outcome', endsAfter outcome outcome' →
      Goes m (endsAfter outcome) (({ m with scanner := m.scanner.endList } : Machine).close
        outcome') := fun _ =>
    .close m.fills_endList hm (by rw [hkind]; rintro ⟨⟩) (by rw [hkind]; rintro ⟨⟩)
      (by rw [hkind]; rintro ⟨⟩) (by rw [hkind]; rintro ⟨⟩)
  unfold itemEnded
  split
  · split
    · obtain ⟨m₁, hfills, hitem, hphase, hinnermost⟩ := exists_openItem hm hkind ‹Token›
      exact .opens hfills hitem (.refl _) (by rw [hinnermost]; rfl) (by rw [hphase]; rfl) rfl
    · dsimp only
      split
      · exact hclose _ (.inl rfl)
      · exact hclose _ (.inr rfl)
  · exact hclose _ (.inr rfl)

theorem simpleList_goes (hm : m.InParagraph) (token : Token) :
    Goes m (endsWith token) (m.simpleList token) := by
  unfold simpleList
  split
  · exact hm.closes (.refl m) (.inr (.inr rfl))
  · exact .beginsWith (.refl m)
      (begins_push (c := .simpleList) trivial (hm.mayHold rfl) hm.stacked nofun) hm.stacked
      trivial rfl rfl nofun (by rintro ⟨⟩)

theorem internal_goes (hm : m.InParagraph) (token : Token) :
    Goes m (endsWith token) (m.internal token) := by
  unfold internal
  split
  · exact hm.read (readsOn_report _ _ _ rfl).fills
  · next haround =>
    refine hm.opens (c := .internal) (.refl m) trivial rfl rfl (fun _ => ?_) rfl
    obtain ⟨parent, outer, hstack, hkind⟩ := hm.exists_stack
    unfold around at haround
    rw [hstack] at haround ⊢
    refine List.forall_mem_cons.2 ⟨by rw [hkind]; nofun, fun f hf hinternal => haround ?_⟩
    refine List.any_eq_true.2 ⟨f.construct, List.mem_map_of_mem hf, ?_⟩
    generalize f.construct = construct at hinternal
    cases construct <;> first | rfl | cases hinternal

/-! ### Lists of references -/

theorem takeInRefList_goes (hm : Stacked m.stack) (hkind : m.innermost = .refList) (opener : Token)
    {token : Token} (hend : token.kind ≠ .endOfText) :
    Goes m (endsWith token) (m.takeInRefList opener token) := by
  unfold takeInRefList
  have hfilled : m.innermost.isFilled = false := by rw [hkind]; rfl
  split
  · refine .readSolid ?_ hfilled
    have htext := (readsOn_argument m).trans (readsOn_restOfLine m.argument.2)
    unfold refItem
    dsimp only
    split
    · exact (htext.trans (readsOn_report _ _ _ rfl)).fills
    · next target _ =>
      have hresolve := htext.trans (readsOn_resolve _ target)
      generalize m.argument.2.restOfLine.2.resolve target = found at hresolve ⊢
      have hitem : ∀ shown item, Fills m ((found.2.plain false shown).2.append
          (.branch (.refItem item) (found.2.plain false shown).1)) := fun shown item =>
        (hresolve.trans (readsOn_plain found.2 false shown)).fills.append
          (.titled (.refItem item) _ rfl (isPlainText_plain found.2 false shown))
          (by rw [hkind]; rfl)
      split
      · exact hitem _ _
      · exact (hitem _ _).reads (readsOn_report _ _ _ rfl)
  · split
    · exact .close (.refl m) hm (by rw [hkind]; rintro ⟨⟩) (by rw [hkind]; rintro ⟨⟩)
        (by rw [hkind]; rintro ⟨⟩) (by rw [hkind]; rintro ⟨⟩) (.inl rfl)
    · split
      · next htoken => exact absurd (by simpa using htoken) hend
      · exact .readSolid (readsOn_report _ _ _ rfl).fills hfilled

end DocMarkup.Parser.Machine
