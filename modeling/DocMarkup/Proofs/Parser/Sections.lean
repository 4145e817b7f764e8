import DocMarkup.Proofs.Aliases
import DocMarkup.Proofs.Parser.Held

/-!
Sections of a comment.  A section command ends all that is open inside the section it belongs to,
however deep that lies, and is handed back from section to section until one of a smaller level
takes it.
-/

namespace DocMarkup.Parser

/-- A section that is open, or the whole document, and the sections that have ended right below it,
the last one first. -/
structure OpenSection where
  level : Option Nat
  below : List Node

namespace OpenSection

def levels (o : OpenSection) : List Nat := o.below.filterMap Node.sectionLevel?

/-- The sections below do not go deeper again and lie deeper than the one around them. -/
structure IsOrdered (o : OpenSection) : Prop where
  falls : o.levels.Pairwise (· ≤ ·)
  deeper : ∀ level, o.level = some level → ∀ below ∈ o.levels, level < below
  sectioned : ∀ n ∈ o.below, n.Everywhere Node.IsSectioned

/-- A section that has ended below. -/
def add (o : OpenSection) (n : Node) : OpenSection := { o with below := n :: o.below }

end OpenSection

/-- Sections that are open, the innermost first: each lies deeper than the one around it, but no
deeper than those that have ended there. -/
inductive AreOrdered : List OpenSection → Prop
  | root (o : OpenSection) (hlevel : o.level = none) (ho : o.IsOrdered) : AreOrdered [o]
  | sect (o outer : OpenSection) (rest : List OpenSection) (level : Nat)
      (hlevel : o.level = some level) (ho : o.IsOrdered) (hbefore : ∀ l ∈ outer.levels, level ≤ l)
      (haround : ∀ around, outer.level = some around → around < level)
      (h : AreOrdered (outer :: rest)) : AreOrdered (o :: outer :: rest)

/-- The levels of the sections right below the document, the last one first. -/
def topLevels : List OpenSection → List Nat
  | [] => []
  | [o] => o.levels
  | [o, root] => o.level.toList ++ root.levels
  | _ :: o :: root :: rest => topLevels (o :: root :: rest)

theorem AreOrdered.head {o : OpenSection} {rest : List OpenSection} (h : AreOrdered (o :: rest)) :
    o.IsOrdered := by
  cases h with
  | root _ _ ho => exact ho
  | sect _ _ _ _ _ ho => exact ho

theorem AreOrdered.opens {o : OpenSection} {rest : List OpenSection} (h : AreOrdered (o :: rest))
    {level : Nat} (hbefore : ∀ l ∈ o.levels, level ≤ l)
    (haround : ∀ around, o.level = some around → around < level) :
    AreOrdered (⟨some level, []⟩ :: o :: rest) :=
  .sect _ o rest level rfl ⟨.nil, fun _ _ => nofun, nofun⟩ hbefore haround h

theorem AreOrdered.closes {inner o : OpenSection} {rest : List OpenSection}
    (h : AreOrdered (inner :: o :: rest)) {n : Node} (hlevel : n.sectionLevel? = inner.level)
    (hn : n.Everywhere Node.IsSectioned) :
    AreOrdered (o.add n :: rest) ∧
      topLevels (o.add n :: rest) = topLevels (inner :: o :: rest) := by
  cases h with
  | sect _ _ _ level hinner _ hbefore haround h =>
      have hlevels : (o.add n).levels = level :: o.levels := by
        rw [OpenSection.levels, OpenSection.add, List.filterMap_cons, hlevel, hinner]
        rfl
      have ho : (o.add n).IsOrdered := by
        refine ⟨?_, ?_, List.forall_mem_cons.2 ⟨hn, h.head.sectioned⟩⟩
        · rw [hlevels]
          exact .cons hbefore h.head.falls
        · rw [hlevels]
          intro around haroundLevel
          exact List.forall_mem_cons.2
            ⟨haround around haroundLevel, h.head.deeper around haroundLevel⟩
      cases h with
      | root _ hroot _ =>
          refine ⟨.root _ hroot ho, ?_⟩
          rw [topLevels, topLevels, hlevels, hinner]
          rfl
      | sect _ outer rest around ho' _ hbefore' haround' h =>
          refine ⟨.sect _ outer rest around ho' ho hbefore' haround' h, ?_⟩
          cases rest <;> rfl

/-! ### Constructs -/

/-- The level of a construct that is a section. -/
def Construct.sectionLevel? : Construct → Option Nat
  | sect s => some s.level
  | _ => none

/-- A construct as a section that is open, if it is one or the document. -/
def Frame.openSection? (f : Frame) : Option OpenSection :=
  if f.construct.kind.holdsSections then
    some ⟨f.construct.sectionLevel?, f.children.filter (·.isKind .sect)⟩
  else none

/-- The sections among the open constructs. -/
def openSections (stack : List Frame) : List OpenSection := stack.filterMap Frame.openSection?

namespace Frame

theorem openSection?_eq (f : Frame) :
    f.openSection? = f.held?.map fun part => ⟨part.1.sectionLevel?, part.2⟩ := by
  unfold openSection? held?
  split <;> rfl

/-- The node of a section, or of the document. -/
theorem toNode_isSectioned {f : Frame} {o : OpenSection} (hsound : f.Sound)
    (hf : f.openSection? = some o) (ho : o.IsOrdered) :
    f.toNode.sectionLevel? = o.level ∧ f.toNode.sectionLevels = o.levels.reverse ∧
      f.toNode.Everywhere Node.IsSectioned := by
  unfold Frame.openSection? at hf
  split at hf
  next hholds =>
    obtain rfl := Option.some.inj hf
    have hproper := hsound.toNode_of_holdsSections hholds
    have hkeeps := f.forall₂_toNode hsound.rows
    have hlevel : f.toNode.sectionLevel? = f.construct.sectionLevel? := by
      obtain ⟨construct, children, id, madeFor⟩ := f
      cases construct <;> rfl
    have hlevels : f.toNode.sectionLevels =
        ((f.children.filter (·.isKind .sect)).filterMap Node.sectionLevel?).reverse := by
      rw [Node.sectionLevels,
        Node.Matches.sectionLevels (hkeeps.imp fun _ _ => Node.Keeps.toMatches),
        List.filterMap_reverse, List.filterMap_filter]
      congr 1
      refine List.filterMap_congr fun n _ => ?_
      split
      next => rfl
      next hsect => exact Node.sectionLevel?_eq_none (by simpa [Node.isKind] using hsect)
    refine ⟨hlevel, hlevels, Node.everywhere_iff.2 ⟨⟨?_, ?_⟩, fun part hpart => ?_⟩⟩
    · rw [hlevels, List.pairwise_reverse]
      exact ho.falls
    · rw [hlevels, hlevel]
      intro level hown below hbelow
      exact ho.deeper level hown below (List.mem_reverse.1 hbelow)
    -- a section was told before; any other part holds no sections at all
    · by_cases hsect : part.kind = .sect
      · obtain ⟨before, hbefore, hkeep⟩ := Node.exists_of_mem_right hkeeps
          (hproper.here.toConforms.sect hpart hsect).2
        refine hkeep.ignored _ Node.isSectioned_ignoresMarks (ho.sectioned before ?_)
        refine List.mem_filter.2 ⟨List.mem_reverse.1 hbefore, ?_⟩
        simpa [Node.isKind, ← hkeep.kind] using hsect
      · have hconforms : part.Everywhere Node.Conforms := fun m hm =>
          (hproper.part hpart m hm).toConforms
        refine Node.Everywhere.isSectioned hconforms ?_
        have hroot := hproper.here.toConforms.part_ne_root hpart
        generalize part.kind = kind at hroot hsect
        cases kind <;> first
          | rfl
          | exact absurd rfl hroot
          | exact absurd rfl hsect
  next => cases hf

end Frame

/-! ### Moves -/

theorem openSections_eq (stack : List Frame) : openSections stack =
    (heldParts stack).map fun part => ⟨part.1.sectionLevel?, part.2⟩ := by
  rw [openSections, heldParts, List.map_filterMap]
  exact List.filterMap_congr fun f _ => f.openSection?_eq

theorem openSections_cons_of_some {f : Frame} {stack : List Frame} {o : OpenSection}
    (h : f.openSection? = some o) : openSections (f :: stack) = o :: openSections stack :=
  List.filterMap_cons_some h

theorem openSections_congr {stack stack' : List Frame} (h : heldParts stack' = heldParts stack) :
    openSections stack' = openSections stack := by
  rw [openSections_eq, openSections_eq, h]

namespace Machine

variable {m m' : Machine}

/-- The sections that are open are the same, and nothing was told of sections. -/
structure SameSections (m m' : Machine) : Prop where
  sections : openSections m'.stack = openSections m.stack
  told : m'.journal.filter Event.tellsSection = m.journal.filter Event.tellsSection

theorem SameParts.sameSections (h : SameParts m m') : SameSections m m' :=
  ⟨openSections_congr h.parts, h.told⟩

/-! ### Between sections -/

theorem filter_tellsSection_report (m : Machine) (token : Token) {problem : Problem}
    (h : problem.isFoundReading) :
    (m.report token problem).journal.filter Event.tellsSection =
      m.journal.filter Event.tellsSection := by
  refine List.filter_cons_of_neg fun htells => ?_
  exact Problem.code_ne_invalidSection h (beq_iff_eq.1 htells)

theorem journal_openParagraph (m : Machine) : m.openParagraph.journal = m.journal := by
  have hmodify (m : Machine) (f : Frame → Frame) : (m.modifyTop f).journal = m.journal := by
    unfold modifyTop
    split <;> rfl
  unfold openParagraph
  dsimp only
  generalize hopened : ({ m with reopening := [] } : Machine).push (.paragraph [] []) = opened
  have hjournal : opened.journal = m.journal := by
    subst hopened
    rfl
  rw [← hjournal]
  generalize m.reopening = styles
  clear hopened hjournal
  induction styles generalizing opened with
  | nil => rfl
  | cons entered rest ih =>
      rw [List.foldl_cons, ih]
      unfold enterStyle
      dsimp only
      split
      · exact (hmodify _ _).trans (hmodify _ _)
      · exact (hmodify _ _).trans (hmodify _ _)

/-- The construct that takes a section command, or a paragraph. -/
theorem exists_openSection (hkind : m.innermost.holdsSections) :
    ∃ f outer, m.stack = f :: outer ∧ f.construct.kind = m.innermost ∧
      ∃ o, f.openSection? = some o ∧ o.level = f.construct.sectionLevel? ∧
        openSections m.stack = o :: openSections outer := by
  unfold innermost at hkind ⊢
  cases hstack : m.stack with
  | nil =>
      rw [hstack] at hkind
      cases hkind
  | cons f outer =>
      rw [hstack] at hkind
      have ho : f.openSection? = some _ := if_pos hkind
      exact ⟨f, outer, rfl, rfl, _, ho, rfl, openSections_cons_of_some ho⟩

theorem sameSections_openParagraph (hm : Stacked m.stack) (hkind : m.innermost.holdsSections)
    (phase : Phase) : SameSections m { m.openParagraph with phase } :=
  ⟨openSections_congr (heldParts_openParagraph hm hkind),
    congrArg (List.filter Event.tellsSection) m.journal_openParagraph⟩

/-- A section is begun. -/
theorem openSection_sections (m : Machine) (token : Token) (level : Nat) :
    openSections (m.openSection token level).stack = ⟨some level, []⟩ :: openSections m.stack ∧
      (m.openSection token level).journal.filter Event.tellsSection =
        m.journal.filter Event.tellsSection ∧
      (m.openSection token level).phase = .read := by
  have hargument : m.argument.2.stack = m.stack ∧ m.argument.2.journal = m.journal := ⟨rfl, rfl⟩
  unfold openSection
  dsimp only
  generalize m.argument = label at hargument ⊢
  obtain ⟨hstack, hjournal⟩ := hargument
  refine ⟨?_, ?_, rfl⟩
  · rw [← hstack]
    refine Eq.trans (openSections_cons_of_some rfl) ?_
    cases label.1 <;> rfl
  · rw [← hjournal]
    cases label.1 with
    | none => exact filter_tellsSection_report label.2 token (by rfl)
    | some name => rfl

/-- A section ends, and its node goes to the section around it. -/
theorem close_sections (hm : m.Ready) (hconforms : m.Conforms) (hkind : m.innermost = .sect)
    (hordered : AreOrdered (openSections m.stack)) (outcome : Outcome) :
    ∃ inner o rest n, openSections m.stack = inner :: o :: rest ∧
      n.sectionLevel? = inner.level ∧
      openSections (m.close outcome).stack = o.add n :: rest ∧
      (m.close outcome).innermost.holdsSections ∧
      AreOrdered (o.add n :: rest) ∧
      topLevels (o.add n :: rest) = topLevels (openSections m.stack) ∧
      (m.close outcome).journal.filter Event.tellsSection =
        m.journal.filter Event.tellsSection := by
  have hleaves := leaves_close hm.stacked (by rw [hkind]; nofun) (by rw [hkind]; nofun)
    (by rw [hkind]; nofun) outcome
  have htop : m.isAtTop = false := isAtTop_eq_false (by rw [hkind]; nofun)
  have hjournal := (htop ▸ hleaves.journal).filter_tellsSection
  obtain ⟨f, c, below, rest, hsect, hf, hopen, hclosed, hholds⟩ :=
    exists_heldParts_close hm hkind outcome
  have hinner : f.openSection? = some _ := if_pos (by rw [hsect]; rfl)
  have hsections : openSections m.stack =
      ⟨f.construct.sectionLevel?, f.children.filter (·.isKind .sect)⟩ ::
        ⟨c.sectionLevel?, below⟩ :: rest.map fun part => ⟨part.1.sectionLevel?, part.2⟩ := by
    rw [openSections_eq, hopen]
    rfl
  rw [hsections] at hordered ⊢
  obtain ⟨hlevel, -, hsectioned⟩ :=
    Frame.toNode_isSectioned (hconforms.sound.frame hf) hinner hordered.head
  obtain ⟨hordered', htop'⟩ := hordered.closes hlevel hsectioned
  refine ⟨_, _, _, f.toNode, rfl, hlevel, ?_, hholds, hordered', htop', hjournal⟩
  rw [openSections_eq, hclosed]
  rfl

/-- The sections that have ended right below the innermost open one do not keep the machine from
going on: there are none, a command comes that begins or ends a section there, or the text is at its
end. -/
inductive Awaits (m : Machine) (o : OpenSection) : Prop
  | nothing (h : o.below = [])
  | command (token : Token) (level : Nat)
      (hphase : m.phase = .take token ∨ m.phase = .ended (.handBack token))
      (hlevel : sectionLevel? token = some level) (hkind : m.innermost.holdsSections)
      (hle : ∀ l ∈ o.levels, level ≤ l)
  | endOfText (hphase : m.phase = .ended .endOfText ∨ m.phase = .finished)
      (hkind : m.innermost.holdsSections)

end Machine

/-- What is told of a section: how severe that is, and the level of the command. -/
def Event.told : Event → Option (Severity × Option Nat)
  | .reported d => some (d.severity, d.subject.bind Command.sectionLevel?)
  | _ => none

/-- What has been told of sections is right if the sections right below the document have these
levels. -/
def AreTold (journal : List Event) (levels : List Nat) : Prop :=
  (journal.filter Event.tellsSection).map Event.told =
    (levels.filter (1 < ·)).map fun level => some (.warning, some level)

namespace Machine

variable {m m' : Machine}

/-- The sections read so far are in order. -/
structure InSections (m : Machine) : Prop where
  ordered : AreOrdered (openSections m.stack)
  awaits : ∀ o rest, openSections m.stack = o :: rest → Awaits m o
  told : AreTold m.journal (topLevels (openSections m.stack))

theorem SameSections.inSections (h : SameSections m m') (hm : m.InSections)
    (hawaits : ∀ o rest, openSections m.stack = o :: rest → Awaits m' o) : m'.InSections where
  ordered := h.sections ▸ hm.ordered
  awaits := h.sections ▸ hawaits
  told := by
    rw [AreTold, h.told, h.sections]
    exact hm.told

/-- Where no command of a section is about to be taken up, no section has ended. -/
theorem InSections.below_eq_nil (hm : m.InSections) {o : OpenSection} {rest : List OpenSection}
    (ho : openSections m.stack = o :: rest)
    (hphase : ∀ token level, m.phase = .take token ∨ m.phase = .ended (.handBack token) →
      sectionLevel? token = some level → m.innermost.holdsSections = false)
    (hend : m.phase = .ended .endOfText ∨ m.phase = .finished →
      m.innermost.holdsSections = false) : o.below = [] := by
  cases hm.awaits o rest ho with
  | nothing h => exact h
  | command token level htoken hlevel hkind =>
      exact absurd ((hphase token level htoken hlevel).symm.trans hkind) nofun
  | endOfText hphase hkind => exact absurd ((hend hphase).symm.trans hkind) nofun

theorem InSections.level_le (hm : m.InSections) {o : OpenSection} {rest : List OpenSection}
    (ho : openSections m.stack = o :: rest) {token : Token} {level : Nat}
    (hphase : m.phase = .take token ∨ m.phase = .ended (.handBack token))
    (hlevel : sectionLevel? token = some level) : ∀ l ∈ o.levels, level ≤ l := by
  cases hm.awaits o rest ho with
  | nothing h =>
      rw [OpenSection.levels, h]
      exact nofun
  | command other level' hother hlevel' _ hle =>
      obtain rfl : other = token := by
        rcases hphase with hphase | hphase <;> rcases hother with hother | hother <;>
          cases hphase.symm.trans hother <;> rfl
      obtain rfl := Option.some.inj (hlevel.symm.trans hlevel')
      exact hle
  | endOfText hend =>
      rcases hphase with hphase | hphase <;> rcases hend with hend | hend <;>
        cases hphase.symm.trans hend

/-- The token that a section command is. -/
theorem eq_of_sectionLevel? {token : Token} {level : Nat} (h : sectionLevel? token = some level) :
    Command.sectionLevel? token.value = some level := by
  unfold sectionLevel? at h
  split at h
  · exact h
  · cases h

/-- The report of a section of a wrong level. -/
theorem told_report {token : Token} {level : Nat} (h : sectionLevel? token = some level)
    (m : Machine) :
    ∃ event, (m.report token (.sectionAtTopLevel token.value)).journal = event :: m.journal ∧
      event.tellsSection ∧ event.told = some (.warning, some level) := by
  have hvalue := eq_of_sectionLevel? h
  have hne : token.value.isEmpty = false := by
    rw [Bool.eq_false_iff, ne_eq, List.isEmpty_iff]
    intro hnil
    have hnone : Command.sectionLevel? [] = none := by decide
    rw [hnil, hnone] at hvalue
    cases hvalue
  refine ⟨_, rfl, rfl, ?_⟩
  simp only [Event.told, Problem.toDiagnostic, hne]
  exact congrArg (fun level => some (Severity.warning, level)) hvalue

/-- A paragraph is begun for a token that is no section command. -/
theorem openParagraph_inSections (hm : m.Ready) (h : m.InSections)
    (hkind : m.innermost.holdsSections) {token : Token} (hphase : m.phase = .take token)
    (hnone : sectionLevel? token = none) : (m.openParagraph.take token).InSections := by
  refine (sameSections_openParagraph hm.stacked hkind _).inSections h fun o rest ho => ?_
  refine .nothing (h.below_eq_nil ho (fun other level hother hlevel => ?_) fun hend => ?_)
  · rcases hother with hother | hother <;> cases hphase.symm.trans hother
    exact absurd (hnone.symm.trans hlevel) nofun
  · rcases hend with hend | hend <;> cases hphase.symm.trans hend

section

variable {o : OpenSection} {rest : List OpenSection} {token : Token} {level : Nat}

/-- A section is begun that lies deeper than the one around it. -/
theorem openSection_inSections (h : m.InSections) (ho : openSections m.stack = o :: rest)
    (hphase : m.phase = .take token) (htoken : sectionLevel? token = some level)
    (haround : ∀ around, o.level = some around → around < level) (hm' : m'.stack = m.stack)
    (htold : AreTold m'.journal (topLevels (⟨some level, []⟩ :: o :: rest))) :
    (m'.openSection token level).InSections := by
  obtain ⟨hsections, hjournal, -⟩ := openSection_sections m' token level
  rw [hm', ho] at hsections
  have hordered := h.ordered
  rw [ho] at hordered
  refine ⟨?_, ?_, ?_⟩
  · rw [hsections]
    exact hordered.opens (h.level_le ho (.inl hphase) htoken) haround
  · intro opened rest hopened
    rw [hsections] at hopened
    exact .nothing (by rw [← (List.cons.inj hopened).1])
  · rw [AreTold, hjournal, hsections]
    exact htold

/-- At the top level any section may begin; what is told of it depends on its level alone. -/
theorem openSection_atTopLevel (h : m.InSections) (ho : openSections m.stack = o :: rest)
    (hlevel : o.level = none) (hphase : m.phase = .take token)
    (htoken : sectionLevel? token = some level) :
    ((if 1 < level then m.report token (.sectionAtTopLevel token.value) else m).openSection token
      level).InSections := by
  obtain rfl : rest = [] := by
    have hordered := h.ordered
    rw [ho] at hordered
    cases hordered with
    | root => rfl
    | sect _ _ _ _ hsome => cases hlevel.symm.trans hsome
  have htold := h.told
  rw [ho] at htold
  refine openSection_inSections h ho hphase htoken
    (fun around haround => by cases hlevel.symm.trans haround) ?_ ?_
  · split <;> rfl
  · show AreTold _ (level :: o.levels)
    split
    next hlt =>
      obtain ⟨event, hjournal, htells, hevent⟩ := told_report htoken m
      rw [AreTold, hjournal, List.filter_cons_of_pos htells, List.map_cons, hevent,
        List.filter_cons_of_pos (by simpa using hlt), List.map_cons]
      exact congrArg _ htold
    next hle =>
      rw [AreTold, List.filter_cons_of_neg (by simpa using hle)]
      exact htold

/-- A section that is open hides what lies directly below the document. -/
theorem InSections.told_opened (h : m.InSections) (ho : openSections m.stack = o :: rest)
    {own : Nat} (hown : o.level = some own) :
    AreTold m.journal (topLevels (⟨some level, []⟩ :: o :: rest)) := by
  have htold := h.told
  have hordered := h.ordered
  rw [ho] at htold hordered
  cases hordered with
  | root _ hnone => cases hown.symm.trans hnone
  | sect => exact htold

/-- The command of a section that is not deeper ends the section, and goes to the one around it. -/
theorem close_inSections (hm : m.Ready) (hconforms : m.Conforms) (h : m.InSections)
    (hkind : m.innermost = .sect) (ho : openSections m.stack = o :: rest) {own : Nat}
    (hown : o.level = some own) (htoken : sectionLevel? token = some level) (hle : level ≤ own) :
    (m.close (.handBack token)).InSections := by
  obtain ⟨inner, around, rest, n, hsections, hn, hclosed, hkind', hordered, htop, hjournal⟩ :=
    close_sections hm hconforms hkind h.ordered (.handBack token)
  obtain rfl : inner = o := (List.cons.inj (hsections.symm.trans ho)).1
  have hbefore : ∀ l ∈ around.levels, own ≤ l := by
    have hordered := h.ordered
    rw [hsections] at hordered
    cases hordered with
    | sect _ _ _ _ hsome _ hbefore =>
        obtain rfl := Option.some.inj (hown.symm.trans hsome)
        exact hbefore
  refine ⟨hclosed ▸ hordered, ?_, ?_⟩
  · intro opened rest' hopened
    rw [hclosed] at hopened
    obtain rfl := (List.cons.inj hopened).1
    refine .command token level (.inr (phase_close hm.stacked _)) htoken hkind' ?_
    rw [hown] at hn
    rw [OpenSection.levels, OpenSection.add, List.filterMap_cons, hn]
    exact List.forall_mem_cons.2 ⟨hle, fun l hl => hle.trans (hbefore l hl)⟩
  · rw [AreTold, hjournal, hclosed, htop]
    exact h.told

end

theorem dispatch_sections (hm : m.Ready) (hconforms : m.Conforms) (h : m.InSections)
    (hkind : m.innermost.holdsSections) {token : Token} (hphase : m.phase = .take token) :
    (m.dispatch token).InSections := by
  obtain ⟨f, outer, hstack, hinner, o, -, hlevel, ho⟩ := exists_openSection hkind
  unfold dispatch
  rw [hstack]
  dsimp only
  cases hconstruct : f.construct with
  | root singleLine =>
      dsimp only
      rw [hconstruct] at hlevel
      cases htoken : sectionLevel? token with
      | none => exact openParagraph_inSections hm h hkind hphase htoken
      | some level => exact openSection_atTopLevel h ho hlevel hphase htoken
  | sect s =>
      dsimp only
      rw [hconstruct] at hlevel hinner
      cases htoken : sectionLevel? token with
      | none => exact openParagraph_inSections hm h hkind hphase htoken
      | some level =>
          dsimp only
          split
          next hle => exact close_inSections hm hconforms h hinner.symm ho hlevel htoken hle
          next hlt =>
            refine openSection_inSections h ho hphase htoken (fun around haround => ?_) rfl
              (h.told_opened ho hlevel)
            obtain rfl := Option.some.inj (hlevel.symm.trans haround)
            exact Nat.lt_of_not_le hlt
  | _ =>
      rw [hconstruct] at hinner
      rw [← hinner] at hkind
      cases hkind

theorem sectionPartEnded_sections (h : m.InSections) {outcome : Outcome}
    (hphase : m.phase = .ended outcome) (houtcome : outcome ≠ .endOfText)
    (hkind : m.innermost.holdsSections) {unexpected : Text → Problem}
    (hunexpected : ∀ t, (unexpected t).isFoundReading) :
    (m.sectionPartEnded outcome unexpected).InSections := by
  have hend : m.phase = .ended .endOfText ∨ m.phase = .finished →
      m.innermost.holdsSections = false := by
    rintro (hend | hend) <;> cases hphase.symm.trans hend
    exact absurd rfl houtcome
  have hread (hnone : ∀ token, outcome = .handBack token → sectionLevel? token = none) {m' : Machine}
      (hsame : SameSections m m') : m'.InSections := by
    refine hsame.inSections h fun o rest ho => .nothing (h.below_eq_nil ho ?_ hend)
    intro token level htoken hlevel
    rcases htoken with htoken | htoken <;> cases hphase.symm.trans htoken
    exact absurd ((hnone token rfl).symm.trans hlevel) nofun
  unfold sectionPartEnded
  split
  · next token =>
    split
    · next hsome =>
      obtain ⟨level, hlevel⟩ := Option.isSome_iff_exists.1 hsome
      refine ⟨h.ordered, fun o rest ho => ?_, h.told⟩
      exact .command token level (.inl rfl) hlevel hkind (h.level_le ho (.inr hphase) hlevel)
    · next hnone =>
      refine hread (fun other hother => ?_)
        ⟨rfl, filter_tellsSection_report m token (hunexpected _)⟩
      obtain rfl := Outcome.handBack.inj hother
      simpa using hnone
  · next hback =>
    exact hread (fun token htoken => absurd htoken (hback token)) ⟨rfl, rfl⟩

theorem resume_sections (hm : m.Ready) (hconforms : m.Conforms) (h : m.InSections)
    (hkind : m.innermost.holdsSections) {outcome : Outcome} (hphase : m.phase = .ended outcome) :
    (m.resume outcome).InSections := by
  obtain ⟨f, outer, hstack, hinner, -⟩ := exists_openSection hkind
  unfold resume
  rw [hstack]
  dsimp only
  cases hconstruct : f.construct with
  | root singleLine =>
      dsimp only
      split
      · rw [← hstack]
        refine ⟨h.ordered, fun o rest ho => ?_, h.told⟩
        exact .endOfText (.inr rfl) hkind
      · next hend =>
        exact sectionPartEnded_sections h hphase (by simpa using hend) hkind fun _ => rfl
  | sect s =>
      dsimp only
      split
      · next hend =>
        rw [hconstruct] at hinner
        obtain ⟨inner, o, rest, n, -, -, hclosed, hkind', hordered, htop, hjournal⟩ :=
          close_sections hm hconforms hinner.symm h.ordered outcome
        refine ⟨hclosed ▸ hordered, fun _ _ _ => .endOfText (.inl ?_) hkind', ?_⟩
        · rw [phase_close hm.stacked, beq_iff_eq.1 hend]
        · rw [AreTold, hjournal, hclosed, htop]
          exact h.told
      · next hend =>
        exact sectionPartEnded_sections h hphase (by simpa using hend) hkind fun _ => rfl
  | _ =>
      rw [hconstruct] at hinner
      rw [← hinner] at hkind
      cases hkind

/-- Where sections may begin, a step reads a token, gives one to the construct, or goes on behind a
construct that has ended. -/
theorem step_of_holdsSections (hm : m.Ready) (hphase : m.phase ≠ .finished)
    (hkind : m.innermost.holdsSections) :
    (m.phase.isReading ∧ ∃ phase, m.step = { m.next.2 with phase }) ∨
      (∃ token, m.phase = .take token ∧ m.step = m.dispatch token) ∨
      ∃ outcome, m.phase = .ended outcome ∧ m.step = m.resume outcome := by
  unfold step
  cases hphase' : m.phase with
  | read => exact .inl ⟨rfl, _, rfl⟩
  | readSolid =>
      dsimp only
      split
      · exact .inl ⟨rfl, _, rfl⟩
      · exact .inl ⟨rfl, _, rfl⟩
  | readWord style =>
      -- a styled word stands in text, and no construct of text holds sections
      have hlists := (hm.word style hphase').1 .word rfl
      generalize m.innermost = kind at hkind hlists
      cases kind <;> first
        | (cases hkind; done)
        | cases hlists
  | take token => exact .inr (.inl ⟨token, rfl, rfl⟩)
  | ended outcome => exact .inr (.inr ⟨outcome, rfl, rfl⟩)
  | finished => exact absurd hphase' hphase

/-- Every step keeps the sections in order. -/
theorem step_sections (hm : m.Ready) (hconforms : m.Conforms) (hphase : m.phase ≠ .finished)
    (h : m.InSections) : m.step.InSections := by
  cases hkind : m.innermost.holdsSections with
  | false =>
      refine ((step_turn hm hphase).sameParts hkind).sameSections.inSections h fun o rest ho => ?_
      exact .nothing (h.below_eq_nil ho (fun _ _ _ _ => hkind) fun _ => hkind)
  | true =>
      rcases step_of_holdsSections hm hphase hkind with
        ⟨hreading, phase, heq⟩ | ⟨token, htake, heq⟩ | ⟨outcome, hended, heq⟩
      · rw [heq]
        refine (sameParts_next m phase).sameSections.inSections h fun o rest ho => .nothing ?_
        refine h.below_eq_nil ho (fun token level htoken => ?_) fun hend => ?_
        · rcases htoken with htoken | htoken <;> rw [htoken] at hreading <;> cases hreading
        · rcases hend with hend | hend <;> rw [hend] at hreading <;> cases hreading
      · exact heq ▸ dispatch_sections hm hconforms h hkind htake
      · exact heq ▸ resume_sections hm hconforms h hkind hended

theorem run_sections (hm : m.Ready) (hconforms : m.Conforms) (h : m.InSections) (n : Nat) :
    (run n m).InSections := by
  induction n generalizing m with
  | zero => exact h
  | succ n ih =>
      unfold run
      split
      · exact h
      · next hdone =>
        have hphase : m.phase ≠ .finished := fun hphase => hdone ((isDone_iff hm).2 hphase)
        have hturn := step_turn hm hphase
        exact ih (hturn.ready hm) (hturn.conforms hm.stacked hconforms)
          (step_sections hm hconforms hphase h)

end Machine

/-! ### Comments -/

theorem start_inSections (p : Parser) (setting : Setting) : (p.start setting).InSections where
  ordered := .root _ rfl ⟨.nil, fun _ _ => nofun, nofun⟩
  awaits := by
    intro o rest ho
    exact .nothing (by rw [← (List.cons.inj ho).1]; rfl)
  told := rfl

/-- What is told of sections in the problems of a comment. -/
theorem diagnostics_tellSections (p : Parser) (comment : Comment) :
    ((p.parse comment).1.diagnostics.filter (·.code == .invalidSection)).map
        (fun d => some (d.severity, d.subject.bind Command.sectionLevel?)) =
      ((p.final comment).journal.reverse.filter Event.tellsSection).map Event.told := by
  have halias :
      (p.parse comment).1.aliasDiagnostics.filter (·.code == .invalidSection) = [] := by
    refine List.filter_eq_nil_iff.2 fun diagnostic hdiagnostic htells => ?_
    exact expandAliases_code_ne p.options comment diagnostic hdiagnostic (beq_iff_eq.1 htells)
  have hevents (events : List Event) :
      ((events.filterMap fun
          | .reported diagnostic => some diagnostic
          | _ => none).filter (·.code == .invalidSection)).map
        (fun d => some (d.severity, d.subject.bind Command.sectionLevel?)) =
      (events.filter Event.tellsSection).map Event.told := by
    induction events with
    | nil => rfl
    | cons event events ih =>
        cases event with
        | reported d =>
            cases hcode : d.code == .invalidSection <;>
              simp [Event.tellsSection, Event.told, hcode, ih]
        | scanned | entered | asked => simpa [Event.tellsSection] using ih
  have hopen : ((p.final comment).reopening.map (openStyleReport (p.final comment))).filter
      Event.tellsSection = [] := by
    refine List.filter_eq_nil_iff.2 fun event hevent => ?_
    obtain ⟨entered, -, rfl⟩ := List.mem_map.1 hevent
    rintro ⟨⟩
  unfold Result.diagnostics
  rw [List.filter_append, halias, List.nil_append]
  refine (hevents _).trans ?_
  rw [parse_events, List.filter_append, hopen, List.append_nil]

/-- Sections of a comment stand where their levels say.  Each belongs to the last section before it
of a smaller level, or to the document if there is none, so a section within another lies deeper
than it.  Paragraphs have no sections in them.  The warnings of sections at the top level are those
of the sections right below the document that lie deeper than the first level, in their order. -/
theorem parse_sections (p : Parser) (comment : Comment) :
    let result := (p.parse comment).1
    let t := LinkedTree.ofNode result.root
    let warnings := result.diagnostics.filter (·.code == .invalidSection)
    (∀ id level, t.sectionLevel? id = some level →
      t.above? id = some (t.enclosing level id) ∧
        ∀ around, t.sectionLevel? (t.enclosing level id) = some around → around < level) ∧
      (∀ n, result.root.Reaches n → n.kind = .paragraph → n.Everywhere (·.kind ≠ .sect)) ∧
      warnings.map (fun d => (d.severity, d.subject.bind Command.sectionLevel?)) =
        (result.root.sectionLevels.filter (1 < ·)).map fun level => (.warning, some level) := by
  intro result t warnings
  obtain ⟨hkind, hconforms⟩ := p.parse_conforms comment
  obtain ⟨f, hstack, hf⟩ := (final_ready p comment).stack_of_finished (final_finished p comment)
  have hfinal : (p.final comment).InSections :=
    Machine.run_sections (start_ready p _) (start_conforms p _) (start_inSections p _) _
  have hsound := (p.final_conforms comment).sound
  have htold := hfinal.told
  have hordered := hfinal.ordered
  have hroot : result.root = f.toNode := by
    rw [show result.root = _ from parse_root p comment, hstack]
    rfl
  obtain ⟨o, ho⟩ : ∃ o, f.openSection? = some o := ⟨_, if_pos (by rw [hf]; rfl)⟩
  have hsections : openSections (p.final comment).stack = [o] := by
    rw [hstack]
    exact openSections_cons_of_some ho
  rw [hsections] at htold hordered
  rw [hstack] at hsound
  cases hsound with
  | cons _ _ hf =>
      obtain ⟨-, hlevels, hsectioned⟩ := Frame.toNode_isSectioned hf ho hordered.head
      rw [← hroot] at hlevels hsectioned
      refine ⟨fun id level => LinkedTree.above?_eq_enclosing hkind hconforms hsectioned, ?_, ?_⟩
      · intro n hn hparagraph
        refine Node.Everywhere.kind_ne_sect (fun m hm => hconforms m (hn.trans hm)) ?_
        rw [hparagraph]
        rfl
      · refine List.map_injective_iff.2 (fun _ _ => Option.some.inj) ?_
        rw [List.map_map, List.map_map, hlevels, List.filter_reverse, List.map_reverse]
        refine (diagnostics_tellSections p comment).trans ?_
        rw [List.filter_reverse, List.map_reverse]
        exact congrArg List.reverse htold

/-- A subsection at the top level, a section that a command in lists begins, and another subsection
in a block in a table, which belongs to that section. -/
theorem parse_sections_inside_blocks :
    let comment : Comment :=
      { text := units ("\\subsection a A\n- x <ul><li>\\section b B\n" ++
          "<table><tr><td>\\parblock \\subsection c C\n") }
    let result := (({} : Parser).parse comment).1
    let t := LinkedTree.ofNode result.root
    [1, 10, 17].map t.sectionLevel? = [some 2, some 1, some 2] ∧
      t.above? 1 = some 0 ∧ t.above? 10 = some 0 ∧ t.above? 17 = some 10 ∧
      ((result.diagnostics.filter (·.code == .invalidSection)).map fun d =>
        (d.severity, d.subject.bind Command.sectionLevel?)) = [(.warning, some 2)] := by
  intro comment result t
  obtain ⟨hparents, -, hwarnings⟩ := parse_sections {} comment
  have hread : [1, 10, 17].map t.sectionLevel? = [some 2, some 1, some 2] ∧
      [t.enclosing 2 1, t.enclosing 1 10, t.enclosing 2 17] = [0, 0, 10] ∧
      result.root.sectionLevels = [2, 1] := by
    decide +kernel
  obtain ⟨hlevels, henclosing, htop⟩ := hread
  simp only [List.map_cons, List.map_nil, List.cons.injEq, and_true] at hlevels henclosing
  obtain ⟨hfirst, hsecond, hthird⟩ := hlevels
  have habove (id level parent : Nat) (hlevel : t.sectionLevel? id = some level)
      (hparent : t.enclosing level id = parent) : t.above? id = some parent :=
    (hparents id level hlevel).1.trans (congrArg some hparent)
  refine ⟨by simp [hfirst, hsecond, hthird], habove 1 2 0 hfirst henclosing.1,
    habove 10 1 0 hsecond henclosing.2.1, habove 17 2 10 hthird henclosing.2.2, ?_⟩
  rw [hwarnings, htop]
  rfl

end DocMarkup.Parser
