import DocMarkup.Proofs.Parser.Conformance
import DocMarkup.Proofs.Parser.Unnumbered

/-!
The numbers that a machine has given and those in its open constructs.  What has been read is not
lost: constructs that end hand on their numbers, and what is dropped has none.
-/

namespace DocMarkup.Parser

/-- The number a construct has itself. -/
def Construct.entry : Construct → List Content
  | .xrefItem item => [.xrefItem item]
  | _ => []

theorem Construct.entry_eq_nil {c : Construct} (h : c.kind ≠ .xrefItem) : c.entry = [] := by
  cases c <;> first
    | rfl
    | exact absurd rfl h

/-- The numbers in an open construct, in document order; of each it is told whether it stands in a
synthetic part of a paragraph, which may be dropped. -/
def Frame.entries (f : Frame) : List (Content × Bool) :=
  f.construct.entry.map (·, false) ++ f.children.reverse.flatMap fun n =>
    n.numbered.map (·, f.construct.kind == .paragraph && n.isSynthetic)

namespace Machine

/-- The numbers given so far. -/
def numbering (m : Machine) : Numbering := ⟨m.items, m.formulas⟩

/-- The numbers in the open constructs, in document order. -/
def entries (m : Machine) : List (Content × Bool) := m.stack.reverse.flatMap Frame.entries

/-- The numbers given so far and those in the open constructs. -/
def ledger (m : Machine) : Numbering × List (Content × Bool) := (m.numbering, m.entries)

theorem Reads.ledger {α : Type} {read : Machine → α × Machine} (h : Reads read) (m : Machine) :
    (read m).2.ledger = m.ledger :=
  (congrArg (fun r : α × Machine => r.2.ledger) (h m m.stack m.items m.formulas) :)

variable {m m' : Machine}

theorem ledger_congr (hstack : m'.stack = m.stack) (hnumbering : m'.numbering = m.numbering) :
    m'.ledger = m.ledger := by
  rw [ledger, ledger, entries, entries, hstack, hnumbering]

@[simp] theorem ledger_read (m : Machine) : m.read.ledger = m.ledger := rfl

@[simp] theorem ledger_readSolid (m : Machine) : m.readSolid.ledger = m.ledger := rfl

@[simp] theorem ledger_take (m : Machine) (token : Token) : (m.take token).ledger = m.ledger := rfl

@[simp]
theorem ledger_ended (m : Machine) (outcome : Outcome) : (m.ended outcome).ledger = m.ledger := rfl

@[simp]
theorem ledger_record (m : Machine) (event : Event) : (m.record event).ledger = m.ledger := rfl

@[simp]
theorem ledger_report (m : Machine) (token : Token) (problem : Problem) :
    (m.report token problem).ledger = m.ledger := rfl

@[simp]
theorem ledger_reportUnclosed (m : Machine) (opener : Token) :
    (m.reportUnclosed opener).ledger = m.ledger := rfl

@[simp]
theorem ledger_setInsidePre (m : Machine) (insidePre : Bool) :
    (m.setInsidePre insidePre).ledger = m.ledger := rfl

/-! ### Work on the innermost construct -/

theorem entries_cons {f : Frame} {outer : List Frame} (h : m.stack = f :: outer) :
    m.entries = outer.reverse.flatMap Frame.entries ++ f.entries := by
  rw [entries, h, List.reverse_cons, List.flatMap_append, List.flatMap_singleton]

theorem ledger_modifyTop {f : Frame → Frame}
    (h : ∀ frame outer, m.stack = frame :: outer → (f frame).entries = frame.entries) :
    (m.modifyTop f).ledger = m.ledger := by
  unfold modifyTop
  split
  · rfl
  · next frame outer hstack =>
    rw [ledger, ledger, entries_cons hstack, ← h frame outer hstack]
    exact congrArg (m.numbering, ·) (entries_cons rfl)

@[simp]
theorem ledger_append (m : Machine) {n : Node} (h : n.numbered = []) :
    (m.append n).ledger = m.ledger := by
  refine ledger_modifyTop fun frame _ _ => ?_
  simp [Frame.entries, h]

theorem ledger_appendAll (m : Machine) {nodes : List Node}
    (h : nodes.flatMap Node.numbered = []) : (m.appendAll nodes).ledger = m.ledger := by
  induction nodes generalizing m with
  | nil => rfl
  | cons n rest ih =>
      rw [List.flatMap_cons, List.append_eq_nil_iff] at h
      show ((m.append n).appendAll rest).ledger = m.ledger
      rw [ih _ h.2, ledger_append m h.1]

theorem entries_append {f : Frame} {outer : List Frame} (h : m.stack = f :: outer) (n : Node) :
    (m.append n).entries =
      m.entries ++ n.numbered.map (·, f.construct.kind == .paragraph && n.isSynthetic) := by
  rw [append_eq h, entries_cons rfl, entries_cons h, List.append_assoc, Frame.entries,
    Frame.entries, List.reverse_cons, List.flatMap_append, List.flatMap_singleton,
    List.append_assoc]

theorem entries_push (m : Machine) (c : Construct) :
    (m.push c).entries = m.entries ++ c.entry.map (·, false) :=
  (entries_cons rfl).trans (congrArg (m.entries ++ ·) (List.append_nil _))

@[simp]
theorem ledger_push (m : Machine) {c : Construct} (h : c.entry = []) :
    (m.push c).ledger = m.ledger := by
  rw [ledger, ledger, entries_push, h]
  exact congrArg (m.numbering, ·) (List.append_nil _)

end Machine

/-! ### Children -/

theorem flatMap_reverse_dropWhile {α β : Type} {p : α → Bool} {tell : α → List β} {l : List α}
    (h : ∀ a ∈ l, p a → tell a = []) :
    (l.dropWhile p).reverse.flatMap tell = l.reverse.flatMap tell := by
  induction l with
  | nil => rfl
  | cons a l ih =>
      obtain ⟨ha, hl⟩ := List.forall_mem_cons.1 h
      cases hp : p a with
      | false => rw [List.dropWhile_cons_of_neg (Bool.eq_false_iff.1 hp)]
      | true =>
          rw [List.dropWhile_cons_of_pos hp, ih hl, List.reverse_cons, List.flatMap_append,
            List.flatMap_singleton, ha hp, List.append_nil]

namespace Frame

/-- A frame with other children has the same numbers if nothing that is told of numbers, steps of
include commands being all alike, tells the children apart. -/
theorem entries_withChildren (f : Frame) {children : List Node}
    (h : ∀ tell : Node → List (Content × Bool), (∀ n, n.numbered = [] → tell n = []) →
      (∀ n step step', n.content = .includeStep step →
        tell (n.withContent (.includeStep step')) = tell n) →
      children.reverse.flatMap tell = f.children.reverse.flatMap tell) :
    ({ f with children } : Frame).entries = f.entries := by
  refine congrArg (_ ++ ·) (h _ (fun n hn => by rw [hn]; rfl) fun n step step' hn => ?_)
  rw [Node.numbered_withContent (by rw [hn]; rfl) rfl]
  rfl

variable {f : Frame}

theorem Sound.space (hf : f.Sound) : ∀ n ∈ f.children, n.isKind .whiteSpace → n.numbered = [] := by
  intro n hn hspace
  refine Node.numbered_textual (hf.held.children n hn).2 ?_
  rw [eq_of_beq hspace]
  rfl

theorem Sound.entries_trim (hf : f.Sound) :
    ({ f with children := dropTrailingSpace f.children } : Frame).entries = f.entries :=
  f.entries_withChildren fun _ htell _ =>
    flatMap_reverse_dropWhile fun n hn hspace => htell n (hf.space n hn hspace)

theorem entries_continueRun (f : Frame) :
    ({ f with children := Machine.continueRun f.children } : Frame).entries = f.entries := by
  refine f.entries_withChildren fun tell _ htell => ?_
  generalize f.children = children
  unfold Machine.continueRun
  split
  · rfl
  · split
    · next hstep => simp [htell _ _ _ (Machine.includeStep?_eq_some hstep)]
    · split
      · split
        · rfl
        · split
          · next hstep => simp [htell _ _ _ (Machine.includeStep?_eq_some hstep)]
          · rfl
      · rfl

/-- No number stands where it may be dropped. -/
def IsClean (f : Frame) : Prop := ∀ entry ∈ f.entries, entry.2 = false

theorem IsClean.entries_eq (hf : f.IsClean) :
    f.entries =
      (f.construct.entry ++ f.children.reverse.flatMap Node.numbered).map (·, false) := by
  have hcontents : f.entries.map Prod.fst =
      f.construct.entry ++ f.children.reverse.flatMap Node.numbered := by
    simp [entries, List.map_flatMap, Function.comp_def]
  rw [← hcontents, List.map_map]
  refine (List.map_id _).symm.trans (List.map_congr_left fun entry hentry => ?_)
  exact Prod.ext rfl (hf entry hentry)

theorem numbered_children_toNode (f : Frame) :
    f.toNode.children.flatMap Node.numbered = f.children.reverse.flatMap Node.numbered := by
  obtain ⟨construct, children, id, madeFor⟩ := f
  cases construct with
  | table attributes given opener => exact Node.numbered_numberRows ..
  | row => exact numbered_markCells _
  | paramSection => exact numbered_markParamLists _
  | paragraph | autoList | simpleList | refList | list | descList | descTitle | caption | header
  | hyperlink | link => rfl
  | root | sect | simpleSection | paramList | xrefItem | autoListItem | simpleListItem | internal
  | parBlock | listItem | descData | cell | blockQuote => exact numbered_markParagraphs _

/-- The numbers of a construct that ends are those of its node. -/
theorem numbered_toNode (hf : Node.Headed f.construct.kind f.construct.types f.construct.heads) :
    f.toNode.numbered = f.construct.entry ++ f.children.reverse.flatMap Node.numbered := by
  have hentry : (if f.toNode.content.isNumbered then [f.toNode.content] else []) =
      f.construct.entry := by
    obtain ⟨construct, children, id, madeFor⟩ := f
    cases construct <;> rfl
  rw [Node.numbered_eq, hentry, Node.parts, List.flatMap_append, types_toNode, heads_toNode,
    hf.numbered_eq_nil, numbered_children_toNode, List.nil_append]

/-- A synthetic node of a paragraph has no numbers. -/
theorem IsClean.synthetic (hf : f.IsClean) (hkind : f.construct.kind = .paragraph) :
    ∀ n ∈ f.children, n.isSynthetic → n.numbered = [] := by
  intro n hn hsynthetic
  refine List.eq_nil_iff_forall_not_mem.2 fun content hcontent => ?_
  have hentry : (content, true) ∈ f.entries := by
    refine List.mem_append_right _ (List.mem_flatMap.2 ⟨n, List.mem_reverse.2 hn, ?_⟩)
    rw [hkind, hsynthetic]
    exact List.mem_map_of_mem hcontent
  cases hf _ hentry

/-- White space and synthetic nodes have no numbers, so a paragraph that ends keeps its own. -/
theorem Sound.entries_finishedChildren (hf : f.Sound) (hclean : f.IsClean)
    (hkind : f.construct.kind = .paragraph) (styles : List OpenStyle) (insidePre : Bool)
    (position : Nat) :
    ({ f with
        children := Machine.finishedChildren f.children styles insidePre position } : Frame).entries =
      f.entries := by
  have hspace := hf.space
  have hsynthetic := hclean.synthetic hkind
  refine f.entries_withChildren fun tell htell _ => ?_
  generalize f.children = children at hspace hsynthetic
  unfold Machine.finishedChildren
  have htrim : (if insidePre then children else dropTrailingSpace children).reverse.flatMap tell =
      children.reverse.flatMap tell := by
    split
    · rfl
    · exact flatMap_reverse_dropWhile fun n hn h => htell n (hspace n hn h)
  have hsublist : (if insidePre then children else dropTrailingSpace children).Sublist children := by
    split
    · exact .refl _
    · exact List.dropWhile_sublist _
  dsimp only
  rw [← htrim]
  generalize (if insidePre then children else dropTrailingSpace children) = trimmed at hsublist
  have hblank : ∀ n ∈ trimmed, n.isKind .whiteSpace → tell n = [] := fun n hn h =>
    htell n (hspace n (hsublist.subset hn) h)
  split
  · next hall =>
    refine (List.flatMap_eq_nil_iff.2 fun n hn => htell n ?_).symm
    have hn := List.mem_reverse.1 hn
    exact hsynthetic n (hsublist.subset hn) (List.all_eq_true.1 hall n hn)
  · next hnot =>
    clear hsublist htrim hnot
    induction styles generalizing trimmed with
    | nil => exact flatMap_reverse_dropWhile hblank
    | cons entered styles ih =>
        have hchange := htell _
          (Machine.numbered_syntheticChange entered.style false position [])
        rw [List.foldl_cons, ih _ (List.forall_mem_cons.2 ⟨fun _ => hchange, hblank⟩),
          List.reverse_cons, List.flatMap_append, List.flatMap_singleton, hchange, List.append_nil]

/-- Constructs that hold nothing but text have nothing else in them. -/
theorem Sound.textual (hf : f.Sound) (hkind : holdsText f.construct.kind) :
    ∀ n ∈ f.children, n.Everywhere Node.Proper ∧ n.kind.isTextual := by
  have hinline : ∀ kind, f.construct.kind.lists kind → kind.isTextual := by
    intro kind hlists
    generalize f.construct.kind = outer at hkind hlists
    cases outer <;> first
      | exact Bool.or_eq_true_iff.2 (.inl (Bool.or_eq_true_iff.2 (.inl hlists)))
      | cases hkind
  intro n hn
  obtain ⟨hlists, hproper⟩ := hf.held.children n hn
  exact ⟨hproper, hinline _ hlists⟩

/-- In constructs that hold nothing but text there are no numbers. -/
theorem Sound.numbered_eq_nil (hf : f.Sound) (hkind : holdsText f.construct.kind) :
    f.children.flatMap Node.numbered = [] :=
  List.flatMap_eq_nil_iff.2 fun n hn =>
    Node.numbered_textual (hf.textual hkind n hn).1 (hf.textual hkind n hn).2

theorem Sound.entries_eq_nil (hf : f.Sound) (hkind : holdsText f.construct.kind) :
    f.entries = [] := by
  have hentry : f.construct.entry = [] :=
    Construct.entry_eq_nil fun hitem => by simp [hitem, holdsText] at hkind
  rw [entries, hentry]
  refine List.flatMap_eq_nil_iff.2 fun n hn => ?_
  rw [List.flatMap_eq_nil_iff.1 (hf.numbered_eq_nil hkind) n (List.mem_reverse.1 hn), List.map_nil]

end Frame

namespace Machine

variable {m m' : Machine}

/-! ### Constructs that end -/

/-- What has been read keeps to the grammar, and no number in it may be dropped. -/
structure Settled (m : Machine) : Prop where
  stacked : Stacked m.stack
  sound : SoundStack m.stack
  clean : ∀ entry ∈ m.entries, entry.2 = false

theorem sound_of_mem {stack : List Frame} (h : SoundStack stack) : ∀ f ∈ stack, f.Sound := by
  induction h with
  | nil => exact List.forall_mem_nil _
  | cons f outer hf _ _ _ ih => exact List.forall_mem_cons.2 ⟨hf, ih⟩

namespace Settled

theorem congr (hm : m.Settled) (h : m'.stack = m.stack) : m'.Settled :=
  ⟨h ▸ hm.stacked, h ▸ hm.sound, fun entry hentry => hm.clean entry (by
    rwa [entries, h] at hentry)⟩

theorem fills (hm : m.Settled) (h : Fills m m') (hledger : m'.ledger = m.ledger) : m'.Settled :=
  ⟨h.stacked hm.stacked, h.stack.sound hm.sound, fun entry hentry =>
    hm.clean entry (by rwa [show m'.entries = m.entries from congrArg Prod.snd hledger] at hentry)⟩

theorem frame (hm : m.Settled) {f : Frame} (hf : f ∈ m.stack) : f.Sound ∧ f.IsClean :=
  ⟨sound_of_mem hm.sound f hf, fun entry hentry => hm.clean entry
    (List.mem_flatMap.2 ⟨f, List.mem_reverse.2 hf, hentry⟩)⟩

theorem ledger_trim (hm : m.Settled) :
    (m.setChildren (dropTrailingSpace m.children)).ledger = m.ledger := by
  refine ledger_modifyTop fun frame outer hstack => ?_
  have hchildren : m.children = frame.children := by
    rw [children, hstack]
    rfl
  rw [hchildren]
  exact (hm.frame (hstack ▸ List.mem_cons_self)).1.entries_trim

end Settled

theorem ledger_continueRun (m : Machine) :
    (m.setChildren (continueRun m.children)).ledger = m.ledger := by
  refine ledger_modifyTop fun frame outer hstack => ?_
  have hchildren : m.children = frame.children := by
    rw [children, hstack]
    rfl
  rw [hchildren]
  exact frame.entries_continueRun

/-- The innermost construct gets the numbers of one that ended. -/
theorem ledger_attach {f outer : Frame} {rest : List Frame} (hstack : m.stack = outer :: rest)
    (hmade : f.madeFor = some outer.id)
    (hheaded : Node.Headed f.construct.kind f.construct.types f.construct.heads)
    (hclean : f.IsClean) : (m.attach f).ledger = (m.numbering, m.entries ++ f.entries) := by
  have hattach : m.attach f = m.append f.toNode := by
    unfold attach
    rw [hmade, hstack, List.head?_cons, Option.map_some, if_pos (beq_self_eq_true _)]
  have hentries : (m.append f.toNode).entries = m.entries ++ f.entries := by
    rw [entries_append hstack, f.isSynthetic_toNode, Bool.and_false, Frame.numbered_toNode hheaded,
      hclean.entries_eq]
  rw [hattach, ledger, hentries, append_eq hstack]
  rfl

namespace Settled

theorem ledger_close (hm : m.Settled) (hroot : m.innermost ≠ .root) (outcome : Outcome) :
    (m.close outcome).ledger = m.ledger := by
  obtain ⟨inner, outer, rest, hstack, -, hmade, -, -⟩ := exists_around hm.stacked hroot
  obtain ⟨hsound, hclean⟩ := hm.frame (f := inner) (by rw [hstack]; exact List.mem_cons_self)
  have hledger : m.ledger =
      (m.numbering, (outer :: rest).reverse.flatMap Frame.entries ++ inner.entries) := by
    rw [ledger, entries_cons hstack]
  rw [hledger]
  unfold close
  rw [hstack]
  exact ledger_attach (m := { m with stack := outer :: rest }) rfl hmade hsound.headed hclean

/-- A paragraph that ends keeps its numbers. -/
theorem ledger_closeParagraph (hm : m.Settled) (hkind : m.innermost = .paragraph)
    (outcome : Outcome) : (m.closeParagraph outcome).ledger = m.ledger := by
  obtain ⟨inner, outer, rest, hstack, hinner, hmade, -, -⟩ :=
    exists_around hm.stacked (by rw [hkind]; nofun)
  obtain ⟨hsound, hclean⟩ := hm.frame (f := inner) (by rw [hstack]; exact List.mem_cons_self)
  have hledger : m.ledger =
      (m.numbering, (outer :: rest).reverse.flatMap Frame.entries ++ inner.entries) := by
    rw [ledger, entries_cons hstack]
  have hfinished := hsound.entries_finishedChildren hclean (hinner.trans hkind)
    inner.construct.styles m.insidePre m.scanner.offset
  rw [hledger]
  unfold closeParagraph
  rw [hstack]
  dsimp only
  generalize hpre : (if inner.construct.styles.any (·.style == .preformatted) then
    m.setInsidePre false else m) = m₀
  have hnumbering : m₀.numbering = m.numbering := by
    subst hpre
    split <;> rfl
  generalize finishedChildren inner.children inner.construct.styles m.insidePre
    m.scanner.offset = children at hfinished
  rw [← hfinished, ← hnumbering]
  split
  · next hempty =>
    have hnone : ({ inner with children } : Frame).entries = [] := by
      rw [Frame.entries, Construct.entry_eq_nil (by rw [hinner, hkind]; nofun),
        List.isEmpty_iff.1 hempty]
      rfl
    rw [hnone, List.append_nil]
    rfl
  · refine ledger_attach (m := { m₀ with stack := outer :: rest, reopening := _ })
      (f := { inner with children }) rfl hmade hsound.headed ?_
    rwa [Frame.IsClean, hfinished]

end Settled

end Machine

end DocMarkup.Parser
