import Mathlib.Data.List.Forall2
import DocMarkup.Proofs.Doc.ListItems
import DocMarkup.Proofs.Doc.Nesting

/-!
When a construct ends, the first and the last of its parts are marked, and the cells of a table get
their places.  Marks and places keep a tree within the grammar.
-/

namespace DocMarkup

/-- Kinds of nodes that get marks or places from what is around them. -/
def Kind.isMarked : Kind → Bool
  | paragraph | paramList | row | cell => true
  | _ => false

namespace Node

@[simp] theorem content_withContent (n : Node) (c : Content) : (n.withContent c).content = c := rfl

@[simp] theorem kind_withContent (n : Node) (c : Content) : (n.withContent c).kind = c.kind := rfl

@[simp] theorem parts_withContent (n : Node) (c : Content) : (n.withContent c).parts = n.parts := rfl

@[simp]
theorem children_withContent (n : Node) (c : Content) : (n.withContent c).children = n.children :=
  rfl

@[simp]
theorem children_withChildren (n : Node) (cs : List Node) : (n.withChildren cs).children = cs := rfl

@[simp] theorem kind_withChildren (n : Node) (cs : List Node) : (n.withChildren cs).kind = n.kind :=
  rfl

theorem parts_withChildren (n : Node) (cs : List Node) :
    (n.withChildren cs).parts = n.types ++ n.heads ++ cs := rfl

/-- What can be told from the kind of a node and the changes of style among its children. -/
def Told (P : Kind → List StyleMark → Prop) (n : Node) : Prop := P n.kind n.styleMarks

/-- A node was changed in something that neither the grammar nor the nesting of styles depends
on. -/
structure Alike (n m : Node) : Prop where
  kind : m.kind = n.kind
  mark : m.styleMark? = n.styleMark?
  proper : n.Everywhere Proper → m.Everywhere Proper
  told : ∀ P, n.Everywhere (Told P) → m.Everywhere (Told P)
  items : SameItems n m

/-- Two nodes with the same content, but for marks and places. -/
structure Matches (n m : Node) : Prop where
  kind : m.kind = n.kind
  content : m.content = n.content ∨ n.kind.isMarked

/-- Marks and places make no difference to a property of nodes. -/
def IgnoresMarks (P : Node → Prop) : Prop :=
  ∀ n m : Node, Matches n m → m.types = n.types → m.heads = n.heads →
    List.Forall₂ Matches n.children m.children → P n → P m

/-- A node got a mark or a place. -/
structure Keeps (n m : Node) : Prop extends Alike n m where
  content : m.content = n.content ∨ n.kind.isMarked
  ignored : ∀ P, IgnoresMarks P → n.Everywhere P → m.Everywhere P

namespace Alike

theorem refl (n : Node) : Alike n n := ⟨rfl, rfl, id, fun _ => id, .refl n⟩

theorem internalFree {n m : Node} (h : Alike n m) : n.InternalFree → m.InternalFree :=
  h.told fun kind _ => kind ≠ .internal

/-- Nodes that are alike make the same changes of style. -/
theorem styleMarks_eq {nodes nodes' : List Node} (h : List.Forall₂ Alike nodes nodes') :
    nodes'.filterMap styleMark? = nodes.filterMap styleMark? := by
  induction h with
  | nil => rfl
  | cons hn _ ih => rw [List.filterMap_cons, List.filterMap_cons, hn.mark, ih]

end Alike

theorem Matches.refl (n : Node) : Matches n n := ⟨rfl, .inl rfl⟩

namespace Keeps

theorem refl (n : Node) : Keeps n n := ⟨.refl n, .inl rfl, fun _ _ => id⟩

theorem toMatches {n m : Node} (h : Keeps n m) : Matches n m := ⟨h.kind, h.content⟩

theorem trans {n m k : Node} (h : Keeps n m) (h' : Keeps m k) : Keeps n k := by
  refine ⟨⟨h'.kind.trans h.kind, h'.mark.trans h.mark, h'.proper ∘ h.proper,
    fun P => h'.told P ∘ h.told P, h.items.trans h'.items⟩, ?_, fun P hP => h'.ignored P hP ∘ h.ignored P hP⟩
  rcases h'.content with hcontent | hmarked
  · exact hcontent ▸ h.content
  · exact .inr (h.kind ▸ hmarked)

end Keeps

/-! ### Runs of include steps -/

theorem runOpen?_space {n : Node} {before : List Node} (hn : n.kind = .whiteSpace) :
    runOpen? (n :: before) = runOpen? before := by
  rw [runOpen?_cons_eq]
  unfold kind at hn
  cases hcontent : n.content <;> rw [hcontent] at hn <;> first
    | exact Option.bind_fun_some _
    | cases hn

theorem runOpen?_other {n : Node} {before : List Node} (hstep : n.kind ≠ .includeStep)
    (hspace : n.kind ≠ .whiteSpace) :
    runOpen? (n :: before) =
      (runOpen? before).bind fun isOpen => if isOpen then none else some false := by
  rw [runOpen?_cons_eq]
  unfold kind at hstep hspace
  cases hcontent : n.content <;> rw [hcontent] at hstep hspace <;> first
    | exact absurd rfl hstep
    | exact absurd rfl hspace

theorem runOpen?_cons {n : Node} {before : List Node} (hn : n.kind ≠ .includeStep) :
    runOpen? (n :: before) = some false ↔ runOpen? before = some false := by
  by_cases hspace : n.kind = .whiteSpace
  · rw [runOpen?_space hspace]
  · rw [runOpen?_other hn hspace]
    rcases runOpen? before with _ | _ | _ <;> simp

theorem runOpen?_append {nodes before : List Node} (hnodes : ∀ n ∈ nodes, n.kind ≠ .includeStep)
    (h : runOpen? before = some false) : runOpen? (nodes ++ before) = some false := by
  induction nodes with
  | nil => exact h
  | cons n rest ih =>
      obtain ⟨hn, hrest⟩ := List.forall_mem_cons.1 hnodes
      exact (runOpen?_cons hn).2 (ih hrest)

theorem exists_includeStep {n : Node} (hn : n.kind = .includeStep) :
    ∃ step, n.content = .includeStep step := by
  unfold kind at hn
  cases hcontent : n.content <;> rw [hcontent] at hn <;> first
    | exact ⟨_, rfl⟩
    | cases hn

theorem runOpen?_includeStep {n : Node} {step : IncludeStep} (hn : n.content = .includeStep step)
    (before : List Node) :
    runOpen? (n :: before) = (runOpen? before).bind fun isOpen =>
      if isOpen && step.isFirst then none else some !step.isLast := by
  rw [runOpen?_cons_eq, hn]

/-- What is no include step leaves a run open or closed as it was. -/
theorem runOpen?_same {n : Node} {before : List Node} {isOpen isOpen' : Bool}
    (hn : n.kind ≠ .includeStep) (hbefore : runOpen? before = some isOpen)
    (h : runOpen? (n :: before) = some isOpen') : isOpen' = isOpen := by
  by_cases hspace : n.kind = .whiteSpace
  · rw [runOpen?_space hspace, hbefore] at h
    exact (Option.some.inj h).symm
  · rw [runOpen?_other hn hspace, hbefore, Option.bind_some] at h
    cases isOpen with
    | true => cases h
    | false => exact (Option.some.inj h).symm

theorem exists_runOpen?_of_append {nodes before : List Node} {isOpen : Bool}
    (h : runOpen? (nodes ++ before) = some isOpen) : ∃ isOpen', runOpen? before = some isOpen' := by
  induction nodes generalizing isOpen with
  | nil => exact ⟨isOpen, h⟩
  | cons n rest ih =>
      rw [List.cons_append, runOpen?_cons_eq] at h
      obtain ⟨isOpen', hrest, -⟩ := Option.bind_eq_some_iff.1 h
      exact ih hrest

/-- Marks do not change which runs are open. -/
theorem Keeps.runOpen?_eq {nodes marked : List Node} (h : List.Forall₂ Keeps nodes marked) :
    runOpen? marked = runOpen? nodes := by
  induction h with
  | nil => rfl
  | @cons n m nodes marked hkeeps _ ih =>
      rcases hkeeps.content with hcontent | hmarked
      · rw [runOpen?_cons_eq, runOpen?_cons_eq, ih, hcontent]
      · have hstep : n.kind ≠ .includeStep := by
          intro hkind
          simp [hkind, Kind.isMarked] at hmarked
        have hspace : n.kind ≠ .whiteSpace := by
          intro hkind
          simp [hkind, Kind.isMarked] at hmarked
        rw [runOpen?_other hstep hspace, ← ih]
        rw [← hkeeps.kind] at hstep hspace
        exact runOpen?_other hstep hspace

end Node

/-! ### Nodes from marked children -/

namespace Node

/-- Children, the last first, that a node of some kind may be given. -/
structure Held (kind : Kind) (given : List Node) : Prop where
  children : ∀ child ∈ given, kind.lists child.kind ∧ child.Everywhere Proper
  runs : runOpen? given = some false

/-- Nodes that may stand in front of the children of a node of some kind. -/
structure Headed (kind : Kind) (types heads : List Node) : Prop where
  types : ∀ type ∈ types, kind = .paramList ∧ type.kind.isName ∧ type.Everywhere Proper
  heads : ∀ head ∈ heads, kind.heads head.kind ∧ head.Everywhere Proper

theorem exists_of_mem_right {α β : Type} {R : α → β → Prop} {l : List α} {l' : List β}
    (h : List.Forall₂ R l l') {b : β} (hb : b ∈ l') : ∃ a ∈ l, R a b := by
  induction h with
  | nil => cases hb
  | @cons a _ _ _ hab _ ih =>
      rcases List.mem_cons.1 hb with rfl | hrest
      · exact ⟨a, List.mem_cons_self, hab⟩
      · obtain ⟨c, hc, hab⟩ := ih hrest
        exact ⟨c, List.mem_cons_of_mem _ hc, hab⟩

/-- A node is proper when its children were marked after they were given to it. -/
theorem Held.proper {n : Node} {given : List Node} (h : Held n.kind given)
    (hheaded : Headed n.kind n.types n.heads)
    (hchildren : List.Forall₂ Keeps given.reverse n.children)
    (hfilled : n.kind.isFilled → given ≠ [])
    (hinternal : n.kind = .internal → ∀ child ∈ given, child.InternalFree)
    (hsymbol : ∀ name, n.content = .symbol name → Symbol.isKnown name)
    (hcells : n.kind = .table → ∀ row ∈ n.children, ∀ cell ∈ row.children,
      cell.content.isPlaced) : n.Everywhere Proper := by
  -- every child is one of the nodes given, with marks
  have hkept : ∀ child ∈ n.children, ∃ before ∈ given, Keeps before child := by
    intro child hchild
    obtain ⟨before, hbefore, hkeeps⟩ := exists_of_mem_right hchildren hchild
    exact ⟨before, List.mem_reverse.1 hbefore, hkeeps⟩
  refine everywhere_iff.2 ⟨?_, ?_⟩
  · exact
      { children := by
          intro child hchild
          obtain ⟨before, hbefore, hkeeps⟩ := hkept child hchild
          rw [hkeeps.kind]
          exact (h.children before hbefore).1
        heads := fun head hhead => (hheaded.heads head hhead).1
        types := fun type htype => ⟨(hheaded.types type htype).1, (hheaded.types type htype).2.1⟩
        filled := by
          intro hkind hnil
          rw [hnil, List.forall₂_nil_right_iff, List.reverse_eq_nil_iff] at hchildren
          exact hfilled hkind hchildren
        internal := by
          intro hkind part hpart
          rcases List.mem_append.1 hpart with hpart | hchild
          · rcases List.mem_append.1 hpart with htype | hhead
            · rw [hkind] at hheaded
              exact absurd (hheaded.types part htype).1 nofun
            · rw [hkind] at hheaded
              exact absurd (hheaded.heads part hhead).1 nofun
          · obtain ⟨before, hbefore, hkeeps⟩ := hkept part hchild
            exact hkeeps.internalFree (hinternal hkind before hbefore)
        symbol := hsymbol
        runs := by
          have hreverse := List.rel_reverse hchildren
          rw [List.reverse_reverse] at hreverse
          rw [Keeps.runOpen?_eq hreverse]
          exact h.runs
        cells := hcells }
  · intro part hpart
    rcases List.mem_append.1 hpart with hpart | hchild
    · rcases List.mem_append.1 hpart with htype | hhead
      · exact (hheaded.types part htype).2.2
      · exact (hheaded.heads part hhead).2
    · obtain ⟨before, hbefore, hkeeps⟩ := hkept part hchild
      exact hkeeps.proper (h.children before hbefore).2

/-- A proper node holds its children. -/
theorem Everywhere.held {n : Node} (h : n.Everywhere Proper) : Held n.kind n.children.reverse where
  children child hchild :=
    ⟨h.here.children child (List.mem_reverse.1 hchild), h.child (List.mem_reverse.1 hchild)⟩
  runs := h.here.runs

theorem Everywhere.headed {n : Node} (h : n.Everywhere Proper) :
    Headed n.kind n.types n.heads where
  types type htype :=
    ⟨(h.here.types type htype).1, (h.here.types type htype).2, h.type htype⟩
  heads head hhead := ⟨h.here.heads head hhead, h.head hhead⟩

theorem Alike.withContent {n : Node} {c : Content} (hkind : c.kind = n.kind)
    (hsymbol : n.kind ≠ .symbol) (hstyle : n.kind ≠ .styleChange) (hlist : n.kind ≠ .autoList)
    (hitem : n.kind ≠ .autoListItem) : Alike n (n.withContent c) := by
  have hmark : (n.withContent c).styleMark? = none :=
    styleMark?_eq_none (by rwa [kind_withContent, hkind])
  refine ⟨hkind, hmark.trans (styleMark?_eq_none hstyle).symm, fun hproper => ?_,
    fun P hP => ?_, .withContent ?_ ?_⟩
  · have hheld : Held (n.withContent c).kind n.children.reverse := by
      rw [kind_withContent, hkind]
      exact hproper.held
    have hheaded : Headed (n.withContent c).kind (n.withContent c).types (n.withContent c).heads := by
      rw [kind_withContent, hkind]
      exact hproper.headed
    refine hheld.proper hheaded ?_ ?_ ?_ ?_ ?_
    · rw [List.reverse_reverse]
      exact List.forall₂_same.2 fun child _ => .refl child
    · intro hfilled hnil
      exact hproper.here.filled (hkind ▸ hfilled) (List.reverse_eq_nil_iff.1 hnil)
    · intro hinternal child hchild
      exact hproper.here.internal (hkind ▸ hinternal) child
        (List.mem_append_right _ (List.mem_reverse.1 hchild))
    · rintro name rfl
      exact absurd hkind.symm hsymbol
    · exact fun htable => hproper.here.cells (hkind ▸ htable)
  · obtain ⟨hhere, hparts⟩ := everywhere_iff.1 hP
    refine everywhere_iff.2 ⟨?_, hparts⟩
    rw [Told, kind_withContent, hkind]
    exact hhere
  · rw [Content.autoList?_eq_none hlist, Content.autoList?_eq_none (hkind ▸ hlist)]
  · rw [Content.autoListItem?_eq_none hitem, Content.autoListItem?_eq_none (hkind ▸ hitem)]

theorem Keeps.withContent {n : Node} {c : Content} (hkind : c.kind = n.kind)
    (hn : n.kind.isMarked) : Keeps n (n.withContent c) := by
  have hother : ∀ other : Kind, other.isMarked = false → n.kind ≠ other := by
    rintro other hother rfl
    exact absurd hn (Bool.eq_false_iff.1 hother)
  refine ⟨.withContent hkind (hother _ rfl) (hother _ rfl) (hother _ rfl) (hother _ rfl), .inr hn, fun P hP hn' => ?_⟩
  obtain ⟨hhere, hparts⟩ := everywhere_iff.1 hn'
  have hchildren := List.forall₂_same.2 fun child (_ : child ∈ n.children) => Matches.refl child
  exact everywhere_iff.2 ⟨hP n _ ⟨hkind, .inr hn⟩ rfl rfl hchildren hhere, hparts⟩

/-- The children of a node are marked.  Tables are left out, since they place their cells. -/
theorem Keeps.withChildren {n : Node} {marked : List Node}
    (h : List.Forall₂ Keeps n.children marked) (hn : n.kind ≠ .table) :
    Keeps n (n.withChildren marked) := by
  refine ⟨⟨rfl, rfl, fun hproper => ?_, fun P hP => ?_, .withChildren (h.imp fun _ _ h => h.items)⟩,
    .inl rfl, fun P hignores hP => ?_⟩
  · refine Held.proper (n := n.withChildren marked) hproper.held hproper.headed
      (by rwa [List.reverse_reverse]) ?_ ?_ ?_ fun hkind => absurd hkind hn
    · exact fun hkind hnil => hproper.here.filled hkind (List.reverse_eq_nil_iff.1 hnil)
    · intro hkind child hchild
      exact hproper.here.internal hkind child
        (List.mem_append_right _ (List.mem_reverse.1 hchild))
    · exact hproper.here.symbol
  · refine everywhere_iff.2 ⟨?_, fun part hpart => ?_⟩
    · have hmarks : (n.withChildren marked).styleMarks = n.styleMarks :=
        Alike.styleMarks_eq (h.imp fun _ _ => Keeps.toAlike)
      rw [Told, hmarks]
      exact hP.here
    · rcases List.mem_append.1 hpart with hpart | hchild
      · exact hP.part (List.mem_append_left _ hpart)
      · obtain ⟨before, hbefore, hkeeps⟩ := exists_of_mem_right h hchild
        exact hkeeps.told P (hP.child hbefore)
  · have hmatches := h.imp fun _ _ => Keeps.toMatches
    have hsame : Matches n (n.withChildren marked) := ⟨rfl, .inl rfl⟩
    refine everywhere_iff.2 ⟨hignores n _ hsame rfl rfl hmatches hP.here, fun part hpart => ?_⟩
    rcases List.mem_append.1 hpart with hpart | hchild
    · exact hP.part (List.mem_append_left _ hpart)
    · obtain ⟨before, hbefore, hkeeps⟩ := exists_of_mem_right h hchild
      exact hkeeps.ignored P hignores (hP.child hbefore)

end Node

/-! ### First and last -/

/-- What marking does to single nodes it does to all of them. -/
theorem forall₂_markEnds {R : Node → Node → Prop} (hrefl : ∀ n, R n n) {select : Node → Bool}
    {mark : Bool → Bool → Node → Node}
    (hmark : ∀ isFirst isLast n, select n → R n (mark isFirst isLast n)) (nodes : List Node) :
    List.Forall₂ R nodes (markEnds select mark nodes) := by
  suffices h : ∀ first, List.Forall₂ R nodes (markEnds.go select mark first nodes) from h true
  induction nodes with
  | nil => exact fun _ => .nil
  | cons n rest ih =>
      intro first
      unfold markEnds.go
      split
      · next hselect => exact .cons (hmark _ _ n hselect) (ih false)
      · exact .cons (hrefl n) (ih first)

theorem forall₂_markParagraphs (nodes : List Node) :
    List.Forall₂ Node.Keeps nodes (markParagraphs nodes) := by
  refine forall₂_markEnds Node.Keeps.refl (fun isFirst isLast n _ => ?_) nodes
  split
  · next paragraph hcontent =>
    have hkind : n.kind = .paragraph := congrArg Content.kind hcontent
    exact .withContent hkind.symm (by rw [hkind]; rfl)
  · exact .refl n

theorem forall₂_markCells (nodes : List Node) :
    List.Forall₂ Node.Keeps nodes (markCells nodes) := by
  refine forall₂_markEnds Node.Keeps.refl (fun isFirst isLast n _ => ?_) nodes
  split
  · next cell hcontent =>
    have hkind : n.kind = .cell := congrArg Content.kind hcontent
    exact .withContent hkind.symm (by rw [hkind]; rfl)
  · exact .refl n

theorem forall₂_markParamLists (nodes : List Node) :
    List.Forall₂ Node.Keeps nodes (markParamLists nodes) := by
  refine forall₂_markEnds Node.Keeps.refl (fun isFirst isLast n _ => ?_) nodes
  split
  · next list hcontent =>
    have hkind : n.kind = .paramList := congrArg Content.kind hcontent
    exact .withContent hkind.symm (by rw [hkind]; rfl)
  · exact .refl n

end DocMarkup
