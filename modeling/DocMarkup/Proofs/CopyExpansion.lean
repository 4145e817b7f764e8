import DocMarkup.Proofs.Doc.Copies

/-!
Expanding copies.  The copies entered above a node are exactly the active ones, so no way down
meets a target twice and none enters more copies than the depth allows; what was resolved, asked
for and reported can be read off the tree before and after.
-/

namespace DocMarkup.CopyExpansion

open Node

variable {source : CopySource} {depth : Nat} {active : List Text}

/-! ### Reports -/

namespace Report

variable (a b c : Report)

@[simp] theorem resolved_append : (a ++ b).resolved = a.resolved + b.resolved := rfl

@[simp] theorem asked_append : (a ++ b).asked = a.asked ++ b.asked := rfl

@[simp] theorem problems_append : (a ++ b).problems = a.problems ++ b.problems := rfl

@[simp] theorem empty_append : ({} : Report) ++ a = a := by
  show Report.append {} a = a
  simp [Report.append]

@[simp] theorem append_empty : a ++ ({} : Report) = a := by
  show Report.append a {} = a
  simp [Report.append]

end Report

/-! ### What becomes of a node -/

/-- When a copy gets which answer. -/
theorem answer_spec (source : CopySource) (depth : Nat) (active : List Text) (copy : Copy) :
    match answer source depth active copy with
    | .already => copy.resolved = true
    | .refused => copy.resolved = false ∧ (copy.target ∈ active ∨ depth = 0)
    | .unknown => copy.resolved = false ∧ source copy = none
    | .found nodes =>
      copy.resolved = false ∧ copy.target ∉ active ∧ depth ≠ 0 ∧ source copy = some nodes := by
  unfold answer
  by_cases hresolved : copy.resolved = true
  · rw [if_pos hresolved]
    exact hresolved
  · rw [if_neg hresolved]
    rw [Bool.not_eq_true] at hresolved
    by_cases hrefused : (active.contains copy.target || depth == 0) = true
    · rw [if_pos hrefused]
      simpa [hresolved] using hrefused
    · rw [if_neg hrefused]
      cases hsource : source copy with
      | none => exact ⟨hresolved, rfl⟩
      | some nodes => simpa [hresolved] using hrefused

/-- A node that is no copy to be resolved stays, and its parts are expanded. -/
theorem expand_of_not_pending {content : Content} (hcontent : content.pending? = none)
    (flags : NodeFlags) (types heads children : List Node) :
    expand source depth active (.node content flags types heads children) =
      (.node content flags (expandAll source depth active types).1
        (expandAll source depth active heads).1 (expandAll source depth active children).1,
      (expandAll source depth active types).2 ++ (expandAll source depth active heads).2 ++
        (expandAll source depth active children).2) := by
  cases content with
  | copy copy =>
      have hresolved : copy.resolved := by
        by_contra hresolved
        simp [Content.pending?, hresolved] at hcontent
      simp [expand, answer, hresolved]
  | _ => simp [expand]

/-- An expansion keeps a content as it is, with this report: it is no copy to be resolved, or a copy
that is refused, or one whose target is not known. -/
inductive Keeps (source : CopySource) (depth : Nat) (active : List Text) : Content → Report → Prop
  | whole {content : Content} (hcontent : content.pending? = none) :
      Keeps source depth active content {}
  | refused {copy : Copy} (hcopy : copy.resolved = false)
      (hrefused : copy.target ∈ active ∨ depth = 0) :
      Keeps source depth active (.copy copy)
        { problems := [(.recursiveCopy copy.target, copy.target)] }
  | unknown {copy : Copy} (hcopy : copy.resolved = false) (hsource : source copy = none) :
      Keeps source depth active (.copy copy)
        { asked := [copy], problems := [(.copyNotFound copy.target, copy.target)] }

/-- Induction on an expansion, whatever lies below a copy.  The content of a node is kept, or is a
copy that gets the nodes of its target, which have been expanded as part of the copy, behind its
own. -/
theorem expand_cases {P : Nat → List Text → Node → Node → Report → Prop}
    {Q : Nat → List Text → List Node → List Node → Report → Prop}
    (kept : ∀ {depth active} {content : Content} (flags : NodeFlags)
      {types heads children types' heads' children' : List Node} {report a b c : Report},
      Keeps source depth active content report → Q depth active types types' a →
      Q depth active heads heads' b → Q depth active children children' c →
      P depth active (.node content flags types heads children)
        (.node content flags types' heads' children') (report ++ a ++ b ++ c))
    (found : ∀ {depth active} {copy : Copy} (flags : NodeFlags)
      {types heads children types' heads' children' nodes copied : List Node}
      {a b c inner : Report}, copy.resolved = false → copy.target ∉ active →
      source copy = some nodes →
      Q (depth + 1) active types types' a → Q (depth + 1) active heads heads' b →
      Q (depth + 1) active children children' c →
      Q depth (copy.target :: active) nodes copied inner →
      P (depth + 1) active (.node (.copy copy) flags types heads children)
        (.node (.copy { copy with resolved := true }) flags types' heads' (children' ++ copied))
        ({ resolved := 1, asked := [copy] } ++ (a ++ b ++ c) ++ inner))
    (nil : ∀ {depth active}, Q depth active [] [] {})
    (cons : ∀ {depth active} {n n' : Node} {nodes nodes' : List Node} {a b : Report},
      P depth active n n' a → Q depth active nodes nodes' b →
      Q depth active (n :: nodes) (n' :: nodes') (a ++ b))
    (n : Node) :
    P depth active n (expand source depth active n).1 (expand source depth active n).2 := by
  -- the function has one case for each answer to a copy
  refine expand.induct source
    (fun depth active n =>
      P depth active n (expand source depth active n).1 (expand source depth active n).2)
    (fun depth active nodes =>
      Q depth active nodes (expandAll source depth active nodes).1
        (expandAll source depth active nodes).2)
    ?already ?refused ?unknown ?foundTooDeep ?found ?other ?nil ?cons depth active n
  case already =>
    intro depth active flags types heads children copy hanswer ihTypes ihHeads ihChildren
    have hresolved := answer_spec source depth active copy
    rw [hanswer] at hresolved
    have hcopy : (Content.copy copy).pending? = none := if_pos hresolved
    simpa [expand, hanswer] using kept flags (.whole hcopy) ihTypes ihHeads ihChildren
  case other =>
    intro depth active flags types heads children content hother ihTypes ihHeads ihChildren
    have hcontent : content.pending? = none := by
      cases content with
      | copy copy => exact absurd rfl (hother copy)
      | _ => rfl
    rw [expand_of_not_pending hcontent]
    simpa using kept flags (.whole hcontent) ihTypes ihHeads ihChildren
  case refused =>
    intro depth active flags types heads children copy hanswer ihTypes ihHeads ihChildren
    have hspec := answer_spec source depth active copy
    rw [hanswer] at hspec
    simpa [expand, hanswer] using
      kept flags (.refused hspec.1 hspec.2) ihTypes ihHeads ihChildren
  case unknown =>
    intro depth active flags types heads children copy hanswer ihTypes ihHeads ihChildren
    have hspec := answer_spec source depth active copy
    rw [hanswer] at hspec
    simpa [expand, hanswer] using
      kept flags (.unknown hspec.1 hspec.2) ihTypes ihHeads ihChildren
  case foundTooDeep =>
    -- a copy is answered with nodes only while depth is left
    intro active flags types heads children copy nodes hanswer
    have hspec := answer_spec source 0 active copy
    rw [hanswer] at hspec
    exact absurd rfl hspec.2.2.1
  case found =>
    intro active flags types heads children copy nodes depth _ _ _ _ _ _ hanswer
      _ ihTypes ihHeads ihChildren ihNodes
    have hspec := answer_spec source (depth + 1) active copy
    rw [hanswer] at hspec
    obtain ⟨hcopy, hfresh, -, hnodes⟩ := hspec
    simp only [expand, hanswer, Report.empty_append]
    exact found flags hcopy hfresh hnodes ihTypes ihHeads ihChildren ihNodes
  case nil =>
    intro depth active
    simpa [expandAll] using nil
  case cons =>
    intro depth active n rest _ _ _ _ _ _ ihNode ihRest
    simpa [expandAll] using cons ihNode ihRest

theorem parts_of_pending {copy : Copy} {flags : NodeFlags} {types heads children : List Node}
    (hn : (Node.node (.copy copy) flags types heads children).Everywhere IsBareIfPending)
    (hcopy : copy.resolved = false) : types = [] ∧ heads = [] ∧ children = [] := by
  have hparts : types ++ heads ++ children = [] :=
    hn.here (Option.isSome_iff_exists.2 ⟨copy, Content.pending?_eq_some.2 ⟨rfl, hcopy⟩⟩)
  simpa [and_assoc] using hparts

/-- Induction on an expansion.  A node that is no copy to be resolved keeps its content; a copy to
be resolved has nothing below it, and is refused, or not found, or gets the nodes of its target,
which have been expanded as part of the copy. -/
theorem expand_induct {P : Nat → List Text → Node → Node → Report → Prop}
    {Q : Nat → List Text → List Node → List Node → Report → Prop}
    (kept : ∀ {depth active} {content : Content} (flags : NodeFlags)
      {types heads children types' heads' children' : List Node} {a b c : Report},
      content.pending? = none → Q depth active types types' a →
      Q depth active heads heads' b → Q depth active children children' c →
      P depth active (.node content flags types heads children)
        (.node content flags types' heads' children') (a ++ b ++ c))
    (refused : ∀ {depth active} {copy : Copy} (flags : NodeFlags), copy.resolved = false →
      (copy.target ∈ active ∨ depth = 0) →
      P depth active (.node (.copy copy) flags [] [] []) (.node (.copy copy) flags [] [] [])
        { problems := [(.recursiveCopy copy.target, copy.target)] })
    (unknown : ∀ {depth active} {copy : Copy} (flags : NodeFlags), copy.resolved = false →
      source copy = none →
      P depth active (.node (.copy copy) flags [] [] []) (.node (.copy copy) flags [] [] [])
        { asked := [copy], problems := [(.copyNotFound copy.target, copy.target)] })
    (found : ∀ {depth active} {copy : Copy} (flags : NodeFlags) {nodes copied : List Node}
      {inner : Report}, copy.resolved = false → copy.target ∉ active → source copy = some nodes →
      Q depth (copy.target :: active) nodes copied inner →
      P (depth + 1) active (.node (.copy copy) flags [] [] [])
        (.node (.copy { copy with resolved := true }) flags [] [] copied)
        ({ resolved := 1, asked := [copy] } ++ inner))
    (nil : ∀ {depth active}, Q depth active [] [] {})
    (cons : ∀ {depth active} {n n' : Node} {nodes nodes' : List Node} {a b : Report},
      P depth active n n' a → Q depth active nodes nodes' b →
      Q depth active (n :: nodes) (n' :: nodes') (a ++ b))
    (hsource : ∀ copy nodes, source copy = some nodes →
      ∀ n ∈ nodes, n.Everywhere IsBareIfPending)
    (n : Node) (hn : n.Everywhere IsBareIfPending) :
    P depth active n (expand source depth active n).1 (expand source depth active n).2 := by
  -- a copy to be resolved has no parts, and no nodes expand to none
  refine expand_cases
    (P := fun depth active n n' report =>
      n.Everywhere IsBareIfPending → P depth active n n' report)
    (Q := fun depth active nodes nodes' report =>
      (nodes = [] → nodes' = [] ∧ report = {}) ∧
      ((∀ n ∈ nodes, n.Everywhere IsBareIfPending) → Q depth active nodes nodes' report))
    ?kept ?found ⟨fun _ => ⟨rfl, rfl⟩, fun _ => nil⟩ ?cons n hn
  case kept =>
    intro depth active content flags types heads children types' heads' children' report a b c
      hkeeps htypes hheads hchildren hn
    cases hkeeps with
    | whole hcontent =>
        simpa using kept flags hcontent (htypes.2 fun _ => hn.type) (hheads.2 fun _ => hn.head)
          (hchildren.2 fun _ => hn.child)
    | refused hcopy hrefused =>
        obtain ⟨rfl, rfl, rfl⟩ := parts_of_pending hn hcopy
        obtain ⟨⟨rfl, rfl⟩, ⟨rfl, rfl⟩, rfl, rfl⟩ :=
          And.intro (htypes.1 rfl) (And.intro (hheads.1 rfl) (hchildren.1 rfl))
        simpa using refused flags hcopy hrefused
    | unknown hcopy hsource =>
        obtain ⟨rfl, rfl, rfl⟩ := parts_of_pending hn hcopy
        obtain ⟨⟨rfl, rfl⟩, ⟨rfl, rfl⟩, rfl, rfl⟩ :=
          And.intro (htypes.1 rfl) (And.intro (hheads.1 rfl) (hchildren.1 rfl))
        simpa using unknown flags hcopy hsource
  case found =>
    intro depth active copy flags types heads children types' heads' children' nodes copied
      a b c inner hcopy hfresh hnodes htypes hheads hchildren hinner hn
    obtain ⟨rfl, rfl, rfl⟩ := parts_of_pending hn hcopy
    obtain ⟨⟨rfl, rfl⟩, ⟨rfl, rfl⟩, rfl, rfl⟩ :=
      And.intro (htypes.1 rfl) (And.intro (hheads.1 rfl) (hchildren.1 rfl))
    simpa using found flags hcopy hfresh hnodes (hinner.2 (hsource copy nodes hnodes))
  case cons =>
    intro depth active n n' nodes nodes' a b hhere hrest
    refine ⟨nofun, fun hnodes => ?_⟩
    obtain ⟨hn, hrest'⟩ := List.forall_mem_cons.1 hnodes
    exact cons (hhere hn) (hrest.2 hrest')

/-! ### What is resolved, asked for and reported -/

/-- What is reported of a copy that stays unresolved. -/
def IsReport (copy : Copy) (problem : Problem × Text) : Prop :=
  problem = (.recursiveCopy copy.target, copy.target) ∨
    problem = (.copyNotFound copy.target, copy.target)

/-- A report accounts for copies: those resolved here are counted and are as many as the source
answered, and those left are reported, each of them once. -/
structure Accounts (source : CopySource) (here left : List Copy) (report : Report) : Prop where
  resolved : report.resolved = here.length
  answered : report.asked.countP (fun copy => (source copy).isSome) = here.length
  reported : List.Forall₂ IsReport left report.problems

theorem Accounts.nil : Accounts source [] [] {} := ⟨rfl, rfl, .nil⟩

theorem Accounts.append {here left here' left' : List Copy} {a b : Report}
    (ha : Accounts source here left a) (hb : Accounts source here' left' b) :
    Accounts source (here ++ here') (left ++ left') (a ++ b) where
  resolved := by rw [Report.resolved_append, ha.resolved, hb.resolved, List.length_append]
  answered := by
    rw [Report.asked_append, List.countP_append, ha.answered, hb.answered, List.length_append]
  reported := List.rel_append ha.reported hb.reported

theorem expand_accounts
    (hsource : ∀ copy nodes, source copy = some nodes → ∀ n ∈ nodes, n.Everywhere IsBareIfPending)
    {n : Node} (hn : n.Everywhere IsBareIfPending) :
    Accounts source (n.copiesSince source (expand source depth active n).1)
      (expand source depth active n).1.pendingCopies (expand source depth active n).2 := by
  refine expand_induct
    (P := fun _ _ n n' report =>
      Accounts source (n.copiesSince source n') n'.pendingCopies report)
    (Q := fun _ _ nodes nodes' report =>
      Accounts source (copiesSinceOf source nodes nodes') (pendingCopiesOf nodes') report)
    ?kept ?refused ?unknown ?found .nil .append hsource n hn
  case kept =>
    intro depth active content flags types heads children types' heads' children' a b c hcontent
      htypes hheads hchildren
    rw [copiesSince_same, pendingCopies, hcontent]
    exact (htypes.append hheads).append hchildren
  case refused =>
    intro depth active copy flags hcopy _
    rw [copiesSince_same, pendingCopies, Content.pending?_eq_some.2 ⟨rfl, hcopy⟩]
    exact ⟨rfl, rfl, .cons (.inl rfl) .nil⟩
  case unknown =>
    intro depth active copy flags hcopy hnone
    rw [copiesSince_same, pendingCopies, Content.pending?_eq_some.2 ⟨rfl, hcopy⟩]
    refine ⟨rfl, ?_, .cons (.inr rfl) .nil⟩
    rw [List.countP_singleton, hnone]
    rfl
  case found =>
    intro depth active copy flags nodes copied inner hcopy _ hnodes hinner
    rw [copiesSince_resolved hcopy hnodes, pendingCopies]
    have hcopied : Accounts source [copy] [] { resolved := 1, asked := [copy] } := by
      refine ⟨rfl, ?_, .nil⟩
      rw [List.countP_singleton, hnodes]
      rfl
    exact hcopied.append hinner

/-! ### Ways down -/

/-- The copies resolved on a way down, below the active ones. -/
structure IsWay (depth : Nat) (active : List Text) (path : List Copy) : Prop where
  nodup : (path.map Copy.target).Nodup
  fresh : ∀ copy ∈ path, copy.target ∉ active
  length_le : path.length ≤ depth

theorem IsWay.nil : IsWay depth active [] := ⟨.nil, nofun, Nat.zero_le _⟩

theorem IsWay.cons {copy : Copy} {path : List Copy} (hcopy : copy.target ∉ active)
    (h : IsWay depth (copy.target :: active) path) : IsWay (depth + 1) active (copy :: path) where
  nodup := by
    rw [List.map_cons, List.nodup_cons]
    refine ⟨fun hmem => ?_, h.nodup⟩
    obtain ⟨later, hlater, htarget⟩ := List.mem_map.1 hmem
    exact h.fresh later hlater (htarget ▸ List.mem_cons_self)
  fresh := by
    rintro later (_ | ⟨_, hlater⟩)
    · exact hcopy
    · exact fun hactive => h.fresh later hlater (List.mem_cons_of_mem _ hactive)
  length_le := Nat.succ_le_succ h.length_le

theorem expand_ways
    (hsource : ∀ copy nodes, source copy = some nodes → ∀ n ∈ nodes, n.Everywhere IsBareIfPending)
    {n : Node} (hn : n.Everywhere IsBareIfPending) :
    ∀ path ∈ n.pathsSince source (expand source depth active n).1, IsWay depth active path := by
  refine expand_induct
    (P := fun depth active n n' _ =>
      ∀ path ∈ n.pathsSince source n', IsWay depth active path)
    (Q := fun depth active nodes nodes' _ =>
      ∀ path ∈ pathsSinceOf source nodes nodes', IsWay depth active path)
    ?kept ?refused ?unknown ?found ?nil ?cons hsource n hn
  case kept =>
    intro depth active content flags types heads children types' heads' children' a b c _
      htypes hheads hchildren path hpath
    rcases mem_pathsSince_same hpath with rfl | htype | hhead | hchild
    · exact .nil
    · exact htypes path htype
    · exact hheads path hhead
    · exact hchildren path hchild
  case refused =>
    intro depth active copy flags _ _ path hpath
    rcases mem_pathsSince_same hpath with rfl | hbelow | hbelow | hbelow
    · exact .nil
    all_goals cases hbelow
  case unknown =>
    intro depth active copy flags _ _ path hpath
    rcases mem_pathsSince_same hpath with rfl | hbelow | hbelow | hbelow
    · exact .nil
    all_goals cases hbelow
  case found =>
    intro depth active copy flags nodes copied inner hcopy hfresh hnodes hcopied path hpath
    rcases mem_pathsSince_resolved hcopy hnodes hpath with rfl | ⟨below, hbelow, rfl⟩
    · exact IsWay.nil.cons hfresh
    · exact (hcopied below hbelow).cons hfresh
  case nil =>
    intro depth active path hpath
    cases hpath
  case cons =>
    intro depth active n n' nodes nodes' a b hhere hrest path hpath
    rw [pathsSinceOf] at hpath
    rcases List.mem_append.1 hpath with hpath | hpath
    · exact hhere path hpath
    · exact hrest path hpath

/-! ### What changes -/

theorem expand_extends
    (hsource : ∀ copy nodes, source copy = some nodes → ∀ n ∈ nodes, n.Everywhere IsBareIfPending)
    {n : Node} (hn : n.Everywhere IsBareIfPending) :
    n.Extends source (expand source depth active n).1 := by
  refine expand_induct
    (P := fun _ _ n n' _ => n.Extends source n')
    (Q := fun _ _ nodes nodes' _ => EachExtends source nodes nodes')
    ?kept ?refused ?unknown ?found trivial And.intro hsource n hn
  case kept =>
    intro depth active content flags types heads children types' heads' children' a b c _
      htypes hheads hchildren
    rw [Extends, origins_same]
    exact ⟨rfl, .inl rfl, htypes, hheads, hchildren⟩
  case refused =>
    intro depth active copy flags _ _
    rw [Extends, origins_same]
    exact ⟨rfl, .inl rfl, trivial, trivial, trivial⟩
  case unknown =>
    intro depth active copy flags _ _
    rw [Extends, origins_same]
    exact ⟨rfl, .inl rfl, trivial, trivial, trivial⟩
  case found =>
    intro depth active copy flags nodes copied inner hcopy _ hnodes hcopied
    rw [Extends, origins_resolved hcopy hnodes]
    refine ⟨rfl, .inr ⟨copy, ?_, ?_, rfl⟩, trivial, trivial, hcopied⟩
    · exact Content.pending?_eq_some.2 ⟨rfl, hcopy⟩
    · rw [hnodes]
      rfl

/-! ### Copies of a whole tree -/

/-- Whatever the targets hold, copies of each other and of themselves included, the copies of a tree
are expanded, and the tree is left as it was but for the copies that were resolved.  No path from
the root to a leaf resolves a target twice or more than eight copies.  The copies resolved are
counted, as many as the source had an answer for, and those that are left are reported, each of them
once.  If the check found no fault in the tree, it finds none afterwards. -/
theorem ofTree_settles_copies (source : CopySource) (n : Node) (fileName : Text)
    (hn : n.Everywhere IsBareIfPending)
    (hsource : ∀ copy nodes, source copy = some nodes → ∀ m ∈ nodes,
      m.Everywhere IsBareIfPending ∧ (LinkedTree.ofNode m).fault? 0 = none) :
    let (after, report, diagnostics) := ofTree source n fileName
    n.Extends source after ∧
    (∀ path ∈ n.pathsSince source after,
      (path.map Copy.target).Nodup ∧ path.length ≤ 8) ∧
    report.resolved = (n.copiesSince source after).length ∧
    report.resolved = report.asked.countP (fun copy => (source copy).isSome) ∧
    List.Forall₂ (fun copy diagnostic => ∃ problem,
        (problem = .recursiveCopy copy.target ∨ problem = .copyNotFound copy.target) ∧
        diagnostic = Problem.toDiagnostic problem (some copy.target) fileName 0 0 0)
      after.pendingCopies diagnostics ∧
    ((LinkedTree.ofNode n).fault? 0 = none → (LinkedTree.ofNode after).fault? 0 = none) := by
  have hbare : ∀ copy nodes, source copy = some nodes →
      ∀ m ∈ nodes, m.Everywhere IsBareIfPending :=
    fun copy nodes hcopy m hm => (hsource copy nodes hcopy m hm).1
  have haccounts : Accounts source _ _ (expand source maxDepth [] n).2 := expand_accounts hbare hn
  have hextends : n.Extends source (expand source maxDepth [] n).1 := expand_extends hbare hn
  refine ⟨hextends, ?_, haccounts.resolved, ?_, ?_, ?_⟩
  · intro path hpath
    have hway := expand_ways hbare hn path hpath
    exact ⟨hway.nodup, hway.length_le⟩
  · exact haccounts.resolved.trans haccounts.answered.symm
  · refine List.forall₂_map_right_iff.2 (haccounts.reported.imp ?_)
    rintro copy problem (rfl | rfl)
    · exact ⟨_, .inl rfl, rfl⟩
    · exact ⟨_, .inr rfl, rfl⟩
  · rw [LinkedTree.fault?_ofNode_iff, LinkedTree.fault?_ofNode_iff]
    refine hextends.everywhere_cellsPlaced fun copy nodes hcopy m hm => ?_
    exact (LinkedTree.fault?_ofNode_iff m).1 (hsource copy nodes hcopy m hm).2

/-- A paragraph with nothing but a copy. -/
def copyOf (target : Text) : Node :=
  .branch (.paragraph {}) [.leaf (.copy { target, brief := true, details := true })]

/-- The documentation of `a` copies that of `b`, and the other way round. -/
def eachOther : CopySource := fun copy =>
  if copy.target = units "a" then some [copyOf (units "b")]
  else if copy.target = units "b" then some [copyOf (units "a")]
  else none

theorem ofTree_settles_copies_of_each_other :
    let n := Node.branch (.root false) [copyOf (units "a"), copyOf (units "c")]
    n.Everywhere IsBareIfPending ∧
    (∀ copy nodes, eachOther copy = some nodes → ∀ m ∈ nodes,
      m.Everywhere IsBareIfPending ∧ (LinkedTree.ofNode m).fault? 0 = none) ∧
    (∀ path ∈ n.pathsSince eachOther (ofTree eachOther n []).1,
      (path.map Copy.target).Nodup ∧ path.length ≤ 8) ∧
    (ofTree eachOther n []).2.1.resolved = 2 ∧
    (LinkedTree.ofNode (ofTree eachOther n []).1).fault? 0 = none := by
  intro n
  have hn : n.Everywhere IsBareIfPending := by decide +kernel
  have hsource : ∀ copy nodes, eachOther copy = some nodes → ∀ m ∈ nodes,
      m.Everywhere IsBareIfPending ∧ (LinkedTree.ofNode m).fault? 0 = none := by
    intro copy nodes hnodes
    unfold eachOther at hnodes
    split at hnodes
    · cases hnodes
      decide +kernel
    · split at hnodes
      · cases hnodes
        decide +kernel
      · cases hnodes
  obtain ⟨-, hpaths, -, -, -, hfault⟩ := ofTree_settles_copies eachOther n [] hn hsource
  refine ⟨hn, hsource, hpaths, ?_, hfault (by decide +kernel)⟩
  have hnames : units "b" ≠ units "a" ∧ units "c" ≠ units "a" ∧ units "c" ≠ units "b" := by decide
  simp [n, ofTree, maxDepth, expand, expandAll, answer, eachOther, copyOf, Node.branch, Node.leaf,
    hnames]

end DocMarkup.CopyExpansion
