import DocMarkup.CopyExpansion
import DocMarkup.Proofs.Doc.Faults

/-!
Trees before and after copies were resolved.  A node of the tree after comes from a node of the
tree before, or from a node that was copied; which copies were resolved in between can be read off
the two trees.
-/

namespace DocMarkup

/-- The copy a node stands for, as long as it is not resolved. -/
def Content.pending? : Content → Option Copy
  | .copy c => if c.resolved then none else some c
  | _ => none

/-- The copy that a node stands for, if it was not resolved before and is so after. -/
def Content.resolvedSince? (before after : Content) : Option Copy :=
  match after with
  | .copy c => if c.resolved then before.pending? else none
  | _ => none

theorem Content.pending?_eq_some {content : Content} {copy : Copy} :
    content.pending? = some copy ↔ content = .copy copy ∧ copy.resolved = false := by
  cases content with
  | copy c =>
      rw [pending?, Content.copy.injEq]
      constructor
      · intro h
        obtain ⟨hresolved, hsome⟩ := Option.ite_none_left_eq_some.1 h
        obtain rfl := Option.some.inj hsome
        exact ⟨rfl, Bool.eq_false_iff.2 hresolved⟩
      · rintro ⟨rfl, hresolved⟩
        rw [if_neg (Bool.eq_false_iff.1 hresolved)]
  | _ => simp [pending?]

theorem Content.resolvedSince?_self (content : Content) : content.resolvedSince? content = none := by
  cases content with
  | copy c => cases hresolved : c.resolved <;> simp [resolvedSince?, pending?, hresolved]
  | _ => rfl

theorem Content.resolvedSince?_resolved {copy : Copy} (hcopy : copy.resolved = false) :
    (Content.copy copy).resolvedSince? (.copy { copy with resolved := true }) = some copy :=
  pending?_eq_some.2 ⟨rfl, hcopy⟩

namespace Node

/-- A copy that is not resolved has nothing below it. -/
def IsBareIfPending (n : Node) : Prop := n.content.pending?.isSome → n.parts = []

instance (n : Node) : Decidable n.IsBareIfPending := inferInstanceAs (Decidable (_ → _))

mutual
/-- The copies of a tree that are not resolved, in document order. -/
def pendingCopies : Node → List Copy
  | .node content _ types heads children =>
    content.pending?.toList ++ pendingCopiesOf types ++ pendingCopiesOf heads ++
      pendingCopiesOf children

def pendingCopiesOf : List Node → List Copy
  | [] => []
  | n :: rest => pendingCopies n ++ pendingCopiesOf rest
end

section

variable (source : CopySource)

/-- What the children of a node come from: its children before, and what it has copied since. -/
def origins (before : Node) (after : Content) : List Node :=
  before.children ++ ((before.content.resolvedSince? after).bind source).getD []

mutual
/-- The copies of a tree that have been resolved since the tree was as `before`. -/
def copiesSince (before : Node) : Node → List Copy
  | .node content _ types heads children =>
    (before.content.resolvedSince? content).toList ++ copiesSinceOf before.types types ++
      copiesSinceOf before.heads heads ++ copiesSinceOf (before.origins source content) children

def copiesSinceOf : List Node → List Node → List Copy
  | before :: befores, after :: afters =>
    copiesSince before after ++ copiesSinceOf befores afters
  | _, _ => []
end

mutual
/-- The same copies, along each path from the root to a leaf. -/
def pathsSince (before : Node) : Node → List (List Copy)
  | .node content _ types heads children =>
    let here := (before.content.resolvedSince? content).toList
    let below := pathsSinceOf before.types types ++ pathsSinceOf before.heads heads ++
      pathsSinceOf (before.origins source content) children
    if below.isEmpty then [here] else below.map (here ++ ·)

def pathsSinceOf : List Node → List Node → List (List Copy)
  | before :: befores, after :: afters => pathsSince before after ++ pathsSinceOf befores afters
  | _, _ => []
end

mutual
/-- A tree is as it was before, but for copies that have been resolved since and have got the nodes
of their targets. -/
def Extends (before : Node) : Node → Prop
  | .node content flags types heads children =>
    flags = before.flags ∧
    (content = before.content ∨ ∃ copy, before.content.pending? = some copy ∧
      (source copy).isSome ∧ content = .copy { copy with resolved := true }) ∧
    EachExtends before.types types ∧ EachExtends before.heads heads ∧
    EachExtends (before.origins source content) children

def EachExtends : List Node → List Node → Prop
  | [], [] => True
  | before :: befores, after :: afters => Extends before after ∧ EachExtends befores afters
  | _, _ => False
end

end

variable {source : CopySource}

section

variable {content : Content} {flags flags' : NodeFlags}
  {types heads children types' heads' children' : List Node} {copy : Copy} {nodes copied : List Node}

theorem origins_same (source : CopySource) :
    (node content flags types heads children).origins source content = children := by
  show children ++ ((content.resolvedSince? content).bind source).getD [] = children
  rw [Content.resolvedSince?_self, Option.bind_none, Option.getD_none, List.append_nil]

theorem origins_resolved (hcopy : copy.resolved = false) (hnodes : source copy = some nodes) :
    (node (.copy copy) flags types heads children).origins source
      (.copy { copy with resolved := true }) = children ++ nodes := by
  show children ++ (((Content.copy copy).resolvedSince? _).bind source).getD [] = children ++ nodes
  rw [Content.resolvedSince?_resolved hcopy, Option.bind_some, hnodes, Option.getD_some]

theorem copiesSince_same :
    (node content flags types heads children).copiesSince source
      (node content flags' types' heads' children') =
    copiesSinceOf source types types' ++ copiesSinceOf source heads heads' ++
      copiesSinceOf source children children' := by
  rw [copiesSince, origins_same]
  show (content.resolvedSince? content).toList ++ _ ++ _ ++ _ = _
  rw [Content.resolvedSince?_self]
  rfl

theorem copiesSince_resolved (hcopy : copy.resolved = false) (hnodes : source copy = some nodes) :
    (node (.copy copy) flags [] [] []).copiesSince source
      (node (.copy { copy with resolved := true }) flags' [] [] copied) =
    copy :: copiesSinceOf source nodes copied := by
  rw [copiesSince, origins_resolved hcopy hnodes]
  show ((Content.copy copy).resolvedSince? _).toList ++ [] ++ [] ++ _ = _
  rw [Content.resolvedSince?_resolved hcopy]
  rfl

/-- On every path below a node, some of the copies resolved there follow what was resolved at the
node itself. -/
theorem mem_pathsSince_same {path : List Copy}
    (hpath : path ∈ (node content flags types heads children).pathsSince source
      (node content flags' types' heads' children')) :
    path = [] ∨ path ∈ pathsSinceOf source types types' ∨ path ∈ pathsSinceOf source heads heads' ∨
      path ∈ pathsSinceOf source children children' := by
  rw [pathsSince, origins_same] at hpath
  change path ∈ (if _ then [(content.resolvedSince? content).toList] else
    List.map ((content.resolvedSince? content).toList ++ ·) _) at hpath
  rw [Content.resolvedSince?_self] at hpath
  split at hpath
  · exact .inl (List.mem_singleton.1 hpath)
  · simpa [Node.types, Node.heads, or_assoc] using Or.inr hpath

theorem mem_pathsSince_resolved (hcopy : copy.resolved = false) (hnodes : source copy = some nodes)
    {path : List Copy} (hpath : path ∈ (node (.copy copy) flags [] [] []).pathsSince source
      (node (.copy { copy with resolved := true }) flags' [] [] copied)) :
    path = [copy] ∨ ∃ below ∈ pathsSinceOf source nodes copied, path = copy :: below := by
  rw [pathsSince, origins_resolved hcopy hnodes] at hpath
  change path ∈ (if _ then [((Content.copy copy).resolvedSince? _).toList] else
    List.map (((Content.copy copy).resolvedSince? _).toList ++ ·) _) at hpath
  rw [Content.resolvedSince?_resolved hcopy] at hpath
  split at hpath
  · exact .inl (List.mem_singleton.1 hpath)
  · obtain ⟨below, hbelow, rfl⟩ := List.mem_map.1 hpath
    exact .inr ⟨below, by simpa [Node.types, Node.heads, pathsSinceOf] using hbelow, rfl⟩

end

theorem eachExtends_iff {befores afters : List Node} :
    EachExtends source befores afters ↔ List.Forall₂ (Extends source) befores afters := by
  induction befores generalizing afters with
  | nil => cases afters <;> simp [EachExtends]
  | cons before befores ih => cases afters <;> simp [EachExtends, ih]

theorem extends_iff {before after : Node} :
    Extends source before after ↔
      after.flags = before.flags ∧
      (after.content = before.content ∨ ∃ copy, before.content.pending? = some copy ∧
        (source copy).isSome ∧ after.content = .copy { copy with resolved := true }) ∧
      EachExtends source before.types after.types ∧ EachExtends source before.heads after.heads ∧
      EachExtends source (before.origins source after.content) after.children := by
  cases after
  rw [Extends]
  rfl

namespace Extends

variable {before after : Node}

theorem content (h : Extends source before after) :
    after.content = before.content ∨ ∃ copy, before.content.pending? = some copy ∧
      (source copy).isSome ∧ after.content = .copy { copy with resolved := true } :=
  (extends_iff.1 h).2.1

theorem types (h : Extends source before after) :
    List.Forall₂ (Extends source) before.types after.types :=
  eachExtends_iff.1 (extends_iff.1 h).2.2.1

theorem heads (h : Extends source before after) :
    List.Forall₂ (Extends source) before.heads after.heads :=
  eachExtends_iff.1 (extends_iff.1 h).2.2.2.1

theorem origins (h : Extends source before after) :
    List.Forall₂ (Extends source) (before.origins source after.content) after.children :=
  eachExtends_iff.1 (extends_iff.1 h).2.2.2.2

theorem kind (h : Extends source before after) : after.kind = before.kind := by
  unfold Node.kind
  rcases h.content with hsame | ⟨copy, hpending, -, hcontent⟩
  · rw [hsame]
  · rw [hcontent, (Content.pending?_eq_some.1 hpending).1]
    rfl

/-- Nothing but a copy changes. -/
theorem content_eq (h : Extends source before after) (hkind : after.kind ≠ .copy) :
    after.content = before.content := by
  rcases h.content with hsame | ⟨copy, -, -, hcontent⟩
  · exact hsame
  · exact absurd (congrArg Content.kind hcontent) hkind

theorem children (h : Extends source before after) (hkind : after.kind ≠ .copy) :
    List.Forall₂ (Extends source) before.children after.children := by
  have horigins := h.origins
  rwa [Node.origins, h.content_eq hkind, Content.resolvedSince?_self, Option.bind_none,
    Option.getD_none, List.append_nil] at horigins

theorem isPlaced (h : Extends source before after) :
    after.content.isPlaced = before.content.isPlaced := by
  by_cases hkind : after.kind = .copy
  · have hbefore := h.kind.symm.trans hkind
    unfold Node.kind at hkind hbefore
    cases hafter : after.content <;> rw [hafter] at hkind <;> cases hkind
    cases hbefore' : before.content <;> rw [hbefore'] at hbefore <;> cases hbefore
    rfl
  · rw [h.content_eq hkind]

/-- Where every part of a tree comes from. -/
theorem exists_of_mem_parts (h : Extends source before after) {part : Node}
    (hpart : part ∈ after.parts) : ∃ old, Extends source old part ∧
      (old ∈ before.parts ∨ ∃ copy nodes, source copy = some nodes ∧ old ∈ nodes) := by
  rcases mem_parts.1 hpart with htype | hhead | hchild
  · obtain ⟨old, hold, hextends⟩ := exists_of_mem_right h.types htype
    exact ⟨old, hextends, .inl (mem_parts.2 (.inl hold))⟩
  · obtain ⟨old, hold, hextends⟩ := exists_of_mem_right h.heads hhead
    exact ⟨old, hextends, .inl (mem_parts.2 (.inr (.inl hold)))⟩
  · obtain ⟨old, hold, hextends⟩ := exists_of_mem_right h.origins hchild
    refine ⟨old, hextends, ?_⟩
    rcases List.mem_append.1 hold with hold | hcopied
    · exact .inl (mem_parts.2 (.inr (.inr hold)))
    · cases hnodes : (before.content.resolvedSince? after.content).bind source with
      | none => simp [hnodes] at hcopied
      | some nodes =>
          obtain ⟨copy, -, hcopy⟩ := Option.bind_eq_some_iff.1 hnodes
          rw [hnodes, Option.getD_some] at hcopied
          exact .inr ⟨copy, nodes, hcopy, hcopied⟩

theorem cellsPlaced (h : Extends source before after) (hbefore : before.CellsPlaced) :
    after.CellsPlaced := by
  intro table htable hplaced row hrow hrowKind cell hcell
  have hkind : after.kind ≠ .copy := by
    rw [Node.kind, htable]
    exact Kind.noConfusion
  obtain ⟨oldRow, holdRow, hextends⟩ := exists_of_mem_right (h.children hkind) hrow
  have hrowCopy : row.kind ≠ .copy := by
    rw [hrowKind]
    decide
  obtain ⟨oldCell, holdCell, hcellExtends⟩ :=
    exists_of_mem_right (hextends.children hrowCopy) hcell
  rw [hcellExtends.isPlaced]
  exact hbefore table ((h.content_eq hkind).symm.trans htable) hplaced oldRow holdRow
    (hextends.kind.symm.trans hrowKind) oldCell holdCell

/-- Copies bring no fault with them when their targets have none. -/
theorem everywhere_cellsPlaced
    (hsource : ∀ copy nodes, source copy = some nodes → ∀ n ∈ nodes, n.Everywhere CellsPlaced)
    (h : Extends source before after) (hbefore : before.Everywhere CellsPlaced) :
    after.Everywhere CellsPlaced := by
  induction after using part_induct generalizing before with
  | node after ih =>
      refine everywhere_iff.2 ⟨h.cellsPlaced hbefore.here, fun part hpart => ?_⟩
      obtain ⟨old, hextends, hold | ⟨copy, nodes, hcopy, hold⟩⟩ := h.exists_of_mem_parts hpart
      · exact ih part hpart hextends (hbefore.part hold)
      · exact ih part hpart hextends (hsource copy nodes hcopy old hold)

end Extends

end Node

end DocMarkup
