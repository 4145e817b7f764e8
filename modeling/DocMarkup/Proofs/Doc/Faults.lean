import DocMarkup.Proofs.Doc.Trees

/-!
What the check of a linked tree asks of the tree: every node must point to the node that lists it,
and a table that has been placed must have all its cells placed.  Linking makes links that are never
at fault.
-/

namespace DocMarkup

namespace Node

/-- If a table has been placed, so have the cells in its rows. -/
def CellsPlaced (n : Node) : Prop :=
  ∀ table, n.content = .table table → table.columns.isNegative = false →
    ∀ row ∈ n.children, row.kind = .row → ∀ cell ∈ row.children, cell.content.isPlaced

end Node

namespace LinkedTree

variable {t : LinkedTree} {id : Nat}

/-- The nodes that a node lists point to it. -/
def PointsBack (t : LinkedTree) (id : Nat) : Prop :=
  ∀ m, t.get? id = some m → ∀ part ∈ m.parts, t.above? part = some id

theorem hasUnplacedCell_iff (h : t.Ends id) {m : LinkedNode} (hm : t.get? id = some m) :
    t.hasUnplacedCell m = false ↔ (t.toNode id).CellsPlaced := by
  have hcontent : (t.toNode id).content = m.content := by rw [h.toNode hm]; rfl
  have hchildren := children_of_get? hm
  unfold hasUnplacedCell Node.CellsPlaced
  rw [hcontent, h.children_toNode, hchildren, List.forall_mem_map]
  cases m.content with
  | table table =>
      simp only [Content.table.injEq, forall_eq']
      rw [Bool.and_eq_false_imp, Bool.not_eq_true', List.any_eq_false]
      refine imp_congr Iff.rfl (forall₂_congr fun row hrow => ?_)
      have hrow := h.child row (hchildren ▸ hrow)
      rw [Bool.not_eq_true, hrow.content?, Bool.and_eq_false_imp, Option.map_some, beq_iff_eq,
        Option.some_inj, List.any_eq_false, hrow.children_toNode, List.forall_mem_map]
      refine imp_congr Iff.rfl (forall₂_congr fun cell hcell => ?_)
      rw [Bool.not_eq_true, (hrow.child cell hcell).content?]
      cases (t.toNode cell).content <;> simp [Content.isPlaced]
  | _ => simp

/-- The check of a node looks at the nodes it lists and at its cells. -/
theorem faultWithin_succ_eq_none_iff {depth : Nat} (h : t.EndsWithin (depth + 1) id)
    {m : LinkedNode} (hm : t.get? id = some m) :
    t.faultWithin (depth + 1) id = none ↔ t.PointsBack id ∧ (t.toNode id).CellsPlaced ∧
      ∀ part ∈ m.parts, t.faultWithin depth part = none := by
  have hcheck {ids : List Nat} (hids : ids ⊆ m.parts) {look : Nat → Option TreeFault}
      (hlook : ∀ part ∈ m.parts, look part = none ↔
        t.above? part = some id ∧ t.faultWithin depth part = none) :
      ids.findSome? look = none ↔ ∀ part ∈ ids,
        t.above? part = some id ∧ t.faultWithin depth part = none := by
    rw [List.findSome?_eq_none_iff]
    exact forall₂_congr fun part hpart => hlook part (hids hpart)
  have hcells : (if t.hasUnplacedCell m then some TreeFault.unplacedCell else none) = none ↔
      (t.toNode id).CellsPlaced := by
    rw [← hasUnplacedCell_iff ⟨_, h⟩ hm]
    cases t.hasUnplacedCell m <;> simp
  have hback : t.PointsBack id ↔ ∀ part ∈ m.parts, t.above? part = some id := by
    unfold PointsBack
    rw [hm]
    simp
  rw [faultWithin, hm, hback, and_left_comm, ← forall₂_and]
  simp only [Option.or_eq_none_iff]
  refine (and_congr (hcheck m.children_subset ?look) (and_congr (hcheck m.heads_subset ?look)
    (and_congr hcells (hcheck m.types_subset ?look)))).trans ?_
  case look =>
    intro part hpart
    obtain ⟨n, hn⟩ := Ends.exists_get? ⟨depth, h.part hm part hpart⟩
    rw [above?, hn]
    by_cases habove : n.above = some id <;> simp [habove]
  · rw [LinkedNode.parts, List.forall_mem_append, List.forall_mem_append]
    tauto

theorem faultWithin_eq_none_iff {depth : Nat} (h : t.EndsWithin depth id) :
    t.faultWithin depth id = none ↔
      (∀ below ∈ t.below id, t.PointsBack below) ∧ (t.toNode id).Everywhere Node.CellsPlaced := by
  induction depth generalizing id with
  | zero => cases h
  | succ depth ih =>
      obtain ⟨m, hm⟩ := Ends.exists_get? ⟨_, h⟩
      have hends : t.Ends id := ⟨_, h⟩
      have hparts : (∀ part ∈ m.parts, t.faultWithin depth part = none) ↔
          ∀ part ∈ m.parts, (∀ below ∈ t.below part, t.PointsBack below) ∧
            (t.toNode part).Everywhere Node.CellsPlaced :=
        forall₂_congr fun part hpart => ih (h.part hm part hpart)
      rw [faultWithin_succ_eq_none_iff h hm, hparts, hends.below hm, List.forall_mem_cons,
        List.forall_mem_flatMap, Node.everywhere_iff, hends.parts_toNode hm, List.forall_mem_map,
        forall₂_and]
      tauto

/-- The check finds no fault exactly when every node points to the node that lists it, and every
placed table has all its cells placed. -/
theorem Ends.fault?_eq_none_iff (h : t.Ends id) :
    t.fault? id = none ↔
      (∀ below ∈ t.below id, t.PointsBack below) ∧ (t.toNode id).Everywhere Node.CellsPlaced :=
  faultWithin_eq_none_iff h.endsWithin_size

/-- The check finds no fault in a linked tree exactly when every placed table of the tree has all
its cells placed. -/
theorem fault?_ofNode_iff (n : Node) :
    (ofNode n).fault? 0 = none ↔ n.Everywhere Node.CellsPlaced := by
  rw [(isTree_ofNode n).ends.fault?_eq_none_iff, toNode_ofNode]
  exact and_iff_right fun below _ m hm part hpart => above?_ofNode hm hpart

/-- The check finds no fault in a linked tree that is proper. -/
theorem fault?_ofNode {n : Node} (h : n.Everywhere Node.Proper) : (ofNode n).fault? 0 = none := by
  refine (fault?_ofNode_iff n).2 fun m hm table htable _ row hrow _ cell hcell => ?_
  exact (h m hm).cells (congrArg Content.kind htable) row hrow cell hcell

end LinkedTree

end DocMarkup
