import Mathlib.Data.List.Nodup
import Mathlib.Data.List.Perm.Subperm
import Mathlib.Data.Nat.Find
import DocMarkup.Proofs.Doc.Linking

/-!
Linked nodes that form a tree.  Where every path down from a node ends, no path is longer than there
are nodes, so what is read off the linked nodes in as many steps is read off completely.
-/

namespace DocMarkup

namespace LinkedNode

theorem types_subset (n : LinkedNode) : n.types ⊆ n.parts := fun _ h =>
  List.mem_append_left _ (List.mem_append_left _ h)

theorem heads_subset (n : LinkedNode) : n.heads ⊆ n.parts := fun _ h =>
  List.mem_append_left _ (List.mem_append_right _ h)

theorem children_subset (n : LinkedNode) : n.children ⊆ n.parts := fun _ h =>
  List.mem_append_right _ h

end LinkedNode

namespace LinkedTree

variable {t : LinkedTree} {id : Nat}

/-- Every path down from a node ends within so many steps, and only nodes are listed on it. -/
def EndsWithin (t : LinkedTree) : Nat → Nat → Prop
  | 0, _ => False
  | depth + 1, id => ∃ n, t.get? id = some n ∧ ∀ part ∈ n.parts, t.EndsWithin depth part

/-- Every path down from a node ends. -/
def Ends (t : LinkedTree) (id : Nat) : Prop := ∃ depth, t.EndsWithin depth id

/-- The nodes below a node form a tree: every path ends, and no node is met twice. -/
structure IsTree (t : LinkedTree) (id : Nat) : Prop where
  ends : t.Ends id
  once : (t.below id).Nodup

theorem lt_size_of_get? {n : LinkedNode} (h : t.get? id = some n) : id < t.size :=
  (Array.getElem?_eq_some_iff.1 h).1

theorem content?_of_get? {n : LinkedNode} (h : t.get? id = some n) :
    t.content? id = some n.content := by
  rw [content?, h, Option.map_some]

theorem children_of_get? {n : LinkedNode} (h : t.get? id = some n) :
    t.children id = n.children := by
  rw [children, h]
  rfl

/-! ### Paths -/

theorem EndsWithin.succ {depth : Nat} (h : t.EndsWithin depth id) :
    t.EndsWithin (depth + 1) id := by
  induction depth generalizing id with
  | zero => cases h
  | succ depth ih =>
      obtain ⟨n, hn, hparts⟩ := h
      exact ⟨n, hn, fun part hpart => ih (hparts part hpart)⟩

theorem EndsWithin.mono {depth more : Nat} (h : t.EndsWithin depth id) (hle : depth ≤ more) :
    t.EndsWithin more id := by
  induction hle with
  | refl => exact h
  | step _ ih => exact ih.succ

theorem EndsWithin.part {depth : Nat} (h : t.EndsWithin (depth + 1) id) {n : LinkedNode}
    (hn : t.get? id = some n) : ∀ part ∈ n.parts, t.EndsWithin depth part := by
  obtain ⟨m, hm, hparts⟩ := h
  obtain rfl : n = m := Option.some.inj (hn.symm.trans hm)
  exact hparts

theorem Ends.exists_get? (h : t.Ends id) : ∃ n, t.get? id = some n := by
  obtain ⟨depth, hdepth⟩ := h
  obtain ⟨n, hn, -⟩ := hdepth.succ
  exact ⟨n, hn⟩

theorem Ends.part (h : t.Ends id) {n : LinkedNode} (hn : t.get? id = some n) :
    ∀ part ∈ n.parts, t.Ends part := by
  obtain ⟨depth, hdepth⟩ := h
  exact fun part hpart => ⟨depth, hdepth.succ.part hn part hpart⟩

/-- What holds of a node once it holds of its parts holds of every node whose paths end. -/
@[elab_as_elim]
theorem Ends.part_induct {motive : ∀ id, t.Ends id → Prop}
    (node : ∀ id n (h : t.Ends id) (hn : t.get? id = some n),
      (∀ part (hpart : part ∈ n.parts), motive part (h.part hn part hpart)) → motive id h)
    {id : Nat} (h : t.Ends id) : motive id h := by
  obtain ⟨depth, hdepth⟩ := h
  induction depth generalizing id with
  | zero => cases hdepth
  | succ depth ih =>
      have hends := hdepth
      obtain ⟨n, hn, hparts⟩ := hends
      exact node id n _ hn fun part hpart => ih (hparts part hpart)

/-- If the paths down from a node need all of some steps, as many nodes stand on one of them. -/
theorem exists_path {depth : Nat} (h : t.EndsWithin (depth + 1) id)
    (hshort : ¬ t.EndsWithin depth id) :
    ∃ path : List Nat, path.length = depth + 1 ∧ path.Nodup ∧
      ∀ below ∈ path, t.EndsWithin (depth + 1) below := by
  induction depth generalizing id with
  | zero => exact ⟨[id], rfl, List.pairwise_singleton _ id, List.forall_mem_singleton.2 h⟩
  | succ depth ih =>
      have hdepth := h
      obtain ⟨n, hn, hparts⟩ := hdepth
      obtain ⟨part, hpart, hdeep⟩ : ∃ part ∈ n.parts, ¬ t.EndsWithin depth part := by
        by_contra hnone
        exact hshort ⟨n, hn, fun part hpart => by_contra fun hdeep => hnone ⟨part, hpart, hdeep⟩⟩
      obtain ⟨path, hlength, hnodup, hpath⟩ := ih (hparts part hpart) hdeep
      have hfresh : id ∉ path := fun hid => hshort (hpath id hid)
      refine ⟨id :: path, ?_, List.nodup_cons.2 ⟨hfresh, hnodup⟩, List.forall_mem_cons.2 ⟨h, ?_⟩⟩
      · rw [List.length_cons, hlength]
      · exact fun below hbelow => (hpath below hbelow).succ

/-- No path that ends is longer than there are nodes. -/
theorem Ends.endsWithin_size (h : t.Ends id) : t.EndsWithin t.size id := by
  classical
  have hleast {depth : Nat} (hdepth : depth < Nat.find h) : ¬ t.EndsWithin depth id :=
    Nat.find_min h hdepth
  have hdepth : t.EndsWithin (Nat.find h) id := Nat.find_spec h
  cases hfind : Nat.find h with
  | zero =>
      rw [hfind] at hdepth
      cases hdepth
  | succ depth =>
      rw [hfind] at hdepth
      obtain ⟨path, hlength, hnodup, hpath⟩ := exists_path hdepth (hleast (by omega))
      have hnodes : path ⊆ List.range t.size := by
        intro below hbelow
        obtain ⟨n, hn, -⟩ := hpath below hbelow
        exact List.mem_range.2 (lt_size_of_get? hn)
      have hsize : path.length ≤ t.size :=
        List.length_range (n := t.size) ▸ (List.subperm_of_subset hnodup hnodes).length_le
      exact hdepth.mono (hlength ▸ hsize)

/-! ### Reading off a tree -/

/-- What is read off a node does not depend on the steps taken, if they are enough. -/
theorem toNodeWithin_eq {depth more : Nat} (h : t.EndsWithin depth id) (hle : depth ≤ more) :
    t.toNodeWithin more id = t.toNodeWithin depth id := by
  induction depth generalizing id more with
  | zero => cases h
  | succ depth ih =>
      obtain ⟨more, rfl⟩ := Nat.exists_eq_add_of_le' (Nat.le_trans (Nat.succ_pos depth) hle)
      obtain ⟨n, hn, hparts⟩ := h
      have hpart {ids : List Nat} (hids : ids ⊆ n.parts) :
          ids.map (t.toNodeWithin more) = ids.map (t.toNodeWithin depth) :=
        List.map_congr_left fun part hpart => ih (hparts part (hids hpart)) (by omega)
      rw [toNodeWithin, toNodeWithin, hn]
      dsimp only
      rw [hpart n.types_subset, hpart n.heads_subset, hpart n.children_subset]

theorem belowWithin_eq {depth more : Nat} (h : t.EndsWithin depth id) (hle : depth ≤ more) :
    t.belowWithin more id = t.belowWithin depth id := by
  induction depth generalizing id more with
  | zero => cases h
  | succ depth ih =>
      obtain ⟨more, rfl⟩ := Nat.exists_eq_add_of_le' (Nat.le_trans (Nat.succ_pos depth) hle)
      obtain ⟨n, hn, hparts⟩ := h
      rw [belowWithin, belowWithin, hn]
      refine congrArg (id :: ·) (List.flatMap_congr fun part hpart => ?_)
      exact ih (hparts part hpart) (by omega)

theorem Ends.exists_depth (h : t.Ends id) {n : LinkedNode} (hn : t.get? id = some n) :
    ∃ depth, t.size = depth + 1 ∧ ∀ part ∈ n.parts, t.EndsWithin depth part := by
  have hsize := h.endsWithin_size
  cases hdepth : t.size with
  | zero =>
      rw [hdepth] at hsize
      cases hsize
  | succ depth =>
      rw [hdepth] at hsize
      exact ⟨depth, rfl, hsize.part hn⟩

theorem Ends.toNode (h : t.Ends id) {n : LinkedNode} (hn : t.get? id = some n) :
    t.toNode id = .node n.content n.flags (n.types.map t.toNode) (n.heads.map t.toNode)
      (n.children.map t.toNode) := by
  obtain ⟨depth, hsize, hparts⟩ := h.exists_depth hn
  have hmap {ids : List Nat} (hids : ids ⊆ n.parts) :
      ids.map (t.toNodeWithin depth) = ids.map t.toNode :=
    List.map_congr_left fun part hpart =>
      (toNodeWithin_eq (hparts part (hids hpart)) (by omega)).symm
  rw [LinkedTree.toNode, hsize, toNodeWithin, hn]
  dsimp only
  rw [hmap n.types_subset, hmap n.heads_subset, hmap n.children_subset]

theorem Ends.below (h : t.Ends id) {n : LinkedNode} (hn : t.get? id = some n) :
    t.below id = id :: n.parts.flatMap t.below := by
  obtain ⟨depth, hsize, hparts⟩ := h.exists_depth hn
  rw [LinkedTree.below, hsize, belowWithin, hn]
  refine congrArg (id :: ·) (List.flatMap_congr fun part hpart => ?_)
  exact (belowWithin_eq (hparts part hpart) (by omega)).symm

theorem Ends.content? (h : t.Ends id) : t.content? id = some (t.toNode id).content := by
  obtain ⟨m, hm⟩ := h.exists_get?
  rw [content?_of_get? hm, h.toNode hm]
  rfl

theorem Ends.parts_toNode (h : t.Ends id) {m : LinkedNode} (hm : t.get? id = some m) :
    (t.toNode id).parts = m.parts.map t.toNode := by
  rw [h.toNode hm, LinkedNode.parts, List.map_append, List.map_append]
  rfl

theorem Ends.children_toNode (hid : t.Ends id) :
    (t.toNode id).children = (t.children id).map t.toNode := by
  obtain ⟨m, hm⟩ := hid.exists_get?
  rw [hid.toNode hm, children_of_get? hm]
  rfl

theorem Ends.child (hid : t.Ends id) : ∀ child ∈ t.children id, t.Ends child := by
  obtain ⟨m, hm⟩ := hid.exists_get?
  intro child hchild
  rw [children_of_get? hm] at hchild
  exact hid.part hm child (m.children_subset hchild)

theorem Ends.mem_below (h : t.Ends id) : id ∈ t.below id := by
  obtain ⟨m, hm⟩ := h.exists_get?
  rw [h.below hm]
  exact List.mem_cons_self

theorem IsTree.part (h : t.IsTree id) {m : LinkedNode} (hm : t.get? id = some m) :
    ∀ part ∈ m.parts, t.IsTree part := by
  intro part hpart
  have honce := h.once
  rw [h.ends.below hm, List.nodup_cons, List.nodup_flatMap] at honce
  exact ⟨h.ends.part hm part hpart, honce.2.1 part hpart⟩

theorem IsTree.not_mem_below (h : t.IsTree id) {m : LinkedNode} (hm : t.get? id = some m) :
    ∀ part ∈ m.parts, id ∉ t.below part := by
  intro part hpart hid
  have honce := h.once
  rw [h.ends.below hm, List.nodup_cons] at honce
  exact honce.1 (List.mem_flatMap.2 ⟨part, hpart, hid⟩)

/-- No node lies below two parts of a node. -/
theorem IsTree.index_inj (h : t.IsTree id) {m : LinkedNode} (hm : t.get? id = some m)
    {i j part part' below : Nat} (hi : m.parts[i]? = some part) (hj : m.parts[j]? = some part')
    (hpart : below ∈ t.below part) (hpart' : below ∈ t.below part') : i = j := by
  have honce := h.once
  rw [h.ends.below hm, List.nodup_cons, List.nodup_flatMap] at honce
  have hdisjoint := List.pairwise_iff_getElem.1 honce.2.2
  obtain ⟨hi', rfl⟩ := List.getElem?_eq_some_iff.1 hi
  obtain ⟨hj', rfl⟩ := List.getElem?_eq_some_iff.1 hj
  rcases Nat.lt_trichotomy i j with hlt | heq | hlt
  · exact absurd hpart' (hdisjoint i j hi' hj' hlt hpart)
  · exact heq
  · exact absurd hpart (hdisjoint j i hj' hi' hlt hpart')

/-! ### Trees that were linked -/

theorem Links.endsWithin {n : Node} {above : Option Nat} {depth : Nat} (h : t.Links above id n)
    (hdepth : IsShallow depth n) : t.EndsWithin depth id := by
  induction n using Node.part_induct generalizing above id depth with
  | node n ih =>
      cases depth with
      | zero => cases hdepth
      | succ depth =>
          obtain ⟨m, hm⟩ := h.lists
          refine ⟨m, hm.get, fun part hpart => ?_⟩
          obtain ⟨below, hbelow, hlink⟩ := exists_of_mem_ids hm.parts hpart
          exact ih below hbelow hlink (hdepth below hbelow)

theorem flatMap_linkAll {look : Nat → List Nat} {above : Nat} {nodes : List Node}
    (h : t.Holds id (linkAll above id nodes).2)
    (hlook : ∀ n ∈ nodes, ∀ id, t.Links (some above) id n →
      look id = List.range' id (link (some above) id n).length) :
    (linkAll above id nodes).1.flatMap look = List.range' id (linkAll above id nodes).2.length := by
  induction nodes generalizing id with
  | nil => rfl
  | cons n rest ih =>
      obtain ⟨hn, hrest⟩ := List.forall_mem_cons.1 hlook
      rw [linkAll]
      dsimp only
      rw [List.flatMap_cons, hn id h.left, ih h.right hrest, List.length_append,
        List.range'_append_1]

/-- The nodes of a tree that was linked stand one behind the other. -/
theorem Links.belowWithin {n : Node} {above : Option Nat} {depth : Nat} (h : t.Links above id n)
    (hdepth : IsShallow depth n) :
    t.belowWithin depth id = List.range' id (link above id n).length := by
  induction n using Node.part_induct generalizing above id depth with
  | node n ih =>
      cases depth with
      | zero => cases hdepth
      | succ depth =>
          obtain ⟨m, hlink, hm⟩ := exists_link above id n
          unfold Links at h
          rw [hlink] at h ⊢
          rw [LinkedTree.belowWithin, h.head, Option.map_some, Option.getD_some, hm.parts,
            flatMap_linkAll h.tail fun part hpart below hlink =>
              ih part hpart hlink (hdepth part hpart),
            List.length_cons, List.range'_succ]

theorem isTree_ofNode (n : Node) : (ofNode n).IsTree 0 := by
  have hshallow : IsShallow (ofNode n).size n :=
    isShallow_of_length_link_le (Nat.le_of_eq List.size_toArray.symm)
  have hroot : (ofNode n).Links none 0 n := holds_ofNode n
  refine ⟨⟨_, hroot.endsWithin hshallow⟩, ?_⟩
  rw [below, hroot.belowWithin hshallow]
  exact List.nodup_range'

end LinkedTree

end DocMarkup
