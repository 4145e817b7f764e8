import DocMarkup.Doc.Linked
import DocMarkup.Proofs.Doc.Grid

/-!
Linking a tree loses nothing: the linked tree reads back as the tree, and every node points to the
node that lists it.
-/

namespace DocMarkup.LinkedTree

/-! ### Stretches of nodes -/

/-- Some nodes stand one behind the other, the first of them under the number `id`. -/
def Holds (t : LinkedTree) (id : Nat) (nodes : List LinkedNode) : Prop :=
  ∀ i (h : i < nodes.length), t.get? (id + i) = some nodes[i]

variable {t : LinkedTree} {id : Nat}

theorem Holds.left {nodes more : List LinkedNode} (h : t.Holds id (nodes ++ more)) :
    t.Holds id nodes := by
  intro i hi
  rw [h i (by rw [List.length_append]; omega), List.getElem_append_left hi]

theorem Holds.right {nodes more : List LinkedNode} (h : t.Holds id (nodes ++ more)) :
    t.Holds (id + nodes.length) more := by
  intro i hi
  have hmore := h (nodes.length + i) (by rw [List.length_append]; omega)
  rw [List.getElem_append_right (by omega)] at hmore
  simpa [Nat.add_assoc] using hmore

theorem Holds.head {n : LinkedNode} {nodes : List LinkedNode} (h : t.Holds id (n :: nodes)) :
    t.get? id = some n := h 0 (Nat.succ_pos _)

theorem Holds.tail {n : LinkedNode} {nodes : List LinkedNode} (h : t.Holds id (n :: nodes)) :
    t.Holds (id + 1) nodes :=
  Holds.right (show t.Holds id ([n] ++ nodes) from h)

theorem holds_ofNode (n : Node) : (ofNode n).Holds 0 (link none 0 n) := by
  intro i hi
  rw [Nat.zero_add, get?, ofNode, List.getElem?_toArray, List.getElem?_eq_getElem hi]

/-! ### Linked nodes -/

theorem linkAll_append (above id : Nat) (front back : List Node) :
    linkAll above id (front ++ back) =
      ((linkAll above id front).1 ++
          (linkAll above (id + (linkAll above id front).2.length) back).1,
        (linkAll above id front).2 ++
          (linkAll above (id + (linkAll above id front).2.length) back).2) := by
  induction front generalizing id with
  | nil => rfl
  | cons n rest ih =>
      rw [List.cons_append, linkAll, linkAll]
      dsimp only
      rw [ih, List.length_append, List.append_assoc, ← Nat.add_assoc]
      rfl

/-- The node that stands first when a tree is linked. -/
structure IsLinked (above : Option Nat) (id : Nat) (n : Node) (m : LinkedNode) : Prop where
  content : m.content = n.content
  flags : m.flags = n.flags
  notes : m.notes = []
  above : m.above = above
  parts : m.parts = (linkAll id (id + 1) n.parts).1

/-- A tree is linked by linking its parts behind its first node. -/
theorem exists_link (above : Option Nat) (id : Nat) (n : Node) :
    ∃ m, link above id n = m :: (linkAll id (id + 1) n.parts).2 ∧ IsLinked above id n m := by
  obtain ⟨content, flags, types, heads, children⟩ := n
  rw [link]
  dsimp only
  refine ⟨_, congrArg _ ?_, rfl, rfl, rfl, rfl, ?_⟩
  all_goals
    rw [Node.parts, linkAll_append, linkAll_append, List.length_append, ← Nat.add_assoc]
    rfl

/-- A tree has been linked under the number `id`, below the node `above`. -/
def Links (t : LinkedTree) (above : Option Nat) (id : Nat) (n : Node) : Prop :=
  t.Holds id (link above id n)

theorem forall₂_linkAll {above : Nat} {nodes : List Node}
    (h : t.Holds id (linkAll above id nodes).2) :
    List.Forall₂ (t.Links (some above)) (linkAll above id nodes).1 nodes := by
  induction nodes generalizing id with
  | nil => exact .nil
  | cons n rest ih => exact .cons h.left (ih h.right)

/-- The node of a linked tree, and the trees it lists. -/
structure Lists (t : LinkedTree) (above : Option Nat) (id : Nat) (n : Node) (m : LinkedNode) : Prop
    where
  get : t.get? id = some m
  content : m.content = n.content
  flags : m.flags = n.flags
  above : m.above = above
  types : List.Forall₂ (t.Links (some id)) m.types n.types
  heads : List.Forall₂ (t.Links (some id)) m.heads n.heads
  children : List.Forall₂ (t.Links (some id)) m.children n.children

theorem Links.lists {above : Option Nat} {n : Node} (h : t.Links above id n) :
    ∃ m, t.Lists above id n m := by
  obtain ⟨content, flags, types, heads, children⟩ := n
  unfold Links link at h
  refine ⟨_, h.head, rfl, rfl, rfl, ?_, ?_, ?_⟩
  · exact forall₂_linkAll h.tail.left.left
  · exact forall₂_linkAll h.tail.left.right
  · have hchildren := h.tail.right
    rw [List.length_append, ← Nat.add_assoc] at hchildren
    exact forall₂_linkAll hchildren

theorem Lists.parts {above : Option Nat} {n : Node} {m : LinkedNode} (h : t.Lists above id n m) :
    List.Forall₂ (t.Links (some id)) m.parts n.parts :=
  List.rel_append (List.rel_append h.types h.heads) h.children

theorem Links.content? {above : Option Nat} {n : Node} (h : t.Links above id n) :
    t.content? id = some n.content := by
  obtain ⟨m, hm⟩ := h.lists
  rw [LinkedTree.content?, hm.get, Option.map_some, hm.content]

theorem Links.above? {above : Option Nat} {n : Node} (h : t.Links above id n) :
    t.above? id = above := by
  obtain ⟨m, hm⟩ := h.lists
  rw [LinkedTree.above?, hm.get, Option.bind_some, hm.above]

/-! ### Reading back -/

/-- No path down from a node is longer than `depth`. -/
def IsShallow : Nat → Node → Prop
  | 0, _ => False
  | depth + 1, n => ∀ part ∈ n.parts, IsShallow depth part

theorem exists_length_link_le (above id : Nat) {nodes : List Node} {n : Node} (hn : n ∈ nodes) :
    ∃ below, (link (some above) below n).length ≤ (linkAll above id nodes).2.length := by
  induction nodes generalizing id with
  | nil => cases hn
  | cons first rest ih =>
      simp only [linkAll, List.length_append]
      rcases List.mem_cons.1 hn with rfl | hrest
      · exact ⟨id, Nat.le_add_right ..⟩
      · obtain ⟨below, hbelow⟩ := ih (id + (link (some above) id first).length) hrest
        exact ⟨below, Nat.le_trans hbelow (Nat.le_add_left ..)⟩

/-- No path down a tree is longer than the number of its nodes. -/
theorem isShallow_of_length_link_le {n : Node} {above : Option Nat} {depth : Nat}
    (h : (link above id n).length ≤ depth) : IsShallow depth n := by
  induction n using Node.part_induct generalizing above id depth with
  | node n ih =>
      obtain ⟨m, hlink, -⟩ := exists_link above id n
      rw [hlink, List.length_cons] at h
      cases depth with
      | zero => omega
      | succ depth =>
          intro part hpart
          obtain ⟨below, hbelow⟩ := exists_length_link_le id (id + 1) hpart
          exact ih part hpart (Nat.le_trans hbelow (by omega))

theorem toNodeWithin_of_links {n : Node} {above : Option Nat} {depth : Nat}
    (h : t.Links above id n) (hdepth : IsShallow depth n) : t.toNodeWithin depth id = n := by
  induction n using Node.part_induct generalizing above id depth with
  | node n ih =>
      cases depth with
      | zero => cases hdepth
      | succ depth =>
          obtain ⟨m, hm⟩ := h.lists
          have hmap : ∀ {ids nodes}, List.Forall₂ (t.Links (some id)) ids nodes →
              (∀ part ∈ nodes, part ∈ n.parts) → ids.map (t.toNodeWithin depth) = nodes := by
            intro ids nodes hlinks hparts
            induction hlinks with
            | nil => rfl
            | cons hlink _ ihlinks =>
                obtain ⟨hpart, hrest⟩ := List.forall_mem_cons.1 hparts
                rw [List.map_cons, ih _ hpart hlink (hdepth _ hpart), ihlinks hrest]
          rw [toNodeWithin, hm.get]
          dsimp only
          rw [hmap hm.types ?_, hmap hm.heads ?_, hmap hm.children ?_, hm.content, hm.flags]
          · cases n
            rfl
          · exact fun part hchild => Node.mem_parts.2 (.inr (.inr hchild))
          · exact fun part hhead => Node.mem_parts.2 (.inr (.inl hhead))
          · exact fun part htype => Node.mem_parts.2 (.inl htype)

/-- A linked tree reads back as the tree that was linked. -/
theorem toNode_ofNode (n : Node) : (ofNode n).toNode 0 = n :=
  toNodeWithin_of_links (holds_ofNode n)
    (isShallow_of_length_link_le (Nat.le_of_eq List.size_toArray.symm))

/-! ### Nodes by number -/

theorem exists_of_mem_ids {above : Option Nat} {ids : List Nat} {nodes : List Node}
    (h : List.Forall₂ (t.Links above) ids nodes) {below : Nat} (hbelow : below ∈ ids) :
    ∃ n ∈ nodes, t.Links above below n :=
  Node.exists_of_mem_right (.flip h) hbelow

/-- A stretch of numbers, all of them those of trees that have been linked. -/
def AreLinked (t : LinkedTree) (id length : Nat) : Prop :=
  ∀ i < length, ∃ above n, t.Links above (id + i) n

theorem AreLinked.append {length more : Nat} (h : t.AreLinked id length)
    (hmore : t.AreLinked (id + length) more) : t.AreLinked id (length + more) := by
  intro i hi
  by_cases hlt : i < length
  · exact h i hlt
  · obtain ⟨k, rfl⟩ := Nat.exists_eq_add_of_le (Nat.le_of_not_lt hlt)
    rw [← Nat.add_assoc]
    exact hmore k (by omega)

theorem areLinked_linkAll {above : Nat} {nodes : List Node}
    (hnodes : ∀ n ∈ nodes, ∀ {id : Nat} {above : Option Nat}, t.Links above id n →
      t.AreLinked id (link above id n).length)
    (h : t.Holds id (linkAll above id nodes).2) :
    t.AreLinked id (linkAll above id nodes).2.length := by
  induction nodes generalizing id with
  | nil => exact nofun
  | cons n rest ih =>
      obtain ⟨hn, hrest⟩ := List.forall_mem_cons.1 hnodes
      rw [linkAll, List.length_append]
      exact (hn h.left).append (ih hrest h.right)

theorem Links.areLinked {n : Node} {above : Option Nat} (h : t.Links above id n) :
    t.AreLinked id (link above id n).length := by
  induction n using Node.part_induct generalizing above id with
  | node n ih =>
      have hself : t.AreLinked id 1 := by
        intro i hi
        obtain rfl := Nat.lt_one_iff.1 hi
        exact ⟨above, n, h⟩
      obtain ⟨m, hlink, -⟩ := exists_link above id n
      unfold Links at h
      rw [hlink] at h ⊢
      rw [List.length_cons, Nat.add_comm]
      exact hself.append (areLinked_linkAll ih h.tail)

/-- Every node of a tree that was linked points to the node that lists it. -/
theorem Links.above?_part {n : Node} {above : Option Nat} (h : t.Links above id n) {i : Nat}
    (hi : i < (link above id n).length) {m : LinkedNode} (hm : t.get? (id + i) = some m)
    {part : Nat} (hpart : part ∈ m.parts) : t.above? part = some (id + i) := by
  obtain ⟨above', tree, hlinks⟩ := h.areLinked i hi
  obtain ⟨m', hlists⟩ := hlinks.lists
  obtain rfl : m = m' := Option.some.inj (hm.symm.trans hlists.get)
  obtain ⟨below, -, hbelow⟩ := exists_of_mem_ids hlists.parts hpart
  exact hbelow.above?

theorem above?_ofNode {root : Node} {n : LinkedNode} (hn : (ofNode root).get? id = some n)
    {part : Nat} (hpart : part ∈ n.parts) : (ofNode root).above? part = some id := by
  have hid : id < (link none 0 root).length := by
    rw [get?, ofNode, List.getElem?_toArray] at hn
    exact (List.getElem?_eq_some_iff.1 hn).1
  have hroot : (ofNode root).Links none 0 root := holds_ofNode root
  rw [← Nat.zero_add id] at hn ⊢
  exact hroot.above?_part hid hn hpart

end DocMarkup.LinkedTree
