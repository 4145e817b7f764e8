import DocMarkup.Proofs.Doc.Mapping
import DocMarkup.Proofs.Doc.Trees

/-!
Contents of linked nodes overwritten.  When a tree of the same shape is laid over the nodes below a
node and the contents are written that it has there, then it is the tree that is read off
afterwards.
-/

namespace DocMarkup

namespace Node

/-- A tree without its contents. -/
def shape (n : Node) : Node := n.mapContent fun _ => default

theorem eq_of_shape_eq {n n' : Node} (hshape : n.shape = n'.shape)
    (hcontent : n.content = n'.content) (hparts : n.parts = n'.parts) : n = n' := by
  obtain ⟨content, flags, types, heads, children⟩ := n
  obtain ⟨content', flags', types', heads', children'⟩ := n'
  obtain rfl : content = content' := hcontent
  rw [shape, shape, mapContent_node, mapContent_node] at hshape
  obtain ⟨-, rfl, htypes, hheads, -⟩ := Node.node.inj hshape
  have hlength {nodes nodes' : List Node} {f : Node → Node} (h : nodes.map f = nodes'.map f) :
      nodes.length = nodes'.length := by
    simpa using congrArg List.length h
  have hfront : (types ++ heads).length = (types' ++ heads').length := by
    rw [List.length_append, List.length_append, hlength htypes, hlength hheads]
  obtain ⟨hfront, rfl⟩ := List.append_inj hparts hfront
  obtain ⟨rfl, rfl⟩ := List.append_inj hfront (hlength htypes)
  rfl

/-- What stands in front of the children is kept. -/
structure KeepsFront (n n' : Node) : Prop where
  types : n'.types = n.types
  heads : n'.heads = n.heads

end Node

namespace LinkedTree

variable {t : LinkedTree} {id : Nat}

/-! ### Trees laid over linked nodes -/

/-- When a tree is laid over the nodes below a node, the node `place` is covered by the part
`cover`. -/
inductive Covers (t : LinkedTree) (place : Nat) (cover : Node) : Nat → Node → Prop
  | here : Covers t place cover place cover
  | part {id part : Nat} {n laid : Node} {m : LinkedNode} (hm : t.get? id = some m)
      (hpart : (part, laid) ∈ m.parts.zip n.parts) (h : Covers t place cover part laid) :
      Covers t place cover id n

theorem Covers.ends {n cover : Node} {place : Nat} (h : t.Covers place cover id n)
    (hid : t.Ends id) : t.Ends place := by
  induction h with
  | here => exact hid
  | part hm hpart _ ih => exact ih (hid.part hm _ (List.of_mem_zip hpart).1)

theorem Covers.mem_below {n cover : Node} {place : Nat} (h : t.Covers place cover id n)
    (hid : t.Ends id) : place ∈ t.below id := by
  induction h with
  | here => exact hid.mem_below
  | part hm hpart _ ih =>
      have hlisted := (List.of_mem_zip hpart).1
      rw [hid.below hm]
      exact List.mem_cons_of_mem _ (List.mem_flatMap.2 ⟨_, hlisted, ih (hid.part hm _ hlisted)⟩)

/-- In a tree no two parts come to lie on one node. -/
theorem IsTree.eq_of_covers (h : t.IsTree id) {n cover cover' : Node} {place : Nat}
    (hcover : t.Covers place cover id n) (hcover' : t.Covers place cover' id n) :
    cover = cover' := by
  induction hcover with
  | here =>
      cases hcover' with
      | here => rfl
      | part hm hpart hcover' =>
          have hlisted := (List.of_mem_zip hpart).1
          exact absurd (hcover'.mem_below (h.ends.part hm _ hlisted)) (h.not_mem_below hm _ hlisted)
  | @part id part n laid m hm hpart hcover ih =>
      have hlisted := (List.of_mem_zip hpart).1
      cases hcover' with
      | here =>
          exact absurd (hcover.mem_below (h.ends.part hm _ hlisted)) (h.not_mem_below hm _ hlisted)
      | @part _ part' _ laid' m' hm' hpart' hcover' =>
          obtain rfl : m = m' := Option.some.inj (hm.symm.trans hm')
          obtain ⟨i, hi⟩ := List.mem_iff_getElem?.1 hpart
          obtain ⟨j, hj⟩ := List.mem_iff_getElem?.1 hpart'
          rw [List.getElem?_zip_eq_some] at hi hj
          obtain rfl : i = j := h.index_inj hm hi.1 hj.1
            (hcover.mem_below (h.ends.part hm _ hlisted))
            (hcover'.mem_below (h.ends.part hm _ (List.of_mem_zip hpart').1))
          obtain rfl : part = part' := Option.some.inj (hi.1.symm.trans hj.1)
          obtain rfl : laid = laid' := Option.some.inj (hi.2.symm.trans hj.2)
          exact ih (h.part hm _ hlisted) hcover'

/-! ### Covers that differ in contents alone -/

theorem Ends.forall₂_shape (h : t.Ends id) {m : LinkedNode} (hm : t.get? id = some m) {n : Node}
    (hn : n.shape = (t.toNode id).shape) :
    List.Forall₂ (fun part laid => laid.shape = (t.toNode part).shape) m.parts n.parts := by
  have hparts := congrArg Node.parts hn
  rw [Node.shape, Node.shape, Node.parts_mapContent, Node.parts_mapContent, h.parts_toNode hm,
    List.map_map, ← List.forall₂_eq_eq_eq, List.forall₂_map_left_iff,
    List.forall₂_map_right_iff] at hparts
  exact hparts.flip

/-- A tree of the same shape is read off a node if its contents are those of the nodes that it
covers. -/
theorem Ends.toNode_eq (h : t.Ends id) {n : Node} (hshape : n.shape = (t.toNode id).shape)
    (hcontent : ∀ place cover, t.Covers place cover id n →
      t.content? place = some cover.content) : t.toNode id = n := by
  induction h using Ends.part_induct generalizing n with
  | node id m hid hm ih =>
      have hparts : List.Forall₂ (fun part laid => t.toNode part = laid) m.parts n.parts := by
        have hshapes := hid.forall₂_shape hm hshape
        rw [List.forall₂_iff_zip] at hshapes ⊢
        refine ⟨hshapes.1, fun hpart => ?_⟩
        exact ih _ (List.of_mem_zip hpart).1 (hshapes.2 hpart) fun place cover hcover =>
          hcontent place cover (.part hm hpart hcover)
      have hcontent := hcontent id n .here
      rw [content?_of_get? hm, Option.some_inj] at hcontent
      refine Node.eq_of_shape_eq hshape.symm ?_ ?_
      · rw [hid.toNode hm]
        exact hcontent
      · rw [hid.parts_toNode hm, ← List.forall₂_eq_eq_eq, List.forall₂_map_left_iff]
        exact hparts

/-! ### Contents overwritten -/

/-- Two linked trees differ in the contents and the notes of their nodes alone. -/
def SameLinks (t t' : LinkedTree) : Prop :=
  ∀ id, (t.get? id).map ({ · with content := default, notes := [] }) =
    (t'.get? id).map ({ · with content := default, notes := [] })

section

variable {t' : LinkedTree} (h : t.SameLinks t')

include h

theorem SameLinks.symm : t'.SameLinks t := fun id => (h id).symm

theorem SameLinks.get? {m : LinkedNode} (hm : t.get? id = some m) :
    ∃ content notes, t'.get? id = some { m with content, notes } := by
  have hid := h id
  rw [hm, Option.map_some] at hid
  obtain ⟨m', hm', hsame⟩ := Option.map_eq_some_iff.1 hid.symm
  refine ⟨m'.content, m'.notes, hm'.trans (congrArg some ?_)⟩
  cases m
  cases m'
  simpa using hsame

theorem SameLinks.endsWithin {depth : Nat} (hid : t.EndsWithin depth id) :
    t'.EndsWithin depth id := by
  induction depth generalizing id with
  | zero => cases hid
  | succ depth ih =>
      obtain ⟨m, hm, hparts⟩ := hid
      obtain ⟨content, notes, hm'⟩ := h.get? hm
      exact ⟨_, hm', fun part hpart => ih (hparts part hpart)⟩

theorem SameLinks.ends (hid : t.Ends id) : t'.Ends id := hid.imp fun _ => h.endsWithin

theorem SameLinks.covers {n cover : Node} {place : Nat} (hcover : t.Covers place cover id n) :
    t'.Covers place cover id n := by
  induction hcover with
  | here => exact .here
  | part hm hpart _ ih =>
      obtain ⟨content, notes, hm'⟩ := h.get? hm
      exact .part hm' hpart ih

theorem SameLinks.children (id : Nat) : t'.children id = t.children id := by
  have hid := congrArg (fun m : Option LinkedNode => (m.map (·.children)).getD []) (h id)
  simpa [LinkedTree.children, Function.comp_def] using hid.symm

theorem SameLinks.above? (id : Nat) : t'.above? id = t.above? id := by
  have hid := congrArg (Option.bind · (·.above)) (h id)
  simpa [LinkedTree.above?, Option.bind_map, Function.comp_def] using hid.symm

theorem SameLinks.below (hid : t.Ends id) : t'.below id = t.below id := by
  induction hid using Ends.part_induct with
  | node id m hid hm ih =>
      obtain ⟨content, notes, hm'⟩ := h.get? hm
      rw [hid.below hm, (h.ends hid).below hm']
      exact congrArg (id :: ·) (List.flatMap_congr ih)

theorem SameLinks.shape (hid : t.Ends id) : (t'.toNode id).shape = (t.toNode id).shape := by
  induction hid using Ends.part_induct with
  | node id m hid hm ih =>
      obtain ⟨content, notes, hm'⟩ := h.get? hm
      have hmap {ids : List Nat} (hids : ids ⊆ m.parts) :
          (ids.map t'.toNode).map Node.shape = (ids.map t.toNode).map Node.shape := by
        rw [List.map_map, List.map_map]
        exact List.map_congr_left fun part hpart => ih part (hids hpart)
      rw [hid.toNode hm, (h.ends hid).toNode hm', Node.shape, Node.shape, Node.mapContent_node,
        Node.mapContent_node]
      exact congr (congr (congrArg _ (hmap m.types_subset)) (hmap m.heads_subset))
        (hmap m.children_subset)

end

theorem get?_setContent (t : LinkedTree) (id : Nat) (content : Content) (place : Nat) :
    (t.setContent id content).get? place =
      if id = place then (t.get? place).map ({ · with content }) else t.get? place :=
  Array.getElem?_modify

theorem setContents_cons (t : LinkedTree) (first : Nat × Content) (rest : List (Nat × Content)) :
    t.setContents (first :: rest) = (t.setContent first.1 first.2).setContents rest := rfl

theorem sameLinks_setContents (t : LinkedTree) (contents : List (Nat × Content)) :
    t.SameLinks (t.setContents contents) := by
  induction contents generalizing t with
  | nil => exact fun _ => rfl
  | cons first rest ih =>
      intro place
      refine Eq.trans ?_ (ih (t.setContent first.1 first.2) place)
      rw [get?_setContent]
      split
      · rw [Option.map_map]
        rfl
      · rfl

theorem content?_setContent_self {old : Content} (h : t.content? id = some old)
    (content : Content) : (t.setContent id content).content? id = some content := by
  obtain ⟨m, hm, -⟩ := Option.map_eq_some_iff.1 h
  rw [content?, get?_setContent, if_pos rfl, hm]
  rfl

theorem setContent_of_content? {content : Content} (h : t.content? id = some content) :
    t.setContent id content = t := by
  obtain ⟨m, hm, rfl⟩ := Option.map_eq_some_iff.1 h
  obtain ⟨nodes⟩ := t
  refine congrArg LinkedTree.mk (Array.ext_getElem? fun place => ?_)
  have hplace := get?_setContent ⟨nodes⟩ id m.content place
  refine hplace.trans ?_
  split
  · next heq =>
    rw [← heq, hm]
    exact hm.symm
  · rfl

theorem setContents_of_content? {contents : List (Nat × Content)}
    (h : ∀ write ∈ contents, t.content? write.1 = some write.2) : t.setContents contents = t := by
  induction contents with
  | nil => rfl
  | cons first rest ih =>
      obtain ⟨hfirst, hrest⟩ := List.forall_mem_cons.1 h
      rw [setContents_cons, setContent_of_content? hfirst, ih hrest]

/-- What is written last at a node is its content; where nothing is written the content stays. -/
theorem content?_setContents (contents : List (Nat × Content)) {place : Nat} {content : Content}
    (h : t.content? place = some content) :
    (∃ written, (place, written) ∈ contents ∧
        (t.setContents contents).content? place = some written) ∨
      (∀ written, (place, written) ∉ contents) ∧
        (t.setContents contents).content? place = some content := by
  induction contents generalizing t content with
  | nil => exact .inr ⟨nofun, h⟩
  | cons first rest ih =>
      obtain ⟨id, new⟩ := first
      rw [setContents_cons]
      by_cases hid : id = place
      case pos =>
        obtain rfl := hid
        rcases ih (content?_setContent_self h new) with ⟨written, hmem, hlast⟩ | ⟨-, hlast⟩
        · exact .inl ⟨written, List.mem_cons_of_mem _ hmem, hlast⟩
        · exact .inl ⟨new, List.mem_cons_self, hlast⟩
      case neg =>
        have hold : (t.setContent id new).content? place = some content := by
          rw [content?, get?_setContent, if_neg hid]
          exact h
        rcases ih hold with ⟨written, hmem, hlast⟩ | ⟨hnone, hlast⟩
        · exact .inl ⟨written, List.mem_cons_of_mem _ hmem, hlast⟩
        · refine .inr ⟨fun written hmem => ?_, hlast⟩
          rcases List.mem_cons.1 hmem with heq | hmem
          · exact hid (Prod.mk.inj heq).1.symm
          · exact hnone written hmem

/-- If a tree covers nodes with the contents that are written there, and the other nodes with those
they have, then it is the tree that is read off afterwards. -/
theorem IsTree.toNode_setContents (h : t.IsTree id) {n : Node}
    (hshape : n.shape = (t.toNode id).shape) {contents : List (Nat × Content)}
    (hwritten : ∀ write ∈ contents,
      ∃ cover, t.Covers write.1 cover id n ∧ cover.content = write.2)
    (hkept : ∀ place cover, t.Covers place cover id n →
      (place, cover.content) ∈ contents ∨ t.content? place = some cover.content) :
    (t.setContents contents).toNode id = n ∧
      ∀ write ∈ contents, (t.setContents contents).content? write.1 = some write.2 := by
  have hlinks := sameLinks_setContents t contents
  have hcontent : ∀ place cover, t.Covers place cover id n →
      (t.setContents contents).content? place = some cover.content := by
    intro place cover hcover
    have hold := (hcover.ends h.ends).content?
    rcases content?_setContents contents hold with ⟨written, hmem, hlast⟩ | ⟨hnone, hlast⟩
    · obtain ⟨cover', hcover', rfl⟩ := hwritten _ hmem
      rw [hlast, h.eq_of_covers hcover hcover']
    · rw [hlast, ← hold]
      exact (hkept place cover hcover).resolve_left (hnone _)
  refine ⟨(hlinks.ends h.ends).toNode_eq (hshape.trans (hlinks.shape h.ends).symm)
    fun place cover hcover => hcontent place cover (hlinks.symm.covers hcover), ?_⟩
  intro write hmem
  obtain ⟨cover, hcover, hsame⟩ := hwritten write hmem
  rw [hcontent _ _ hcover, hsame]

/-! ### Parts that are kept -/

theorem eq_toNode_of_mem_zip {ids : List Nat} {part : Nat} {laid : Node}
    (h : (part, laid) ∈ ids.zip (ids.map t.toNode)) : laid = t.toNode part := by
  have hall : List.Forall₂ (fun part laid => laid = t.toNode part) ids (ids.map t.toNode) :=
    List.forall₂_map_right_iff.2 (List.forall₂_same.2 fun _ _ => rfl)
  exact List.forall₂_zip hall h

theorem Covers.content? {cover : Node} {place : Nat} {n : Node} (h : t.Covers place cover id n)
    (hid : t.Ends id) (hn : n = t.toNode id) : t.content? place = some cover.content := by
  induction h with
  | here =>
      rw [hn]
      exact hid.content?
  | part hm hpart _ ih =>
      have hends := hid.part hm _ (List.of_mem_zip hpart).1
      rw [hn, hid.parts_toNode hm] at hpart
      exact ih hends (eq_toNode_of_mem_zip hpart)

/-- The parts of a tree as they come to lie on those of a node, if what stands in front of the
children is what is read off the node. -/
theorem Ends.zip_parts (hid : t.Ends id) {m : LinkedNode} (hm : t.get? id = some m) {n : Node}
    (hn : (t.toNode id).KeepsFront n) :
    m.parts.zip n.parts = m.types.zip (m.types.map t.toNode) ++
      m.heads.zip (m.heads.map t.toNode) ++ (t.children id).zip n.children := by
  obtain ⟨htypes, hheads⟩ := hn
  rw [hid.toNode hm] at htypes hheads
  rw [LinkedNode.parts, Node.parts, htypes, hheads, children_of_get? hm]
  simp only [Node.types, Node.heads]
  rw [List.zip_append, List.zip_append]
  all_goals simp

/-- A tree with the parts that are read off a node covers itself; elsewhere the contents are
kept. -/
theorem Covers.cases_parts {n cover : Node} {place : Nat} (h : t.Covers place cover id n)
    (hid : t.Ends id) (hn : n.parts = (t.toNode id).parts) :
    place = id ∧ cover = n ∨ t.content? place = some cover.content := by
  cases h with
  | here => exact .inl ⟨rfl, rfl⟩
  | part hm hpart h =>
      have hends := hid.part hm _ (List.of_mem_zip hpart).1
      rw [hn, hid.parts_toNode hm] at hpart
      exact .inr (h.content? hends (eq_toNode_of_mem_zip hpart))

/-- A tree that is read off a node but for its content and its children covers itself and what its
children cover; elsewhere the contents are kept. -/
theorem Covers.cases_front {n cover : Node} {place : Nat} (h : t.Covers place cover id n)
    (hid : t.Ends id) (hn : (t.toNode id).KeepsFront n) :
    place = id ∧ cover = n ∨ t.content? place = some cover.content ∨
      ∃ child laid, (child, laid) ∈ (t.children id).zip n.children ∧
        t.Covers place cover child laid := by
  cases h with
  | here => exact .inl ⟨rfl, rfl⟩
  | part hm hpart h =>
      have hends := hid.part hm _ (List.of_mem_zip hpart).1
      rw [hid.zip_parts hm hn, List.mem_append, List.mem_append] at hpart
      rcases hpart with (htype | hhead) | hchild
      · exact .inr (.inl (h.content? hends (eq_toNode_of_mem_zip htype)))
      · exact .inr (.inl (h.content? hends (eq_toNode_of_mem_zip hhead)))
      · exact .inr (.inr ⟨_, _, hchild, h⟩)

theorem Covers.child {n cover : Node} {place : Nat} (hid : t.Ends id)
    (hn : (t.toNode id).KeepsFront n) {child : Nat} {laid : Node}
    (hchild : (child, laid) ∈ (t.children id).zip n.children)
    (h : t.Covers place cover child laid) : t.Covers place cover id n := by
  obtain ⟨m, hm⟩ := hid.exists_get?
  refine .part hm ?_ h
  rw [hid.zip_parts hm hn]
  exact List.mem_append_right _ hchild

/-- A child of a tree as a child of what is read off a node comes to be. -/
theorem Ends.forall₂_child (hid : t.Ends id) {R : Node → Node → Prop} {nodes : List Node}
    (h : List.Forall₂ R (t.toNode id).children nodes) {child : Nat} {laid : Node}
    (hchild : (child, laid) ∈ (t.children id).zip nodes) : R (t.toNode child) laid := by
  rw [hid.children_toNode, List.forall₂_map_left_iff] at h
  exact List.forall₂_zip h hchild

end LinkedTree

end DocMarkup
