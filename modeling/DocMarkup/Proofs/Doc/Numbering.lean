import Mathlib.Data.List.Basic
import Mathlib.Data.List.Range
import DocMarkup.Proofs.Doc.Grammar

/-!
Numbers of a document.  Cross-reference items and formulas are numbered as they appear: items one
after the other, formulas by their texts.  A tree is known by what it is without its numbers and by
the nodes that have one, in document order.
-/

namespace DocMarkup

/-- The anchor of a cross-reference item. -/
def XRefItem.anchorOf (key : Text) (id : Nat) : Text :=
  unit '_' :: key ++ Text.padLeft 6 (unit '0') (unitsOfNat id)

namespace Content

def isNumbered : Content → Bool
  | .xrefItem _ | .formula _ => true
  | _ => false

/-- The number of a cross-reference item. -/
def itemId? : Content → Option Nat
  | .xrefItem item => some item.id
  | _ => none

def formula? : Content → Option Formula
  | .formula f => some f
  | _ => none

/-- A content without its number. -/
def unnumber : Content → Content
  | .xrefItem item => .xrefItem { item with id := 0, anchor := [] }
  | .formula f => .formula { f with id := 0, name := [] }
  | content => content

/-- A content with its number changed: that of an item is raised, that of a formula is the place of
its text in a list. -/
def renumber (items : Nat) (formulas : List Text) : Content → Content
  | .xrefItem item =>
    let id := item.id + items
    .xrefItem { item with id, anchor := XRefItem.anchorOf item.key id }
  | .formula f =>
    let id := formulas.idxOf f.text
    .formula { f with id, name := Formula.imageName id }
  | content => content

variable {content content' : Content} {items : Nat} {formulas : List Text}

theorem unnumber_eq (h : content.isNumbered = false) : content.unnumber = content := by
  cases content <;> first
    | rfl
    | cases h

theorem renumber_eq (h : content.isNumbered = false) :
    content.renumber items formulas = content := by
  cases content <;> first
    | rfl
    | cases h

@[simp]
theorem unnumber_unnumber (content : Content) : content.unnumber.unnumber = content.unnumber := by
  cases content <;> rfl

@[simp]
theorem isNumbered_unnumber (content : Content) :
    content.unnumber.isNumbered = content.isNumbered := by
  cases content <;> rfl

@[simp]
theorem kind_unnumber (content : Content) : content.unnumber.kind = content.kind := by
  cases content <;> rfl

theorem isNumbered_congr (h : content.unnumber = content'.unnumber) :
    content.isNumbered = content'.isNumbered := by
  rw [← isNumbered_unnumber content, h, isNumbered_unnumber]

/-- A content that has no number is what it is without its number. -/
theorem eq_of_unnumber_eq (h : content.unnumber = content'.unnumber)
    (hcontent : content.isNumbered = false) : content = content' := by
  rw [← unnumber_eq hcontent, h, unnumber_eq (isNumbered_congr h ▸ hcontent)]

end Content

/-! ### Trees -/

namespace Node

mutual
/-- A tree with the contents of its nodes changed. -/
def mapContent (f : Content → Content) : Node → Node
  | .node content flags types heads children =>
    .node (f content) flags (mapContents f types) (mapContents f heads) (mapContents f children)

/-- Some trees with the contents of their nodes changed. -/
def mapContents (f : Content → Content) : List Node → List Node
  | [] => []
  | n :: rest => n.mapContent f :: mapContents f rest
end

mutual
/-- The contents of a tree that have numbers, in document order. -/
def numbered : Node → List Content
  | .node content _ types heads children =>
    (if content.isNumbered then [content] else []) ++ numberedOf types ++ numberedOf heads ++
      numberedOf children

/-- The contents of some trees that have numbers, in document order. -/
def numberedOf : List Node → List Content
  | [] => []
  | n :: rest => n.numbered ++ numberedOf rest
end

/-- A tree without its numbers. -/
def unnumber (n : Node) : Node := n.mapContent Content.unnumber

/-- A tree with its numbers changed. -/
def renumber (items : Nat) (formulas : List Text) (n : Node) : Node :=
  n.mapContent (Content.renumber items formulas)

theorem mapContents_eq_map (f : Content → Content) (nodes : List Node) :
    mapContents f nodes = nodes.map (mapContent f) := by
  induction nodes with
  | nil => rfl
  | cons n rest ih => rw [mapContents, ih, List.map_cons]

theorem numberedOf_eq_flatMap (nodes : List Node) :
    numberedOf nodes = nodes.flatMap numbered := by
  induction nodes with
  | nil => rfl
  | cons n rest ih => rw [numberedOf, ih, List.flatMap_cons]

theorem mapContent_node (f : Content → Content) (content : Content) (flags : NodeFlags)
    (types heads children : List Node) :
    (Node.node content flags types heads children).mapContent f =
      .node (f content) flags (types.map (mapContent f)) (heads.map (mapContent f))
        (children.map (mapContent f)) := by
  rw [mapContent, mapContents_eq_map, mapContents_eq_map, mapContents_eq_map]

theorem numbered_node (content : Content) (flags : NodeFlags) (types heads children : List Node) :
    (Node.node content flags types heads children).numbered =
      (if content.isNumbered then [content] else []) ++
        (types ++ heads ++ children).flatMap numbered := by
  rw [numbered, numberedOf_eq_flatMap, numberedOf_eq_flatMap, numberedOf_eq_flatMap,
    List.flatMap_append, List.flatMap_append, List.append_assoc, List.append_assoc,
    List.append_assoc]

theorem parts_mapContent (f : Content → Content) (n : Node) :
    (n.mapContent f).parts = n.parts.map (mapContent f) := by
  obtain ⟨content, flags, types, heads, children⟩ := n
  rw [mapContent_node]
  simp only [parts, Node.types, Node.heads, Node.children, List.map_append]

theorem numbered_eq (n : Node) :
    n.numbered = (if n.content.isNumbered then [n.content] else []) ++
      n.parts.flatMap numbered := by
  obtain ⟨content, flags, types, heads, children⟩ := n
  exact numbered_node ..

theorem mapContent_mapContent (f g : Content → Content) (n : Node) :
    (n.mapContent f).mapContent g = n.mapContent (g ∘ f) := by
  induction n using part_induct with
  | node n ih =>
      obtain ⟨content, flags, types, heads, children⟩ := n
      simp only [mapContent_node, List.map_map]
      have hall : ∀ {nodes : List Node}, (∀ part ∈ nodes, part ∈ types ++ heads ++ children) →
          nodes.map (mapContent g ∘ mapContent f) = nodes.map (mapContent (g ∘ f)) := fun h =>
        List.map_congr_left fun part hpart => ih part (h part hpart)
      rw [hall fun part hpart => by simp [hpart], hall fun part hpart => by simp [hpart],
        hall fun part hpart => by simp [hpart]]
      rfl

@[simp]
theorem unnumber_unnumber (n : Node) : n.unnumber.unnumber = n.unnumber := by
  rw [unnumber, unnumber, mapContent_mapContent]
  congr 1
  exact funext Content.unnumber_unnumber

theorem numbered_unnumber (n : Node) : n.unnumber.numbered = n.numbered.map Content.unnumber := by
  induction n using part_induct with
  | node n ih =>
      have hcontent : n.unnumber.content = n.content.unnumber := by
        obtain ⟨content, flags, types, heads, children⟩ := n
        rfl
      have hparts : n.unnumber.parts.flatMap numbered =
          (n.parts.flatMap numbered).map Content.unnumber := by
        rw [unnumber, parts_mapContent, List.flatMap_map, List.map_flatMap]
        exact List.flatMap_congr ih
      rw [numbered_eq n.unnumber, numbered_eq n, List.map_append, hparts, hcontent,
        Content.isNumbered_unnumber]
      split <;> rfl

theorem length_numbered_congr {n n' : Node} (h : n.unnumber = n'.unnumber) :
    n'.numbered.length = n.numbered.length := by
  calc n'.numbered.length
      = (n'.numbered.map Content.unnumber).length := (List.length_map _).symm
    _ = (n.numbered.map Content.unnumber).length := by
        rw [← numbered_unnumber, ← h, numbered_unnumber]
    _ = n.numbered.length := List.length_map _

section

variable {f : Content → Content}

theorem eq_map_of_numbered {nodes nodes' : List Node}
    (hnodes : ∀ n ∈ nodes, ∀ n' : Node, n.unnumber = n'.unnumber →
      n'.numbered = n.numbered.map f → n' = n.mapContent f)
    (h : nodes.map unnumber = nodes'.map unnumber)
    (hnumbered : nodes'.flatMap numbered = (nodes.flatMap numbered).map f) :
    nodes' = nodes.map (mapContent f) := by
  induction nodes generalizing nodes' with
  | nil => rw [List.map_eq_nil_iff.1 h.symm, List.map_nil]
  | cons n rest ih =>
      obtain ⟨hn, hrest⟩ := List.forall_mem_cons.1 hnodes
      obtain ⟨n', rest', rfl, hhead, htail⟩ := List.map_eq_cons_iff.1 h.symm
      rw [List.flatMap_cons, List.flatMap_cons, List.map_append] at hnumbered
      obtain ⟨hhere, hmore⟩ := List.append_inj hnumbered
        (by rw [List.length_map, length_numbered_congr hhead.symm])
      rw [List.map_cons, ← hn n' hhead.symm hhere, ← ih hrest htail.symm hmore]

/-- Trees that are alike without their numbers are told apart by the numbers in them. -/
theorem eq_mapContent_of_numbered (hf : ∀ content : Content, content.isNumbered = false →
    f content = content) {n n' : Node} (h : n.unnumber = n'.unnumber)
    (hnumbered : n'.numbered = n.numbered.map f) : n' = n.mapContent f := by
  induction n using part_induct generalizing n' with
  | node n ih =>
      obtain ⟨content, flags, types, heads, children⟩ := n
      obtain ⟨content', flags', types', heads', children'⟩ := n'
      simp only [unnumber, mapContent_node, Node.node.injEq] at h
      obtain ⟨hcontent, rfl, htypes, hheads, hchildren⟩ := h
      have hparts : (types ++ heads ++ children).map unnumber =
          (types' ++ heads' ++ children').map unnumber := by
        simp only [List.map_append]
        exact congrArg₂ _ (congrArg₂ _ htypes hheads) hchildren
      rw [numbered_node, numbered_node, List.map_append] at hnumbered
      have hsame := Content.isNumbered_congr hcontent
      obtain ⟨hhere, hbelow⟩ := List.append_inj hnumbered (by rw [hsame]; split <;> rfl)
      have hall : types' ++ heads' ++ children' =
          types.map (mapContent f) ++ heads.map (mapContent f) ++ children.map (mapContent f) := by
        rw [← List.map_append, ← List.map_append]
        exact eq_map_of_numbered (fun part hpart _ => ih part hpart) hparts hbelow
      have hcontent' : content' = f content := by
        cases hnumber : content.isNumbered with
        | true => simpa [← hsame, hnumber] using hhere
        | false => rw [hf content hnumber, Content.eq_of_unnumber_eq hcontent hnumber]
      have hlength : ∀ {nodes nodes' : List Node}, nodes.map unnumber = nodes'.map unnumber →
          nodes'.length = (nodes.map (mapContent f)).length := fun h => by
        simpa using (congrArg List.length h).symm
      obtain ⟨hfront, rfl⟩ := List.append_inj hall (by
        rw [List.length_append, List.length_append, hlength htypes, hlength hheads])
      obtain ⟨rfl, rfl⟩ := List.append_inj hfront (hlength htypes)
      rw [mapContent_node, hcontent']

end

end Node

/-! ### Numbers in order -/

theorem getElem?_of_starts {α : Type} {l l' : List α} (h : l <+: l') {i : Nat} {a : α}
    (hi : l[i]? = some a) : l'[i]? = some a := by
  obtain ⟨later, rfl⟩ := h
  rw [List.getElem?_append_left (List.getElem?_eq_some_iff.1 hi).1, hi]

section

variable {α : Type} [BEq α] [LawfulBEq α]

theorem eraseDups_of_nodup {l : List α} (h : l.Nodup) : l.eraseDups = l := by
  induction l with
  | nil => rfl
  | cons a l ih =>
      obtain ⟨ha, hl⟩ := List.nodup_cons.1 h
      have hkept : l.filter (fun b => !b == a) = l := by
        refine List.filter_eq_self.2 fun b hb => ?_
        simpa using ne_of_mem_of_not_mem hb ha
      rw [List.eraseDups_cons, hkept, ih hl]

/-- What occurred before does not count again. -/
theorem eraseDups_append_cons_of_mem {l : List α} {a : α} (ha : a ∈ l) (more : List α) :
    (l ++ a :: more).eraseDups = (l ++ more).eraseDups := by
  rw [List.eraseDups_append, List.eraseDups_append, List.cons_removeAll, if_neg (by simpa using ha)]

end

/-- The numbers given so far: how many items there are, and the formulas, each once. -/
structure Numbering where
  items : Nat := 0
  formulas : List Text := []

/-- Contents are numbered in their order, from one state of the numbers to another. -/
inductive Numbers : Numbering → List Content → Numbering → Prop
  | nil (s : Numbering) : Numbers s [] s
  | item {s s' : Numbering} {item : XRefItem} {rest : List Content} (hid : item.id = s.items + 1)
      (hanchor : item.anchor = XRefItem.anchorOf item.key item.id)
      (more : Numbers { s with items := s.items + 1 } rest s') :
      Numbers s (.xrefItem item :: rest) s'
  | formula {s s' : Numbering} {f : Formula} {rest : List Content}
      (hid : f.id = (Formula.register s.formulas f.text).1) (hname : f.name = Formula.imageName f.id)
      (more : Numbers { s with formulas := (Formula.register s.formulas f.text).2 } rest s') :
      Numbers s (.formula f :: rest) s'

/-- A formula that is known keeps its number; any other gets the next one. -/
theorem Formula.register_spec {formulas : List Text} (hformulas : formulas.Nodup) (text : Text) :
    formulas <+: (Formula.register formulas text).2 ∧
      (Formula.register formulas text).2.Nodup ∧
      (Formula.register formulas text).2[(Formula.register formulas text).1]? = some text ∧
      ((Formula.register formulas text).2 = formulas ∨
        (Formula.register formulas text).1 = formulas.length ∧
          (Formula.register formulas text).2.length = formulas.length + 1) := by
  unfold Formula.register
  split
  · next id hid =>
    obtain ⟨hlt, hfound, -⟩ := List.findIdx?_eq_some_iff_getElem.1 hid
    refine ⟨List.prefix_rfl, hformulas, ?_, .inl rfl⟩
    rw [List.getElem?_eq_getElem hlt, eq_of_beq hfound]
  · next hnone =>
    have hnew : text ∉ formulas := fun hmem => by
      simpa using List.findIdx?_eq_none_iff.1 hnone text hmem
    refine ⟨List.prefix_append .., ?_, by simp, .inr ⟨rfl, by simp⟩⟩
    refine List.nodup_append.2 ⟨hformulas, List.pairwise_singleton .., fun a ha b hb => ?_⟩
    rw [List.mem_singleton.1 hb]
    exact ne_of_mem_of_not_mem ha hnew

namespace Numbers

variable {s s' s'' : Numbering} {contents more : List Content}

theorem append (h : Numbers s contents s') (h' : Numbers s' more s'') :
    Numbers s (contents ++ more) s'' := by
  induction h with
  | nil => exact h'
  | item hid hanchor _ ih => exact .item hid hanchor (ih h')
  | formula hid hname _ ih => exact .formula hid hname (ih h')

/-- Items are numbered one after the other. -/
theorem itemIds (h : Numbers s contents s') :
    ∃ n, s'.items = s.items + n ∧ contents.filterMap Content.itemId? = List.range' (s.items + 1) n := by
  induction h with
  | nil => exact ⟨0, rfl, rfl⟩
  | @item s s' item rest hid _ _ ih =>
      obtain ⟨n, hitems, hids⟩ := ih
      refine ⟨n + 1, by rw [hitems]; exact Nat.add_right_comm .., ?_⟩
      rw [List.filterMap_cons_some (f := Content.itemId?) rfl, hids, hid, List.range'_succ]
  | formula _ _ _ ih =>
      obtain ⟨n, hitems, hids⟩ := ih
      exact ⟨n, hitems, (List.filterMap_cons_none (f := Content.itemId?) rfl).trans hids⟩

/-- The number of a formula is the place of its text among all formulas. -/
theorem formulas (h : Numbers s contents s') (hs : s.formulas.Nodup) :
    s.formulas <+: s'.formulas ∧ s'.formulas.Nodup ∧
      ∀ f ∈ contents.filterMap Content.formula?,
        s'.formulas[f.id]? = some f.text ∧ f.name = Formula.imageName f.id := by
  induction h with
  | nil => exact ⟨List.prefix_rfl, hs, List.forall_mem_nil _⟩
  | item _ _ _ ih =>
      rw [List.filterMap_cons_none (f := Content.formula?) rfl]
      exact ih hs
  | @formula s s' f rest hid hname _ ih =>
      obtain ⟨hstarts, hnodup, hplace, -⟩ := Formula.register_spec hs f.text
      obtain ⟨hmore, hnodup', hall⟩ := ih hnodup
      rw [List.filterMap_cons_some (f := Content.formula?) rfl]
      refine ⟨hstarts.trans hmore, hnodup', List.forall_mem_cons.2 ⟨⟨?_, hname⟩, hall⟩⟩
      exact hid ▸ getElem?_of_starts hmore hplace

/-- Formulas get their numbers in the order in which their texts first appear. -/
theorem formulaIds (h : Numbers s contents s') (hs : s.formulas.Nodup) :
    (List.range s.formulas.length ++
      (contents.filterMap Content.formula?).map Formula.id).eraseDups =
        List.range s'.formulas.length := by
  induction h with
  | nil s =>
      show (List.range s.formulas.length ++ []).eraseDups = _
      rw [List.append_nil, eraseDups_of_nodup List.nodup_range]
  | item _ _ _ ih =>
      rw [List.filterMap_cons_none (f := Content.formula?) rfl]
      exact ih hs
  | @formula s s' f rest hid _ _ ih =>
      obtain ⟨-, hnodup, hplace, hcount⟩ := Formula.register_spec hs f.text
      rw [List.filterMap_cons_some (f := Content.formula?) rfl, List.map_cons, ← ih hnodup, hid]
      rcases hcount with hknown | ⟨hnew, hlength⟩
      · have hlt : (Formula.register s.formulas f.text).1 < s.formulas.length := by
          have hplace := (List.getElem?_eq_some_iff.1 hplace).1
          rwa [hknown] at hplace
        simp only [hknown]
        exact eraseDups_append_cons_of_mem (List.mem_range.2 hlt) _
      · simp only [hnew, hlength, List.range_succ, List.append_assoc, List.singleton_append]

/-- The same contents, numbered from another state on: the numbers of items are raised by the items
before them, and a formula has the place of its text among all formulas. -/
theorem eq_map_renumber {t t' : Numbering} {contents' : List Content} {items : Nat}
    (h : Numbers s contents s') (h' : Numbers t contents' t')
    (hsame : contents.map Content.unnumber = contents'.map Content.unnumber)
    (hitems : t.items = s.items + items) (ht : t.formulas.Nodup) :
    contents' = contents.map (Content.renumber items t'.formulas) := by
  induction h generalizing t contents' with
  | nil => rw [List.map_eq_nil_iff.1 hsame.symm, List.map_nil]
  | @item s s' item rest hid _ _ ih =>
      cases h' with
      | nil => cases hsame
      | formula => cases hsame
      | @item _ _ item' rest' hid' hanchor' more =>
          obtain ⟨id, key, file, anchor, title, relPath⟩ := item
          obtain ⟨id', key', file', anchor', title', relPath'⟩ := item'
          simp only [List.map_cons, Content.unnumber, List.cons.injEq, Content.xrefItem.injEq,
            XRefItem.mk.injEq] at hsame
          obtain ⟨⟨-, rfl, rfl, -, rfl, rfl⟩, hrest⟩ := hsame
          have hnumber : id' = id + items := by
            simp only at hid hid'
            omega
          rw [List.map_cons, ← ih more hrest (by simp only [hitems]; omega) ht, Content.renumber,
            ← hnumber, ← hanchor']
  | @formula s s' f rest _ _ _ ih =>
      cases h' with
      | nil => cases hsame
      | item => cases hsame
      | @formula _ _ f' rest' hid' hname' more =>
          obtain ⟨-, hnodup, hplace, -⟩ := Formula.register_spec ht f'.text
          obtain ⟨hlater, hnodup', -⟩ := more.formulas hnodup
          rw [← hid'] at hplace
          have hnumber : f'.id = t'.formulas.idxOf f'.text := by
            obtain ⟨hlt, hfound⟩ := List.getElem?_eq_some_iff.1 (getElem?_of_starts hlater hplace)
            rw [← hfound, hnodup'.idxOf_getElem]
          obtain ⟨id, name, text, relPath⟩ := f
          obtain ⟨id', name', text', relPath'⟩ := f'
          simp only [List.map_cons, Content.unnumber, List.cons.injEq, Content.formula.injEq,
            Formula.mk.injEq] at hsame
          obtain ⟨⟨-, -, rfl, rfl⟩, hrest⟩ := hsame
          rw [List.map_cons, ← ih more hrest hitems hnodup, Content.renumber, ← hnumber, ← hname']

end Numbers

end DocMarkup
