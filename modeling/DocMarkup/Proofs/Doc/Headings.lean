import DocMarkup.Proofs.Doc.Sections

/-!
The headings of a document: what its sections are known by, in document order.
-/

namespace DocMarkup

/-- What a section is known by. -/
structure Heading where
  label : Text
  level : Nat
  title : Text
  deriving DecidableEq, Repr

/-- The heading of a section. -/
def Content.heading? : Content → Option Heading
  | .sect s => some { label := s.label, level := s.level, title := s.title }
  | _ => none

namespace Node

mutual
/-- The headings of the sections of a tree, in document order. -/
def headings : Node → List Heading
  | .node content _ types heads children =>
    content.heading?.toList ++ (headingsOf types ++ headingsOf heads ++ headingsOf children)

/-- The headings of some trees, one after the other. -/
def headingsOf : List Node → List Heading
  | [] => []
  | n :: rest => headings n ++ headingsOf rest
end

@[simp] theorem headingsOf_nil : headingsOf [] = [] := by rw [headingsOf]

@[simp] theorem headingsOf_cons (n : Node) (rest : List Node) :
    headingsOf (n :: rest) = n.headings ++ headingsOf rest := by rw [headingsOf]

theorem headingsOf_append (nodes more : List Node) :
    headingsOf (nodes ++ more) = headingsOf nodes ++ headingsOf more := by
  induction nodes with
  | nil => simp
  | cons n rest ih => simp [ih]

theorem headings_eq (n : Node) :
    n.headings = n.content.heading?.toList ++ headingsOf n.parts := by
  obtain ⟨content, flags, types, heads, children⟩ := n
  rw [headings, parts, headingsOf_append, headingsOf_append]
  rfl

theorem heading?_eq_none {n : Node} (h : n.kind ≠ .sect) : n.content.heading? = none := by
  unfold Content.heading?
  split
  next hcontent => exact absurd (congrArg Content.kind hcontent) h
  next => rfl

theorem headingsOf_eq_nil {nodes : List Node} (h : ∀ n ∈ nodes, n.headings = []) :
    headingsOf nodes = [] := by
  induction nodes with
  | nil => simp
  | cons n rest ih =>
      obtain ⟨hn, hrest⟩ := List.forall_mem_cons.1 h
      rw [headingsOf_cons, hn, ih hrest, List.nil_append]

theorem headings_eq_nil {n : Node} (h : n.Everywhere (·.kind ≠ .sect)) : n.headings = [] := by
  induction n using part_induct with
  | node n ih =>
      rw [headings_eq, heading?_eq_none h.here,
        headingsOf_eq_nil fun part hpart => ih part hpart (h.part hpart)]
      rfl

/-- The headings of a document or a section are its own and those of the sections right below. -/
theorem Everywhere.headings {n : Node} (h : n.Everywhere Conforms)
    (hkind : n.kind.holdsSections) :
    n.headings =
      n.content.heading?.toList ++ headingsOf (n.children.filter (·.isKind .sect)) := by
  rw [headings_eq, h.here.parts_eq_children hkind]
  have hchildren : ∀ child ∈ n.children, child.kind ≠ .sect → child.headings = [] := by
    intro child hchild hsect
    have hpart : child ∈ n.parts := mem_parts.2 (.inr (.inr hchild))
    have hroot := h.here.part_ne_root hpart
    refine headings_eq_nil ((h.part hpart).kind_ne_sect ?_)
    generalize child.kind = kind at hroot hsect
    cases kind <;> first
      | rfl
      | exact absurd rfl hroot
      | exact absurd rfl hsect
  congr 1
  clear hkind h
  generalize n.children = children at hchildren
  induction children with
  | nil => rfl
  | cons child rest ih =>
      obtain ⟨hchild, hrest⟩ := List.forall_mem_cons.1 hchildren
      rw [headingsOf_cons, ih hrest, List.filter_cons]
      split
      · rw [headingsOf_cons]
      · next hsect =>
        rw [hchild (by simpa [isKind] using hsect), List.nil_append]

end Node

/-- Only paragraphs are marked. -/
theorem filter_sect_markParagraphs (nodes : List Node) :
    (markParagraphs nodes).filter (·.isKind .sect) = nodes.filter (·.isKind .sect) := by
  unfold markParagraphs markEnds
  generalize true = first
  induction nodes generalizing first with
  | nil => rfl
  | cons n rest ih =>
      unfold markEnds.go
      split
      · next hparagraph =>
        have hkind : n.kind = .paragraph := beq_iff_eq.1 hparagraph
        have hn : n.isKind .sect = false := by rw [Node.isKind, hkind]; rfl
        rw [List.filter_cons (x := n), hn, List.filter_cons, if_neg, ih]
        · rfl
        · split
          · intro hsect
            cases hsect
          · simp [hn]
      · rw [List.filter_cons, List.filter_cons, ih]

end DocMarkup
