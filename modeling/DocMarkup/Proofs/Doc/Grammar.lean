import Mathlib.Logic.Relation
import DocMarkup.Doc.Grid
import DocMarkup.Entity.Basic

/-!
The grammar of documents: which nodes list which, what stands in front of the children of a node,
and what else holds of every node of a tree that a comment is read into.
-/

namespace DocMarkup

namespace Kind

/-- Text within a line. -/
def isInline : Kind → Bool
  | word | linkedWord | whiteSpace | symbol | url | styleChange | lineBreak => true
  | _ => false

/-- Text without any markup. -/
def isPlain : Kind → Bool
  | word | whiteSpace | symbol | url => true
  | _ => false

/-- Names of parameters and types. -/
def isName : Kind → Bool
  | word | linkedWord => true
  | _ => false

/-- Blocks and text of a paragraph: neither whole documents nor parts of other structures. -/
def isParagraphPart : Kind → Bool
  | root | text | paragraph | sect | separator | autoListItem | simpleListItem | listItem
  | descTitle | descData | row | cell | caption | refItem | paramList | title => false
  | _ => true

/-- Whether a node of one kind may list a node of another. -/
def lists (kind below : Kind) : Bool :=
  match kind with
  | root | sect => below == paragraph || below == sect
  | paragraph => below.isParagraphPart
  | autoList => below == autoListItem
  | simpleList => below == simpleListItem
  | paramSection => below == paramList
  | list => below == listItem
  | descList => below == descTitle || below == descData
  | table => below == row
  | row => below == cell
  | refList => below == refItem
  | simpleSection => below == paragraph || below == separator
  | autoListItem | simpleListItem | listItem | descData | cell | blockQuote | parBlock | internal
  | xrefItem | paramList => below == paragraph
  | hyperlink | link | header | descTitle | caption => below.isInline
  | title | reference | internalReference | image | diagramFile | refItem | text => below.isPlain
  | _ => false

/-- Whether a node of one kind may have a node of another in front of its children. -/
def heads (kind before : Kind) : Bool :=
  match kind with
  | simpleSection => before == title
  | table => before == caption
  | paramList => before.isName
  | _ => false

/-- Kinds of nodes with nothing below them. -/
def isBare (kind : Kind) : Bool := kind.isInline || kind == includeStep

theorem isBare_of_isName {kind : Kind} (h : kind.isName) : kind.isBare := by
  cases kind <;> first
    | rfl
    | cases h

/-- Lists that begin with their first item. -/
def isFilled : Kind → Bool
  | autoList | simpleList | paramSection => true
  | _ => false

end Kind

/-- Whether a cell has its place in a grid; other nodes need none. -/
def Content.isPlaced : Content → Bool
  | .cell c => !c.row.isNegative && !c.column.isNegative
  | _ => true

/-- Whether a run of include steps is open behind some nodes, the last one first.  There is no
answer when a run begins inside another or something other than white space interrupts it. -/
def runOpen? : List Node → Option Bool
  | [] => some false
  | n :: before =>
    (runOpen? before).bind fun isOpen =>
      match n.content with
      | .includeStep step => if isOpen && step.isFirst then none else some !step.isLast
      | .whiteSpace _ => some isOpen
      | _ => if isOpen then none else some false

theorem runOpen?_cons_eq (n : Node) (before : List Node) :
    runOpen? (n :: before) = (runOpen? before).bind fun isOpen =>
      match n.content with
      | .includeStep step => if isOpen && step.isFirst then none else some !step.isLast
      | .whiteSpace _ => some isOpen
      | _ => if isOpen then none else some false :=
  rfl

namespace Node

/-! ### Nodes below a node -/

theorem mem_parts {n part : Node} :
    part ∈ n.parts ↔ part ∈ n.types ∨ part ∈ n.heads ∨ part ∈ n.children := by
  rw [parts, List.mem_append, List.mem_append, or_assoc]

/-- `m` is `n` or stands somewhere below it. -/
def Reaches (n m : Node) : Prop := Relation.ReflTransGen (fun n part => part ∈ n.parts) n m

/-- A property of a node and of all nodes below it. -/
def Everywhere (P : Node → Prop) (n : Node) : Prop := ∀ m, n.Reaches m → P m

variable {P Q : Node → Prop} {n : Node}

theorem everywhere_iff : n.Everywhere P ↔ P n ∧ ∀ part ∈ n.parts, part.Everywhere P := by
  constructor
  · exact fun h => ⟨h n .refl, fun part hpart m hm => h m (.head hpart hm)⟩
  · rintro ⟨hn, hparts⟩ m hm
    obtain rfl | ⟨part, hpart, hbelow⟩ := Relation.ReflTransGen.cases_head hm
    · exact hn
    · exact hparts part hpart m hbelow

namespace Everywhere

theorem here (h : n.Everywhere P) : P n := h n .refl

theorem part (h : n.Everywhere P) {part : Node} (hpart : part ∈ n.parts) : part.Everywhere P :=
  (everywhere_iff.1 h).2 part hpart

theorem child (h : n.Everywhere P) {child : Node} (hchild : child ∈ n.children) :
    child.Everywhere P :=
  h.part (mem_parts.2 (.inr (.inr hchild)))

theorem head (h : n.Everywhere P) {head : Node} (hhead : head ∈ n.heads) : head.Everywhere P :=
  h.part (mem_parts.2 (.inr (.inl hhead)))

theorem type (h : n.Everywhere P) {type : Node} (htype : type ∈ n.types) : type.Everywhere P :=
  h.part (mem_parts.2 (.inl htype))

end Everywhere

mutual
/-- Whether a test holds of a node and of all nodes below it. -/
def all (p : Node → Bool) : Node → Bool
  | .node content flags types heads children =>
    p (.node content flags types heads children) && allOf p types && allOf p heads &&
      allOf p children

/-- Whether a test holds of some nodes and of all nodes below them. -/
def allOf (p : Node → Bool) : List Node → Bool
  | [] => true
  | n :: rest => n.all p && allOf p rest
end

theorem allOf_iff {p : Node → Bool} {nodes : List Node} :
    allOf p nodes ↔ ∀ n ∈ nodes, n.all p := by
  induction nodes with
  | nil => simp [allOf]
  | cons n rest ih => simp [allOf, ih]

theorem sizeOf_part_lt {part : Node} (h : part ∈ n.parts) : sizeOf part < sizeOf n := by
  obtain ⟨content, flags, types, heads, children⟩ := n
  rw [node.sizeOf_spec]
  rcases mem_parts.1 h with h | h | h <;> have := List.sizeOf_lt_of_mem h <;>
    simp only [Node.types, Node.heads, Node.children] at this <;> omega

/-- Induction on a node: its parts come first. -/
theorem part_induct (node : ∀ n : Node, (∀ part ∈ n.parts, P part) → P n) (n : Node) : P n :=
  node n fun part hpart =>
    have := sizeOf_part_lt hpart
    part_induct node part
termination_by sizeOf n

theorem all_iff {p : Node → Bool} (n : Node) : n.all p ↔ n.Everywhere (p ·) := by
  induction n using part_induct with
  | node n ih =>
      have hparts : (∀ part ∈ n.parts, part.all p) ↔ ∀ part ∈ n.parts, part.Everywhere (p ·) :=
        forall₂_congr ih
      rw [everywhere_iff, ← hparts]
      obtain ⟨content, flags, types, heads, children⟩ := n
      simp only [all, Bool.and_eq_true, allOf_iff, parts, List.forall_mem_append, and_assoc]
      rfl

instance [DecidablePred P] (n : Node) : Decidable (n.Everywhere P) :=
  decidable_of_iff (n.all (P ·)) (by simp [all_iff])

/-! ### Grammar -/

/-- Nowhere in the tree is an internal block. -/
def InternalFree (n : Node) : Prop := n.Everywhere fun m => m.kind ≠ .internal

/-- A node keeps to the grammar. -/
structure Conforms (n : Node) : Prop where
  children : ∀ child ∈ n.children, n.kind.lists child.kind
  heads : ∀ head ∈ n.heads, n.kind.heads head.kind
  types : ∀ type ∈ n.types, n.kind = .paramList ∧ type.kind.isName
  filled : n.kind.isFilled → n.children ≠ []
  internal : n.kind = .internal → ∀ part ∈ n.parts, part.InternalFree

/-- A node as the parser makes it: it keeps to the grammar, names a symbol that is known, ends
every run of include steps, and has its cells placed if it is a table. -/
structure Proper (n : Node) : Prop extends Conforms n where
  symbol : ∀ name, n.content = .symbol name → Symbol.isKnown name
  runs : runOpen? n.children.reverse = some false
  cells : n.kind = .table → ∀ row ∈ n.children, ∀ cell ∈ row.children, cell.content.isPlaced

/-- Neither paragraphs nor include steps stand in front of children. -/
theorem Conforms.head_kind {n head : Node} (h : n.Conforms) (hhead : head ∈ n.heads) :
    head.kind ≠ .paragraph ∧ head.kind ≠ .includeStep := by
  have hheads := h.heads head hhead
  constructor
  all_goals
    intro hkind
    rw [hkind] at hheads
    generalize n.kind = kind at hheads
    cases kind <;> cases hheads

/-- Only paragraphs list include steps. -/
theorem Conforms.child_kind {n child : Node} (h : n.Conforms) (hchild : child ∈ n.children)
    (hparagraph : n.kind ≠ .paragraph) : child.kind ≠ .includeStep := by
  intro hstep
  have hlists := h.children child hchild
  rw [hstep] at hlists
  generalize n.kind = kind at hlists hparagraph
  cases kind <;> first
    | exact hparagraph rfl
    | cases hlists

theorem Conforms.parts_eq_nil {n : Node} (h : n.Conforms) (hn : n.kind.isBare) :
    n.parts = [] := by
  obtain ⟨htypes, hheads, hlists⟩ : n.kind ≠ .paramList ∧
      (∀ head, n.kind.heads head = false) ∧ ∀ below, n.kind.lists below = false := by
    generalize n.kind = kind at hn
    cases kind <;> first
      | (cases hn; done)
      | exact ⟨by rintro ⟨⟩, fun _ => rfl, fun _ => rfl⟩
  refine List.eq_nil_iff_forall_not_mem.2 fun part hpart => ?_
  rcases mem_parts.1 hpart with htype | hhead | hchild
  · exact htypes (h.types part htype).1
  · exact Bool.eq_false_iff.1 (hheads part.kind) (h.heads part hhead)
  · exact Bool.eq_false_iff.1 (hlists part.kind) (h.children part hchild)

/-! ### Cells -/

/-- What never stands in front of children is listed among them. -/
theorem Conforms.mem_children {n part : Node} (h : n.Conforms) (hpart : part ∈ n.parts)
    (hhead : ∀ kind : Kind, kind.heads part.kind = false) : part ∈ n.children := by
  rcases mem_parts.1 hpart with htype | hname | hchild
  · have hname := (h.types part htype).2
    exact absurd hname (Bool.eq_false_iff.1 (hhead .paramList))
  · exact absurd (h.heads part hname) (Bool.eq_false_iff.1 (hhead n.kind))
  · exact hchild

theorem Conforms.row {n row : Node} (h : n.Conforms) (hrow : row ∈ n.parts)
    (hkind : row.kind = .row) : n.kind = .table ∧ row ∈ n.children := by
  have hchild := h.mem_children hrow fun kind => by rw [hkind]; cases kind <;> rfl
  have hlists := h.children row hchild
  rw [hkind] at hlists
  refine ⟨?_, hchild⟩
  generalize n.kind = kind at hlists
  cases kind <;> first
    | rfl
    | cases hlists

theorem Conforms.cell {n cell : Node} (h : n.Conforms) (hcell : cell ∈ n.parts)
    (hkind : cell.kind = .cell) : n.kind = .row ∧ cell ∈ n.children := by
  have hchild := h.mem_children hcell fun kind => by rw [hkind]; cases kind <;> rfl
  have hlists := h.children cell hchild
  rw [hkind] at hlists
  refine ⟨?_, hchild⟩
  generalize n.kind = kind at hlists
  cases kind <;> first
    | rfl
    | cases hlists

end Node

end DocMarkup
