import DocMarkup.Diagnostic
import DocMarkup.Doc.Balance
import DocMarkup.Doc.Edit
import DocMarkup.Doc.Grid
import DocMarkup.Doc.Walk
import DocMarkup.RawValue

/-!
Trees whose nodes also know the node above them.  A node is known by its number; it lists the nodes
below it and points to the one above.  Operations may leave the two at odds, so a tree is checked
before it is used: every node must point to the node that lists it.
-/

namespace DocMarkup

/-- A node with the numbers of the nodes around it. -/
structure LinkedNode where
  content : Content
  flags : NodeFlags := {}
  /-- Values left at the node under names that its content has no field for. -/
  notes : List (Text × RawValue) := []
  /-- The node this one points to as the one above it. -/
  above : Option Nat := none
  types : List Nat := []
  heads : List Nat := []
  children : List Nat := []
  deriving Inhabited

/-- The nodes below in document order. -/
def LinkedNode.parts (n : LinkedNode) : List Nat := n.types ++ n.heads ++ n.children

/-- The node with a field changed, if it has the field. -/
def LinkedNode.edit? (n : LinkedNode) : Edit → Option LinkedNode
  | .flags flags => some { n with flags }
  | edit => (n.content.edit? edit).map fun content => { n with content }

/-- What can be wrong with the links of a tree. -/
inductive TreeFault where
  /-- A node made for one node was to be listed by another. -/
  | misplaced (kind : Kind)
  /-- A node points to another node than the one that lists it. -/
  | astray (kind listedBy : Kind)
  /-- A table has been placed, but one of its cells has not. -/
  | unplacedCell
  deriving DecidableEq, Repr, Inhabited

def TreeFault.message : TreeFault → Text
  | misplaced kind => units (kind.name ++ " node appended to a parent it was not created for")
  | astray kind listedBy =>
    units (kind.name ++ " node is listed by " ++ listedBy.name ++ " but points to another parent")
  | unplacedCell => units "Table cell has a negative grid index"

/-- The problem a fault is reported as. -/
def TreeFault.problem (fault : TreeFault) : Problem := .brokenInvariant fault.message

/-- Nodes by number.  Node zero is the root of the tree that was linked. -/
structure LinkedTree where
  nodes : Array LinkedNode
  deriving Inhabited

namespace LinkedTree

/-! ### Linking -/

mutual
/-- The nodes of a tree whose root gets the number `id`, in the order of their numbers.  Every node
comes before the nodes below it. -/
def link (above : Option Nat) (id : Nat) : Node → List LinkedNode
  | .node content flags types heads children =>
    let (types, typeNodes) := linkAll id (id + 1) types
    let (heads, headNodes) := linkAll id (id + 1 + typeNodes.length) heads
    let (children, childNodes) :=
      linkAll id (id + 1 + typeNodes.length + headNodes.length) children
    { content, flags, above, types, heads, children } :: (typeNodes ++ headNodes ++ childNodes)

/-- The numbers of some trees below one node, the first of them `id`, and their nodes. -/
def linkAll (above id : Nat) : List Node → List Nat × List LinkedNode
  | [] => ([], [])
  | n :: rest =>
    let here := link (some above) id n
    let (ids, later) := linkAll above (id + here.length) rest
    (id :: ids, here ++ later)
end

def ofNode (n : Node) : LinkedTree := ⟨(link none 0 n).toArray⟩

def size (t : LinkedTree) : Nat := t.nodes.size

def get? (t : LinkedTree) (id : Nat) : Option LinkedNode := t.nodes[id]?

def content? (t : LinkedTree) (id : Nat) : Option Content := (t.get? id).map (·.content)

def above? (t : LinkedTree) (id : Nat) : Option Nat := (t.get? id).bind (·.above)

def notes (t : LinkedTree) (id : Nat) : List (Text × RawValue) :=
  ((t.get? id).map (·.notes)).getD []

def children (t : LinkedTree) (id : Nat) : List Nat := ((t.get? id).map (·.children)).getD []

def contents (t : LinkedTree) (ids : List Nat) : List Content := ids.filterMap t.content?

/-- The tree that a node is listed as; no path down a tree is longer than the number of nodes. -/
def toNodeWithin (t : LinkedTree) : Nat → Nat → Node
  | 0, _ => default
  | depth + 1, id =>
    match t.get? id with
    | none => default
    | some n =>
      .node n.content n.flags (n.types.map (t.toNodeWithin depth))
        (n.heads.map (t.toNodeWithin depth)) (n.children.map (t.toNodeWithin depth))

def toNode (t : LinkedTree) (id : Nat) : Node := t.toNodeWithin t.size id

/-! ### Looking around -/

/-- A step down a tree. -/
inductive Hop where
  | child (index : Nat)
  /-- A title or caption, or the name of a parameter. -/
  | head (index : Nat)
  | type (index : Nat)
  deriving DecidableEq, Repr, Inhabited

/-- The node at the end of a path. -/
def follow? (t : LinkedTree) (id : Nat) : List Hop → Option Nat
  | [] => some id
  | hop :: rest =>
    match t.get? id with
    | none => none
    | some n =>
      let next? :=
        match hop with
        | .child index => n.children[index]?
        | .head index => n.heads[index]?
        | .type index => n.types[index]?
      match next? with
      | none => none
      | some next => t.follow? next rest

def belowWithin (t : LinkedTree) : Nat → Nat → List Nat
  | 0, _ => []
  | depth + 1, id =>
    id :: (((t.get? id).map LinkedNode.parts).getD []).flatMap (t.belowWithin depth)

/-- A node and all nodes below it in document order. -/
def below (t : LinkedTree) (id : Nat) : List Nat := t.belowWithin t.size id

/-- The nodes of one kind among a node and those below it. -/
def findAll (t : LinkedTree) (id : Nat) (kind : Kind) : List Nat :=
  (t.below id).filter fun below => (t.content? below).any (·.kind == kind)

def ancestorsWithin (t : LinkedTree) : Nat → Nat → List Nat
  | 0, _ => []
  | steps + 1, id =>
    match t.above? id with
    | none => []
    | some above => above :: t.ancestorsWithin steps above

/-- The nodes a node points to, from the nearest on. -/
def ancestors (t : LinkedTree) (id : Nat) : List Nat := t.ancestorsWithin t.size id

/-- The index of a node among the children of the one it points to. -/
def index? (t : LinkedTree) (id : Nat) : Option Nat :=
  match t.above? id with
  | none => none
  | some above => (t.children above).idxOf? id

/-- The place of a node below the one it points to. -/
def place? (t : LinkedTree) (id : Nat) : Option Place :=
  match t.above? id with
  | none => none
  | some above =>
    (t.content? above).map fun content =>
      { above := content, siblings := t.contents (t.children above), index := t.index? id }

/-- The way from a node up, along the nodes it and its ancestors point to. -/
def way (t : LinkedTree) (id : Nat) : Way := (id :: t.ancestors id).filterMap t.place?

/-! ### Checking -/

/-- Whether some cell of a placed table has no place. -/
def hasUnplacedCell (t : LinkedTree) (n : LinkedNode) : Bool :=
  match n.content with
  | .table table =>
    !table.columns.isNegative && n.children.any fun row =>
      ((t.content? row).map Content.kind) == some .row &&
        (t.children row).any fun cell =>
          match t.content? cell with
          | some (.cell cell) => cell.row.isNegative || cell.column.isNegative
          | _ => false
  | _ => false

def faultWithin (t : LinkedTree) : Nat → Nat → Option TreeFault
  | 0, _ => none
  | depth + 1, id =>
    match t.get? id with
    | none => none
    | some n =>
      let check (ids : List Nat) : Option TreeFault :=
        ids.findSome? fun below =>
          match t.get? below with
          | none => none
          | some m =>
            if m.above != some id then some (.astray m.content.kind n.content.kind)
            else t.faultWithin depth below
      (check n.children).or <| (check n.heads).or <|
        (if t.hasUnplacedCell n then some .unplacedCell else none).or (check n.types)

/-- The first fault below a node: children are looked at before what stands in front of them. -/
def fault? (t : LinkedTree) (id : Nat) : Option TreeFault := t.faultWithin t.size id

/-! ### Changing -/

def modify (t : LinkedTree) (id : Nat) (f : LinkedNode → LinkedNode) : LinkedTree :=
  ⟨t.nodes.modify id f⟩

def setContent (t : LinkedTree) (id : Nat) (content : Content) : LinkedTree :=
  t.modify id fun n => { n with content }

/-- Gives a value to a field of a node.  The value can be meant as any of some edits; when none of
them fits the node, it is left there as a note under the name of the field. -/
def assign (t : LinkedTree) (id : Nat) (name : Text) (value : RawValue) (edits : List Edit) :
    LinkedTree :=
  t.modify id fun n =>
    let others := n.notes.filter (·.1 != name)
    match edits.findSome? n.edit? with
    | some edited => { edited with notes := others }
    | none => { n with notes := (name, value) :: others }

/-- Lets a node point to another one; the lists stay as they are. -/
def setAbove (t : LinkedTree) (id : Nat) (above : Option Nat) : LinkedTree :=
  t.modify id fun n => { n with above }

def setChildren (t : LinkedTree) (id : Nat) (children : List Nat) : LinkedTree :=
  t.modify id fun n => { n with children }

/-- Makes a node for `madeFor` and lists it last below `id`; the two must be the same. -/
def append (t : LinkedTree) (id madeFor : Nat) (content : Content) : Except TreeFault LinkedTree :=
  if madeFor != id then .error (.misplaced content.kind)
  else
    let made : LinkedNode := { content, above := some madeFor }
    let grown : LinkedTree := ⟨t.nodes.push made⟩
    .ok (grown.setChildren id (t.children id ++ [t.size]))

/-- Moves the children of one node below another, in front of its child at an index or behind
them all.  A negative index counts from the end. -/
def moveChildren (t : LinkedTree) (source target : Nat) (index : Option Int) : LinkedTree :=
  let moved := t.children source
  let t := moved.foldl (fun t id => t.setAbove id (some target)) t
  let t := t.setChildren source []
  let kept := t.children target
  let index :=
    match index with
    | none => kept.length
    | some index => (if index < 0 then kept.length + index else index).toNat
  t.setChildren target (kept.take index ++ moved ++ kept.drop index)

/-- Drops white space behind the last other child. -/
def trimChildren (t : LinkedTree) (id : Nat) : LinkedTree :=
  let isSpace (child : Nat) : Bool := (t.content? child).any Content.isSpace
  t.setChildren id ((t.children id).reverse.dropWhile isSpace).reverse

/-- Makes a copy of the tree below a node, notes and all, that points to `above`.  The nodes of the
copy are new, the first of them its root. -/
def copy (t : LinkedTree) (id : Nat) (above : Option Nat) : LinkedTree :=
  let copies := (link above t.size (t.toNode id)).zipWith
    (fun copy model => { copy with notes := t.notes model }) (t.below id)
  ⟨t.nodes ++ copies⟩

/-- Adds a copy of the tree below a node as the last child of another. -/
def copyInto (t : LinkedTree) (id target : Nat) : LinkedTree :=
  (t.copy id (some target)).setChildren target (t.children target ++ [t.size])

def setContents (t : LinkedTree) (contents : List (Nat × Content)) : LinkedTree :=
  contents.foldl (fun t (id, content) => t.setContent id content) t

def placeCells (t : LinkedTree) (id : Nat) : LinkedTree :=
  let placed := (t.toNode id).placeCells
  let rows := (t.children id).zip placed.children
  let cells := rows.flatMap fun (row, n) => (t.children row).zip (n.children.map Node.content)
  t.setContents ((id, placed.content) :: rows.map (fun (row, n) => (row, n.content)) ++ cells)

/-- Places the cells of a table unless that has been done. -/
def ensureCells (t : LinkedTree) (id : Nat) : LinkedTree :=
  match t.content? id with
  | some (.table table) => if table.columns.isNegative then t.placeCells id else t
  | _ => t

/-- Places the cells of all tables below a node that have not been placed. -/
def ensureAllCells (t : LinkedTree) (id : Nat) : LinkedTree := (t.below id).foldl ensureCells t

end LinkedTree

end DocMarkup
