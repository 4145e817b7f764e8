import DocMarkup.Doc.Content

/-!
Document trees.  Besides its children a node may hold nodes that stand before them: the title of a
section, the caption of a table, and the types and names of a parameter list.
-/

namespace DocMarkup

/-- How a node came about. -/
structure NodeFlags where
  /-- Made in recovery, not written in the comment. -/
  synthetic : Bool := false
  containsError : Bool := false
  /-- Made inside preformatted text. -/
  preformatted : Bool := false
  deriving DecidableEq, Repr, Inhabited

/-- A document tree.  `types` are the types of a parameter list, `heads` its names, or the title or
caption of a node that has one. -/
inductive Node where
  | node (content : Content) (flags : NodeFlags) (types heads children : List Node)
  deriving Inhabited

namespace Node

def content : Node → Content
  | .node content .. => content

def flags : Node → NodeFlags
  | .node _ flags .. => flags

def types : Node → List Node
  | .node _ _ types _ _ => types

def heads : Node → List Node
  | .node _ _ _ heads _ => heads

def children : Node → List Node
  | .node _ _ _ _ children => children

def kind (n : Node) : Kind := n.content.kind

/-- A node with nothing below it. -/
def leaf (content : Content) : Node := .node content {} [] [] []

def branch (content : Content) (children : List Node) : Node := .node content {} [] [] children

def withContent (n : Node) (content : Content) : Node :=
  .node content n.flags n.types n.heads n.children

def withFlags (n : Node) (flags : NodeFlags) : Node :=
  .node n.content flags n.types n.heads n.children

def withChildren (n : Node) (children : List Node) : Node :=
  .node n.content n.flags n.types n.heads children

def isKind (n : Node) (kind : Kind) : Bool := n.kind == kind

def isSynthetic (n : Node) : Bool := n.flags.synthetic

def asSynthetic (n : Node) : Node := n.withFlags { n.flags with synthetic := true }

def asPreformatted (n : Node) : Node := n.withFlags { n.flags with preformatted := true }

/-- The nodes one step below in document order: types, heads and children. -/
def parts (n : Node) : List Node := n.types ++ n.heads ++ n.children

end Node

/-! ### First and last -/

/-- Marks the first and the last of the nodes that `select` picks out; `mark` is told of each
whether it is first and whether it is last. -/
def markEnds (select : Node → Bool) (mark : Bool → Bool → Node → Node) (nodes : List Node) :
    List Node :=
  go true nodes
where
  go (first : Bool) : List Node → List Node
    | [] => []
    | n :: rest =>
      if select n then mark first (!rest.any select) n :: go false rest else n :: go first rest

/-- Marks the first and the last paragraph among the children of a container. -/
def markParagraphs (nodes : List Node) : List Node :=
  markEnds (·.isKind .paragraph)
    (fun isFirst isLast n =>
      match n.content with
      | .paragraph p => n.withContent (.paragraph { p with isFirst, isLast })
      | _ => n) nodes

/-- Marks the first and the last cell of a row. -/
def markCells (nodes : List Node) : List Node :=
  markEnds (·.isKind .cell)
    (fun isFirst isLast n =>
      match n.content with
      | .cell c => n.withContent (.cell { c with isFirst, isLast })
      | _ => n) nodes

/-- Marks the first and the last list of a parameter section. -/
def markParamLists (nodes : List Node) : List Node :=
  markEnds (·.isKind .paramList)
    (fun isFirst isLast n =>
      match n.content with
      | .paramList l => n.withContent (.paramList { l with isFirst, isLast })
      | _ => n) nodes

end DocMarkup
