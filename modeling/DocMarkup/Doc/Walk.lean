import DocMarkup.Doc.Node

/-!
Walks over a document tree, from the top down and in document order.
-/

namespace DocMarkup.Node

/-- How a walk goes on behind a node. -/
inductive Verdict where
  | proceed
  /-- Nothing below the node is walked. -/
  | skip
  /-- The walk ends. -/
  | stop
  deriving DecidableEq, Repr, Inhabited

mutual
/-- The kinds met on a walk, each with the kind of the node above, and whether the walk came to its
end. -/
def walk (verdict : Kind → Verdict) (above : Option Kind) :
    Node → List (Kind × Option Kind) × Bool
  | .node content _ types heads children =>
    let here := (content.kind, above)
    match verdict content.kind with
    | .stop => ([here], false)
    | .skip => ([here], true)
    | .proceed =>
      let (inTypes, more) := walkAll verdict content.kind types
      if !more then (here :: inTypes, false)
      else
        let (inHeads, more) := walkAll verdict content.kind heads
        if !more then (here :: inTypes ++ inHeads, false)
        else
          let (inChildren, more) := walkAll verdict content.kind children
          (here :: inTypes ++ inHeads ++ inChildren, more)

/-- The walk over some nodes below one of the given kind. -/
def walkAll (verdict : Kind → Verdict) (above : Kind) :
    List Node → List (Kind × Option Kind) × Bool
  | [] => ([], true)
  | n :: rest =>
    let (here, more) := walk verdict (some above) n
    if !more then (here, false)
    else
      let (later, more) := walkAll verdict above rest
      (here ++ later, more)
end

/-- What a visitor meets: a leaf, the beginning of a composite node, or its end. -/
inductive Visit where
  | leaf (kind : Kind)
  | enter (kind : Kind)
  | leave (kind : Kind)
  deriving DecidableEq, Repr, Inhabited

mutual
/-- The visits a backend gets.  Titles and captions come before the children; the names and types
of a parameter list are left to the visit of the list. -/
def visits : Node → List Visit
  | .node content _ _ heads children =>
    if !content.kind.isComposite then [.leaf content.kind]
    else
      let before := if content.kind == .paramList then [] else visitsOf heads
      .enter content.kind :: (before ++ visitsOf children ++ [.leave content.kind])

def visitsOf : List Node → List Visit
  | [] => []
  | n :: rest => visits n ++ visitsOf rest
end

end DocMarkup.Node
