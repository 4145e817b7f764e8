import DocMarkup.Doc.Linked
import DocMarkup.Render.Document

/-!
Rendering of linked trees.  The links are checked first; tables that have not been placed are placed
for good.
-/

namespace DocMarkup.LinkedTree

/-- The rendering of the tree below a node, its page, and the tree after it, when that many diagrams
have been given names before. -/
def renderAfter (t : LinkedTree) (context : RenderContext) (relPath : Text)
    (diagramCounts : DiagramCounts) (id : Nat) : Rendering × Except Problem Text × LinkedTree :=
  match t.fault? id with
  | some fault => (Rendering.start context relPath diagramCounts, .error fault.problem, t)
  | none =>
    let r := Rendering.document context relPath diagramCounts (t.way id) (t.toNode id)
    (r, r.html, t.ensureAllCells id)

/-- The same before any diagram has a name. -/
def render (t : LinkedTree) (context : RenderContext) (relPath : Text) (id : Nat) :
    Rendering × Except Problem Text × LinkedTree :=
  t.renderAfter context relPath [] id

end DocMarkup.LinkedTree
