import DocMarkup.Doc.Walk
import DocMarkup.Proofs.Doc.Contents
import DocMarkup.Proofs.Doc.Faults

/-!
Copies of linked trees.  A copy is made of new nodes, one for each node that is copied and in the
same order, with the fields of that node and with links of its own.
-/

namespace DocMarkup.LinkedTree

variable {t : LinkedTree} {id : Nat}

/-! ### Nodes of a copy -/

section

variable (h : t.Ends id) (above : Option Nat)

include h

end

/-! ### Walks -/

/-- The kinds of some nodes. -/
def kinds (t : LinkedTree) (ids : List Nat) : List Kind := (t.contents ids).map Content.kind

end DocMarkup.LinkedTree
