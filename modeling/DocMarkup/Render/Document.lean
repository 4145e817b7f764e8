import DocMarkup.Render.Branch

/-!
Rendering of document trees.
-/

namespace DocMarkup.Rendering

mutual
/-- Writes a tree that stands at the beginning of a way. -/
def node (context : RenderContext) (way : Way) (r : Rendering) : Node → Rendering
  | .node content flags types heads children =>
    if !content.kind.isComposite then r.leaf context way content
    else
      let whole := Node.node content flags types heads children
      let siblings := children.map Node.content
      let place (index : Option Nat) : Way := { above := content, siblings, index } :: way
      let r := r.enter context way whole
      -- the names of a parameter list have been written with the beginning of its row
      let r :=
        if content.kind == .paramList then r else nodes context (fun _ => place none) 0 r heads
      let r := nodes context (fun index => place (some index)) 0 r children
      r.leave context way whole

/-- Writes some trees, each at the beginning of its own way. -/
def nodes (context : RenderContext) (way : Nat → Way) (index : Nat) (r : Rendering) :
    List Node → Rendering
  | [] => r
  | n :: rest => nodes context way (index + 1) (node context (way index) r n) rest
end

/-- The problem of a tree that hides more than it shows again. -/
def unbalanced : Problem := .brokenInvariant (units "Hidden output regions are not balanced")

/-- A rendering with nothing written yet.  `relPath` leads from the page to the root of the
output. -/
def start (context : RenderContext) (relPath : Text) (diagramCounts : DiagramCounts) : Rendering
    where
  page :=
    { options :=
        { fileExtension := context.settings.fileExtension
          relPath
          tabSize := context.settings.tabSize
          externalInWindow := context.settings.externalInWindow
          tagFiles := context.settings.tagFiles } }
  diagramCounts := diagramCounts

/-- The rendering of a tree. -/
def document (context : RenderContext) (relPath : Text) (diagramCounts : DiagramCounts)
    (way : Way) (n : Node) : Rendering :=
  node context way (start context relPath diagramCounts) n

/-- The page, or the problem that keeps it back. -/
def html (r : Rendering) : Except Problem Text :=
  if r.page.hidden then .error unbalanced else .ok r.page.contents

/-- The page if there is one, and all problems in order with the one that keeps the page back. -/
def deliver (context : RenderContext) (r : Rendering) :
    Except Problem Text → Option Text × List Diagnostic
  | .ok html => (some html, r.diagnostics.reverse)
  | .error problem => (none, (r.report context problem none).diagnostics.reverse)

end DocMarkup.Rendering
