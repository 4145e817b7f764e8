import DocMarkup.Proofs.Compiler
import DocMarkup.Proofs.Render.DiagramNames

/-!
The diagrams of all comments that one compiler is given.
-/

namespace DocMarkup.Compiler

/-- Compiles some comments, one after the other. -/
def compileAll (c : Compiler) : List Comment → List Result × Compiler
  | [] => ([], c)
  | comment :: rest =>
    let (result, c) := c.compile comment
    let (results, c) := c.compileAll rest
    (result :: results, c)

/-- The diagrams asked for, in order. -/
def diagrams (results : List Result) : List DiagramRequest :=
  results.flatMap (·.rendering.diagrams.reverse)

theorem diagrams_cons (result : Result) (results : List Result) :
    diagrams (result :: results) = result.rendering.diagrams.reverse ++ diagrams results :=
  List.flatMap_cons

theorem compileAll_cons (c : Compiler) (comment : Comment) (rest : List Comment) :
    c.compileAll (comment :: rest) =
      ((c.compile comment).1 :: ((c.compile comment).2.compileAll rest).1,
        ((c.compile comment).2.compileAll rest).2) := by
  rw [compileAll]

theorem asked_compile (c : Compiler) (comment : Comment) :
    Asked.Steps ⟨c.diagramCounts, []⟩
      ⟨(c.compile comment).2.diagramCounts, (c.compile comment).1.rendering.diagrams⟩ := by
  have hcounts : (c.compile comment).2.diagramCounts =
      (c.compile comment).1.rendering.diagramCounts := rfl
  obtain ⟨context, relPath, way, -, hrendering⟩ := c.exists_rendering_eq comment
  rw [hcounts, hrendering]
  exact Rendering.asked_node (r := .start context relPath c.diagramCounts)
    (c.parser.parse comment).1.root

theorem asked_compileAll (c : Compiler) (comments : List Comment) :
    Asked.Steps ⟨c.diagramCounts, []⟩
      ⟨(c.compileAll comments).2.diagramCounts, (diagrams (c.compileAll comments).1).reverse⟩ := by
  induction comments generalizing c with
  | nil => exact .refl
  | cons comment rest ih =>
      have hrest := (ih (c.compile comment).2).append (c.compile comment).1.rendering.diagrams
      rw [compileAll_cons, diagrams_cons, List.reverse_append, List.reverse_reverse]
      exact (c.asked_compile comment).trans hrest

/-- In a run of one compiler, over whatever comments, a diagram written in a comment shares its base
name with no other diagram.  Two diagrams that do share one are of the same kind and kept in files
whose names are the same behind the last slash and up to the first dot. -/
theorem compileAll_keeps_diagrams_apart (c : Compiler) (comments : List Comment) :
    (diagrams (c.compileAll comments).1).Pairwise fun q p =>
      q.baseName = p.baseName → q.kind = p.kind ∧
        ∃ f g, q.input = .file f ∧ p.input = .file g ∧ Path.stem f = Path.stem g := by
  have hstart : Asked.Apart ⟨c.diagramCounts, []⟩ := ⟨nofun, .nil⟩
  have hapart := (hstart.steps (c.asked_compileAll comments)).apart
  rw [List.pairwise_reverse] at hapart
  refine hapart.imp ?_
  intro q p hshared hname
  exact (hshared hname.symm).symm

/-- Files of two directories are drawn to one image. -/
theorem compileAll_shares_diagram_of_two_directories :
    let tools : RenderTools :=
      { drawDiagram := fun request => .ok (request.baseName ++ units ".png") }
    let comments : List Comment :=
      [{ text := units "\\dotfile a/x.dot" }, { text := units "\\dotfile b/x.dot" }]
    let requests := diagrams (({ tools } : Compiler).compileAll comments).1
    requests.map (fun q => (q.baseName, q.imageFormat, q.input)) =
        [(units "dot_x", .png, .file (units "a/x.dot")),
          (units "dot_x", .png, .file (units "b/x.dot"))] ∧
      ¬ requests.Pairwise fun q p =>
        q.baseName = p.baseName → q.imageFormat = p.imageFormat →
          q.kind = p.kind ∧ q.input = p.input := by
  decide +kernel

end DocMarkup.Compiler
