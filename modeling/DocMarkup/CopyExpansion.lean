import DocMarkup.Diagnostic
import DocMarkup.Doc.Walk

/-!
Copies of other documentation.  A copy that is resolved gets the nodes of its target as children;
copies among these are resolved in turn.
-/

namespace DocMarkup

/-- Supplies the nodes of a target. -/
abbrev CopySource := Copy → Option (List Node)

namespace CopyExpansion

/-- How deep copies may lie in copies. -/
def maxDepth : Nat := 8

/-- What was done to some trees: how many copies were resolved, what the source was asked for, and
which copies failed. -/
structure Report where
  resolved : Nat := 0
  asked : List Copy := []
  problems : List (Problem × Text) := []
  deriving Inhabited

def Report.append (a b : Report) : Report where
  resolved := a.resolved + b.resolved
  asked := a.asked ++ b.asked
  problems := a.problems ++ b.problems

instance : Append Report := ⟨Report.append⟩

/-- What becomes of a copy: it is resolved already, it is refused, its target is not known, or it
gets these nodes. -/
inductive Answer where
  | already
  | refused
  | unknown
  | found (nodes : List Node)
  deriving Inhabited

/-- The answer to a copy.  `depth` is how many more copies may be entered, `active` holds the
targets of those entered. -/
def answer (source : CopySource) (depth : Nat) (active : List Text) (copy : Copy) : Answer :=
  if copy.resolved then .already
  else if active.contains copy.target || depth == 0 then .refused
  else
    match source copy with
    | none => .unknown
    | some nodes => .found nodes

mutual
/-- Resolves the copies in a tree. -/
def expand (source : CopySource) (depth : Nat) (active : List Text) : Node → Node × Report
  | .node content flags types heads children =>
    let inside (before : Report) (content : Content) : Node × Report :=
      let (types, a) := expandAll source depth active types
      let (heads, b) := expandAll source depth active heads
      let (children, c) := expandAll source depth active children
      (.node content flags types heads children, before ++ a ++ b ++ c)
    match content with
    | .copy copy =>
      match answer source depth active copy with
      | .already => inside {} content
      | .refused => inside { problems := [(.recursiveCopy copy.target, copy.target)] } content
      | .unknown =>
        inside
          { asked := [copy], problems := [(.copyNotFound copy.target, copy.target)] } content
      | .found nodes =>
        match depth with
        | 0 => inside {} content
        | depth + 1 =>
          let (copied, inner) := expandAll source depth (copy.target :: active) nodes
          let (n, outer) := inside {} (.copy { copy with resolved := true })
          (n.withChildren (n.children ++ copied),
            { resolved := 1, asked := [copy], problems := [] } ++ outer ++ inner)
    | content => inside {} content
termination_by n => (depth, sizeOf n)

def expandAll (source : CopySource) (depth : Nat) (active : List Text) :
    List Node → List Node × Report
  | [] => ([], {})
  | n :: rest =>
    let (n, a) := expand source depth active n
    let (rest, b) := expandAll source depth active rest
    (n :: rest, a ++ b)
termination_by ns => (depth, sizeOf ns)
end

/-- Resolves the copies in a tree, with a diagnostic for each that fails. -/
def ofTree (source : CopySource) (n : Node) (fileName : Text) :
    Node × Report × List Diagnostic :=
  let (n, report) := expand source maxDepth [] n
  (n, report, report.problems.map fun (problem, target) =>
    problem.toDiagnostic (some target) fileName 0 0 0)

end CopyExpansion

end DocMarkup
