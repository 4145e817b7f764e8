import DocMarkup.Proofs.CopyExpansion

/-!
Expanding copies once more.  A copy may be refused where it stands in its target, and nothing in the
tree tells afterwards.  The next expansion starts with no copy entered, so it resolves every copy
that the source has an answer for; it leaves the tree alone exactly when no such copy is left.
-/

namespace DocMarkup.CopyExpansion

open Node

variable {source : CopySource} {depth : Nat} {active : List Text}

/-- A content stays as it is, with what is reported of it: it is no copy to be resolved, or a copy
whose target is not known, or a copy that is refused and reported as such. -/
structure Stays (source : CopySource) (depth : Nat) (active : List Text) (content : Content)
    (report : Report) : Prop where
  resolved : report.resolved = 0
  pending : ∀ copy, content.pending? = some copy → source copy = none ∨
    (copy.target ∈ active ∨ depth = 0) ∧
      (.recursiveCopy copy.target, copy.target) ∈ report.problems

theorem Keeps.stays {content : Content} {report : Report}
    (h : Keeps source depth active content report) : Stays source depth active content report := by
  cases h with
  | whole hcontent => exact ⟨rfl, by simp [hcontent]⟩
  | refused hcopy hrefused =>
      refine ⟨rfl, fun pending hpending => .inr ?_⟩
      obtain ⟨⟨⟩, -⟩ := Content.pending?_eq_some.1 hpending
      exact ⟨hrefused, List.mem_singleton.2 rfl⟩
  | unknown hcopy hsource =>
      refine ⟨rfl, fun pending hpending => .inl ?_⟩
      obtain ⟨⟨⟩, -⟩ := Content.pending?_eq_some.1 hpending
      exact hsource

theorem pendingCopiesOf_append (a b : List Node) :
    pendingCopiesOf (a ++ b) = pendingCopiesOf a ++ pendingCopiesOf b := by
  induction a with
  | nil => rfl
  | cons n rest ih => rw [List.cons_append, pendingCopiesOf, ih, pendingCopiesOf, List.append_assoc]

/-! ### What is left -/

/-- A copy that an expansion leaves has no target that is known, or has been reported as
recursive. -/
theorem pending_of_expand (n : Node) :
    ∀ copy ∈ (expand source depth active n).1.pendingCopies, source copy = none ∨
      (.recursiveCopy copy.target, copy.target) ∈ (expand source depth active n).2.problems := by
  refine expand_cases
    (P := fun _ _ _ n' report => ∀ copy ∈ n'.pendingCopies, source copy = none ∨
      (.recursiveCopy copy.target, copy.target) ∈ report.problems)
    (Q := fun _ _ _ nodes' report => ∀ copy ∈ pendingCopiesOf nodes', source copy = none ∨
      (.recursiveCopy copy.target, copy.target) ∈ report.problems)
    ?kept ?found nofun ?cons n
  case kept =>
    intro depth active content flags types heads children types' heads' children' report a b c
      hkeeps htypes hheads hchildren copy hcopy
    simp only [pendingCopies, List.mem_append, Option.mem_toList] at hcopy
    simp only [Report.problems_append, List.mem_append]
    rcases hcopy with ((hcopy | hcopy) | hcopy) | hcopy
    · exact (hkeeps.stays.pending copy hcopy).imp_right fun h => .inl (.inl (.inl h.2))
    · exact (htypes copy hcopy).imp_right fun h => .inl (.inl (.inr h))
    · exact (hheads copy hcopy).imp_right fun h => .inl (.inr h)
    · exact (hchildren copy hcopy).imp_right .inr
  case found =>
    intro depth active copied flags types heads children types' heads' children' nodes nodes'
      a b c inner _ _ _ htypes hheads hchildren hinner copy hcopy
    have hresolved : (Content.copy { copied with resolved := true }).pending? = none := rfl
    simp only [pendingCopies, hresolved, pendingCopiesOf_append, List.mem_append,
      Option.toList_none, List.nil_append] at hcopy
    simp only [Report.problems_append, List.mem_append]
    rcases hcopy with (hcopy | hcopy) | hcopy | hcopy
    · exact (htypes copy hcopy).imp_right fun h => .inl (.inr (.inl (.inl h)))
    · exact (hheads copy hcopy).imp_right fun h => .inl (.inr (.inl (.inr h)))
    · exact (hchildren copy hcopy).imp_right fun h => .inl (.inr (.inr h))
    · exact (hinner copy hcopy).imp_right .inr
  case cons =>
    intro depth active n n' nodes nodes' a b hhere hrest copy hcopy
    rw [Report.problems_append, List.mem_append]
    rcases List.mem_append.1 hcopy with hcopy | hcopy
    · exact (hhere copy hcopy).imp_right .inl
    · exact (hrest copy hcopy).imp_right .inr

/-! ### What is resolved -/

/-- Nothing changes exactly when nothing is resolved. -/
theorem expand_eq_self_iff (n : Node) :
    (expand source depth active n).1 = n ↔ (expand source depth active n).2.resolved = 0 := by
  refine expand_cases
    (P := fun _ _ n n' report => n' = n ↔ report.resolved = 0)
    (Q := fun _ _ nodes nodes' report => nodes' = nodes ↔ report.resolved = 0)
    ?kept ?found (by simp) ?cons n
  case kept =>
    intro depth active content flags types heads children types' heads' children' report a b c
      hkeeps htypes hheads hchildren
    simp [htypes, hheads, hchildren, hkeeps.stays.resolved, and_assoc]
  case found =>
    intro depth active copy flags types heads children types' heads' children' nodes copied
      a b c inner hcopy _ _ _ _ _ _
    have hchanged : Content.copy { copy with resolved := true } ≠ .copy copy := by
      intro h
      have hresolved : true = copy.resolved := congrArg Copy.resolved (Content.copy.inj h)
      rw [hcopy] at hresolved
      cases hresolved
    refine iff_of_false (fun h => hchanged (Node.node.inj h).1) ?_
    simp only [Report.resolved_append]
    omega
  case cons =>
    intro depth active n n' nodes nodes' a b hhere hrest
    simp [hhere, hrest]

/-- Where no copy has an answer, none is resolved. -/
theorem resolved_of_unanswered (n : Node) (hn : ∀ copy ∈ n.pendingCopies, source copy = none) :
    (expand source depth active n).2.resolved = 0 := by
  revert hn
  refine expand_cases
    (P := fun _ _ n _ report =>
      (∀ copy ∈ n.pendingCopies, source copy = none) → report.resolved = 0)
    (Q := fun _ _ nodes _ report =>
      (∀ copy ∈ pendingCopiesOf nodes, source copy = none) → report.resolved = 0)
    ?kept ?found (fun _ => rfl) ?cons n
  case kept =>
    intro depth active content flags types heads children types' heads' children' report a b c
      hkeeps htypes hheads hchildren hn
    simp only [pendingCopies, List.forall_mem_append] at hn
    obtain ⟨⟨⟨-, hntypes⟩, hnheads⟩, hnchildren⟩ := hn
    simp [hkeeps.stays.resolved, htypes hntypes, hheads hnheads, hchildren hnchildren]
  case found =>
    intro depth active copy flags types heads children types' heads' children' nodes copied
      a b c inner hcopy _ hnodes _ _ _ _ hn
    have hpending := Content.pending?_eq_some.2 ⟨rfl, hcopy⟩
    have hnone := hn copy (by simp [pendingCopies, hpending])
    rw [hnodes] at hnone
    cases hnone
  case cons =>
    intro depth active n n' nodes nodes' a b hhere hrest hn
    obtain ⟨hnhere, hnrest⟩ := List.forall_mem_append.1 hn
    simp [hhere hnhere, hrest hnrest]

/-- With no copy entered yet, every copy that has an answer is resolved. -/
theorem answered_le_resolved (hdepth : depth ≠ 0) (n : Node) :
    n.pendingCopies.countP (fun copy => (source copy).isSome) ≤
      (expand source depth [] n).2.resolved := by
  refine expand_cases
    (P := fun depth active n _ report => depth ≠ 0 → active = [] →
      n.pendingCopies.countP (fun copy => (source copy).isSome) ≤ report.resolved)
    (Q := fun depth active nodes _ report => depth ≠ 0 → active = [] →
      (pendingCopiesOf nodes).countP (fun copy => (source copy).isSome) ≤ report.resolved)
    ?kept ?found (fun _ _ => Nat.zero_le _) ?cons n hdepth rfl
  case kept =>
    intro depth active content flags types heads children types' heads' children' report a b c
      hkeeps htypes hheads hchildren hdepth hactive
    -- with depth left and nothing active, a copy stays only if its target is not known
    have hhere : content.pending?.toList.countP (fun copy => (source copy).isSome) = 0 := by
      refine List.countP_eq_zero.2 fun copy hcopy => ?_
      have hpending := hkeeps.stays.pending copy (Option.mem_toList.1 hcopy)
      rcases hpending with hnone | ⟨hentered | hzero, -⟩
      · simp [hnone]
      · simp [hactive] at hentered
      · exact absurd hzero hdepth
    have htypes := htypes hdepth hactive
    have hheads := hheads hdepth hactive
    have hchildren := hchildren hdepth hactive
    simp only [pendingCopies, List.countP_append, Report.resolved_append]
    omega
  case found =>
    intro depth active copy flags types heads children types' heads' children' nodes copied
      a b c inner _ _ _ htypes hheads hchildren _ hdepth hactive
    have hhere :
        (Content.copy copy).pending?.toList.countP (fun copy => (source copy).isSome) ≤ 1 :=
      Nat.le_trans List.countP_le_length Option.length_toList_le
    have htypes := htypes hdepth hactive
    have hheads := hheads hdepth hactive
    have hchildren := hchildren hdepth hactive
    simp only [pendingCopies, List.countP_append, Report.resolved_append]
    omega
  case cons =>
    intro depth active n n' nodes nodes' a b hhere hrest hdepth hactive
    have hhere := hhere hdepth hactive
    have hrest := hrest hdepth hactive
    simp only [pendingCopiesOf, List.countP_append, Report.resolved_append]
    omega

/-! ### Two expansions -/

/-- A second expansion resolves no less than the copies left by the first that the source has an
answer for.  It changes nothing exactly when there is none, and then it resolves nothing.  So it
changes nothing when the first has refused no copy: all that it leaves are copies it has refused,
and those whose target is not known. -/
theorem ofTree_of_ofTree (source : CopySource) (n : Node) (fileName : Text) :
    let (once, first, _) := ofTree source n fileName
    let (twice, second, _) := ofTree source once fileName
    (twice = once ↔ second.resolved = 0) ∧
    (second.resolved = 0 ↔ ∀ copy ∈ once.pendingCopies, source copy = none) ∧
    once.pendingCopies.countP (fun copy => (source copy).isSome) ≤ second.resolved ∧
    (∀ copy ∈ once.pendingCopies, source copy = none ∨
      (.recursiveCopy copy.target, copy.target) ∈ first.problems) ∧
    ((∀ target, (.recursiveCopy target, target) ∉ first.problems) → twice = once) := by
  let once := (expand source maxDepth [] n).1
  have hleft : ∀ copy ∈ once.pendingCopies, source copy = none ∨
      (.recursiveCopy copy.target, copy.target) ∈ (expand source maxDepth [] n).2.problems :=
    pending_of_expand n
  have hsame : (expand source maxDepth [] once).1 = once ↔
      (expand source maxDepth [] once).2.resolved = 0 := expand_eq_self_iff once
  have hcount : once.pendingCopies.countP (fun copy => (source copy).isSome) ≤
      (expand source maxDepth [] once).2.resolved := answered_le_resolved (by decide) once
  refine ⟨hsame, ⟨fun hzero copy hcopy => ?_, resolved_of_unanswered once⟩, hcount, hleft,
    fun hnone => ?_⟩
  · have hanswered := List.countP_eq_zero.1 (Nat.le_zero.1 (hzero ▸ hcount)) copy hcopy
    simpa using hanswered
  · exact hsame.2 (resolved_of_unanswered once fun copy hcopy =>
      (hleft copy hcopy).resolve_right (hnone copy.target))

/-- The documentation of `X` copies itself. -/
def itself : CopySource := fun copy =>
  if copy.target = units "X" then some [copyOf (units "X")] else none

/-- Each expansion goes one copy further: the one that the first has cut is resolved by the
second. -/
theorem ofTree_expands_itself_again :
    let n := copyOf (units "X")
    let entered (inside : Node) : Node := .branch (.paragraph {})
      [.branch (.copy { target := units "X", brief := true, details := true, resolved := true })
        [inside]]
    let (once, first, _) := ofTree itself n []
    let (twice, second, _) := ofTree itself once []
    once = entered n ∧ first.problems = [(.recursiveCopy (units "X"), units "X")] ∧
    twice = entered (entered n) ∧ second.resolved = 1 := by
  simp [ofTree, maxDepth, expand, expandAll, answer, itself, copyOf, Node.branch, Node.leaf,
    Node.withChildren, Node.content, Node.flags, Node.types, Node.heads, Node.children]

end DocMarkup.CopyExpansion
