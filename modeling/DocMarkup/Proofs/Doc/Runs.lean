import DocMarkup.Proofs.Doc.Marks

/-!
Runs of include steps.  Steps that follow one another, directly or across a single white space, form
a run; the first of them opens a fragment of code and the last one closes it.
-/

namespace DocMarkup

/-- A run of include steps goes on with these nodes: a step comes next, or a single white space and
then a step. -/
def runGoesOn : List Node → Bool
  | [] => false
  | n :: rest =>
    n.isKind .includeStep || n.isKind .whiteSpace && rest.head?.any (·.isKind .includeStep)

/-- A step follows a single white space at the start. -/
def startsSpaced : List Node → Bool
  | [] => false
  | n :: rest => n.isKind .whiteSpace && rest.head?.any (·.isKind .includeStep)

/-- A step is marked as the first of its run unless another one stands before it there or it follows
a single white space at the start, and as the last unless another one stands behind it. -/
structure IncludeStep.IsMarked (step : IncludeStep) (before after : List Node) : Prop where
  first : step.isFirst ↔ runGoesOn before.reverse = false ∧ before.map Node.kind ≠ [.whiteSpace]
  last : step.isLast ↔ runGoesOn after = false

/-- Every step among some nodes has its marks. -/
def MarksRuns (nodes : List Node) : Prop :=
  ∀ before n after, nodes = before ++ n :: after →
    ∀ step, n.content = .includeStep step → step.IsMarked before after

/-- Runs of steps are bracketed: the first step of a run is marked so, the last one is, none between
is either, and nothing but white space interrupts a run.  The flag tells whether a run is open in
front of the nodes. -/
inductive InRuns : Bool → List Node → Prop
  | nil : InRuns false []
  | step {isOpen : Bool} {n : Node} {rest : List Node} (step : IncludeStep)
      (hn : n.content = .includeStep step) (hfirst : step.isFirst = !isOpen)
      (h : InRuns (!step.isLast) rest) : InRuns isOpen (n :: rest)
  | space {isOpen : Bool} {n : Node} {rest : List Node} (hn : n.kind = .whiteSpace)
      (h : InRuns isOpen rest) : InRuns isOpen (n :: rest)
  | other {n : Node} {rest : List Node} (hstep : n.kind ≠ .includeStep)
      (hspace : n.kind ≠ .whiteSpace) (h : InRuns false rest) : InRuns false (n :: rest)

/-- Whether runs of steps are bracketed. -/
def areInRuns : Bool → List Node → Bool
  | isOpen, [] => !isOpen
  | isOpen, n :: rest =>
    match n.content with
    | .includeStep step => step.isFirst == !isOpen && areInRuns (!step.isLast) rest
    | .whiteSpace _ => areInRuns isOpen rest
    | _ => !isOpen && areInRuns false rest

theorem areInRuns_iff {isOpen : Bool} {nodes : List Node} :
    areInRuns isOpen nodes ↔ InRuns isOpen nodes := by
  constructor
  · intro h
    induction nodes generalizing isOpen with
    | nil =>
        obtain rfl : isOpen = false := by simpa [areInRuns] using h
        exact .nil
    | cons n rest ih =>
        unfold areInRuns at h
        split at h
        · next step hn =>
          obtain ⟨hfirst, hrest⟩ := Bool.and_eq_true_iff.1 h
          exact .step step hn (beq_iff_eq.1 hfirst) (ih hrest)
        · next units hn => exact .space (congrArg Content.kind hn) (ih h)
        · next hstep hspace =>
          obtain ⟨hclosed, hrest⟩ := Bool.and_eq_true_iff.1 h
          obtain rfl : isOpen = false := by simpa using hclosed
          refine .other ?_ ?_ (ih hrest)
          · intro hkind
            obtain ⟨step, hn⟩ := Node.exists_includeStep hkind
            exact hstep step hn
          · intro hkind
            unfold Node.kind at hkind
            cases hn : n.content <;> rw [hn] at hkind <;> first
              | exact hspace _ hn
              | cases hkind
  · intro h
    induction h with
    | nil => rfl
    | step step hn hfirst _ ih => simp [areInRuns, hn, hfirst, ih]
    | @space isOpen n rest hn _ ih =>
        unfold Node.kind at hn
        cases hcontent : n.content <;> rw [hcontent] at hn <;> first
          | (cases hn; done)
          | simpa [areInRuns, hcontent] using ih
    | @other n rest hstep hspace _ ih =>
        unfold Node.kind at hstep hspace
        cases hcontent : n.content <;> rw [hcontent] at hstep hspace <;> first
          | exact absurd rfl hstep
          | exact absurd rfl hspace
          | simpa [areInRuns, hcontent] using ih

instance (isOpen : Bool) (nodes : List Node) : Decidable (InRuns isOpen nodes) :=
  decidable_of_iff _ areInRuns_iff

namespace Node

/-! ### Nodes that are no steps -/

theorem marksRuns_of_no_step {nodes : List Node} (h : ∀ n ∈ nodes, n.kind ≠ .includeStep) :
    MarksRuns nodes := by
  intro before n after heq step hn
  refine absurd (congrArg Content.kind hn) (h n ?_)
  simp [heq]

theorem inRuns_of_no_step {nodes : List Node} (h : ∀ n ∈ nodes, n.kind ≠ .includeStep) :
    InRuns false nodes := by
  induction nodes with
  | nil => exact .nil
  | cons n rest ih =>
      obtain ⟨hn, hrest⟩ := List.forall_mem_cons.1 h
      by_cases hspace : n.kind = .whiteSpace
      · exact .space hspace (ih hrest)
      · exact .other hn hspace (ih hrest)

theorem runGoesOn_concat {nodes : List Node} {n : Node} (hn : n.kind ≠ .includeStep) :
    runGoesOn (nodes ++ [n]) = runGoesOn nodes := by
  match nodes with
  | [] => simp [runGoesOn, isKind, hn]
  | [m] => simp [runGoesOn, isKind, hn]
  | m :: k :: rest => rfl

/-- A node at the end that is no step makes no difference to the runs before it. -/
theorem marksRuns_concat {nodes : List Node} {n : Node} (hn : n.kind ≠ .includeStep) :
    MarksRuns (nodes ++ [n]) ↔ MarksRuns nodes := by
  constructor
  · intro h before m after heq step hm
    obtain ⟨hfirst, hlast⟩ := h before m (after ++ [n]) (by simp [heq]) step hm
    rw [runGoesOn_concat hn] at hlast
    exact ⟨hfirst, hlast⟩
  · intro h before m after heq step hm
    rcases List.eq_nil_or_concat after with rfl | ⟨after, k, rfl⟩
    · obtain ⟨-, hlast⟩ := List.append_inj' heq rfl
      rw [List.cons.inj hlast |>.1] at hn
      exact absurd (congrArg Content.kind hm) hn
    · rw [List.concat_eq_append, ← List.cons_append, ← List.append_assoc] at heq
      obtain ⟨hnodes, hlast⟩ := List.append_inj' heq rfl
      obtain rfl := (List.cons.inj hlast).1
      obtain ⟨hfirst, hlast⟩ := h before m after hnodes step hm
      refine ⟨hfirst, ?_⟩
      rwa [List.concat_eq_append, runGoesOn_concat hn]

theorem marksRuns_append_of_no_step {nodes more : List Node}
    (hmore : ∀ n ∈ more, n.kind ≠ .includeStep) : MarksRuns (nodes ++ more) ↔ MarksRuns nodes := by
  induction more generalizing nodes with
  | nil => rw [List.append_nil]
  | cons n more ih =>
      obtain ⟨hn, hmore⟩ := List.forall_mem_cons.1 hmore
      rw [← List.singleton_append, ← List.append_assoc, ih hmore, marksRuns_concat hn]

/-! ### Marked runs are bracketed -/

/-- A run of steps is open between some nodes, the last first, and those behind them. -/
def runOpenBetween (before after : List Node) : Bool :=
  match before with
  | [] => false
  | n :: earlier =>
    if n.isKind .includeStep then runGoesOn after
    else runGoesOn (n :: earlier) && after.head?.any (·.isKind .includeStep)

theorem runOpenBetween_step {before after : List Node} {n : Node} (hn : n.isKind .includeStep) :
    runOpenBetween before (n :: after) = runGoesOn before := by
  cases before with
  | nil => rfl
  | cons m earlier =>
      simp only [runOpenBetween, runGoesOn, List.head?_cons, Option.any_some, hn, Bool.true_or,
        Bool.and_true]
      split <;> simp [*]

theorem runOpenBetween_space {before after : List Node} {n : Node} (hn : n.isKind .whiteSpace)
    (hstep : n.isKind .includeStep = false) :
    runOpenBetween before (n :: after) = runOpenBetween (n :: before) after := by
  cases before with
  | nil => simp [runOpenBetween, runGoesOn, hstep]
  | cons m earlier =>
      cases hm : m.isKind .includeStep <;> simp [runOpenBetween, runGoesOn, hn, hstep, hm]

theorem runOpenBetween_other (before after : List Node) {n : Node}
    (hspace : n.isKind .whiteSpace = false) (hstep : n.isKind .includeStep = false) :
    runOpenBetween before (n :: after) = false ∧ runOpenBetween (n :: before) after = false := by
  cases before with
  | nil => simp [runOpenBetween, runGoesOn, hspace, hstep]
  | cons m earlier =>
      cases hm : m.isKind .includeStep <;> simp [runOpenBetween, runGoesOn, hspace, hstep, hm]

/-- Runs are bracketed from any place on, with a run open there or not. -/
theorem MarksRuns.inRuns_from (before : List Node) {after : List Node} (h : MarksRuns (before ++ after))
    (hstart : startsSpaced (before ++ after) = false) :
    InRuns (runOpenBetween before.reverse after) after := by
  -- the nodes in front decide whether a run is open, so they are kept in the induction
  induction after generalizing before with
  | nil =>
      have hclosed : runOpenBetween before.reverse [] = false := by
        unfold runOpenBetween
        split
        · rfl
        · simp [runGoesOn]
      rw [hclosed]
      exact .nil
  | cons n rest ih =>
      have hrest : InRuns (runOpenBetween (n :: before.reverse) rest) rest := by
        have happend : before ++ n :: rest = (before ++ [n]) ++ rest := by simp
        rw [happend] at h hstart
        have hrest := ih (before ++ [n]) h hstart
        rwa [List.reverse_append] at hrest
      by_cases hstep : n.kind = .includeStep
      · obtain ⟨step, hcontent⟩ := exists_includeStep hstep
        have hstepB : n.isKind .includeStep := by simp [isKind, hstep]
        obtain ⟨hfirst, hlast⟩ := h before n rest rfl step hcontent
        have hspaced : before.map Node.kind ≠ [.whiteSpace] := by
          intro hbefore
          obtain ⟨space, rfl, hspace⟩ := List.map_eq_singleton_iff.1 hbefore
          simp [startsSpaced, isKind, hspace, hstep] at hstart
        refine .step step hcontent ?_ ?_
        · rw [runOpenBetween_step hstepB, Bool.eq_iff_iff, hfirst]
          simp [hspaced]
        · have hopen : runOpenBetween (n :: before.reverse) rest = runGoesOn rest := if_pos hstepB
          have hgoes : (!step.isLast) = runGoesOn rest := by
            cases hgoes : runGoesOn rest <;> simpa [hgoes] using hlast
          rwa [hgoes, ← hopen]
      · have hstepB : n.isKind .includeStep = false := by simp [isKind, hstep]
        by_cases hspace : n.kind = .whiteSpace
        · rw [runOpenBetween_space (by simp [isKind, hspace]) hstepB]
          exact .space hspace hrest
        · obtain ⟨hopen, hclosed⟩ := runOpenBetween_other before.reverse rest (n := n)
            (by simp [isKind, hspace]) hstepB
          rw [hopen]
          rw [hclosed] at hrest
          exact .other hstep hspace hrest

/-- Marked runs are bracketed unless the nodes start with a single white space before a step. -/
theorem MarksRuns.inRuns {nodes : List Node} (h : MarksRuns nodes)
    (hstart : startsSpaced nodes = false) : InRuns false nodes :=
  MarksRuns.inRuns_from [] h hstart

end Node

end DocMarkup
