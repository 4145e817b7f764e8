import DocMarkup.Proofs.Doc.Runs
import DocMarkup.Proofs.Parser.Growth

/-!
Runs of include steps in the tree of a comment.  A step is marked by what stands before it when it
is read, and the step before it loses its mark as the last.
-/

namespace DocMarkup

/-! ### Marks -/

namespace Node

theorem runGoesOn_of_matches {nodes marked : List Node} (h : List.Forall₂ Matches nodes marked) :
    runGoesOn marked = runGoesOn nodes := by
  cases h with
  | nil => rfl
  | cons hn hrest =>
      cases hrest with
      | nil => simp [runGoesOn, isKind, hn.kind]
      | cons hm _ => simp [runGoesOn, isKind, hn.kind, hm.kind]

theorem map_kind_of_matches {nodes marked : List Node} (h : List.Forall₂ Matches nodes marked) :
    marked.map Node.kind = nodes.map Node.kind := by
  induction h with
  | nil => rfl
  | cons hn _ ih => rw [List.map_cons, List.map_cons, hn.kind, ih]

/-- Marks of paragraphs, lists and cells make no difference to the marks of steps. -/
theorem ignoresMarks_marksRuns : IgnoresMarks fun n => MarksRuns n.children := by
  intro n m _ _ _ hchildren h before k after heq step hk
  rw [heq] at hchildren
  obtain ⟨before', rest, hbefore, hrest, hnodes⟩ :
      ∃ before' rest, List.Forall₂ Matches before' before ∧ List.Forall₂ Matches rest (k :: after) ∧
        n.children = before' ++ rest := by
    refine ⟨_, _, List.forall₂_take_append _ _ _ hchildren,
      List.forall₂_drop_append _ _ _ hchildren, ?_⟩
    exact (List.take_append_drop _ _).symm
  cases hrest with
  | @cons k' _ after' _ hmatch hafter =>
      have hcontent : k'.content = .includeStep step := by
        rcases hmatch.content with hsame | hmarked
        · exact hsame ▸ hk
        · rw [← hmatch.kind, Node.kind, hk] at hmarked
          cases hmarked
      obtain ⟨hfirst, hlast⟩ := h before' k' after' hnodes step hcontent
      rw [← runGoesOn_of_matches (List.rel_reverse hbefore), ← map_kind_of_matches hbefore] at hfirst
      rw [← runGoesOn_of_matches hafter] at hlast
      exact ⟨hfirst, hlast⟩

end Node

namespace Parser

/-! ### Steps that are read -/

namespace Machine

theorem beginsRun_iff (before : List Node) :
    beginsRun before ↔ runGoesOn before = false ∧ before.map Node.kind ≠ [.whiteSpace] := by
  unfold beginsRun runGoesOn
  split
  · simp
  · next n rest =>
    cases rest with
    | nil => by_cases hspace : n.kind = .whiteSpace <;> simp [Node.isKind, hspace]
    | cons m rest => by_cases hspace : n.kind = .whiteSpace <;> simp [Node.isKind, hspace]

theorem includeStep?_eq_none {n : Node} (h : includeStep? n = none) : n.kind ≠ .includeStep := by
  intro hkind
  obtain ⟨step, hcontent⟩ := Node.exists_includeStep hkind
  simp [includeStep?, hcontent] at h

/-- The step that a new one goes on from, if there is one, is no longer the last of its run. -/
theorem continueRun_cases (children : List Node) :
    runGoesOn children = false ∧ continueRun children = children ∨
      ∃ between n step before, children = between ++ n :: before ∧
        n.content = .includeStep step ∧ (∀ space ∈ between, space.kind = .whiteSpace) ∧
        between.length ≤ 1 ∧
        continueRun children =
          between ++ n.withContent (.includeStep { step with isLast := false }) :: before := by
  unfold continueRun
  split
  · exact .inl ⟨rfl, rfl⟩
  · next n rest =>
    split
    · next step hstep => exact .inr ⟨[], n, step, rest, rfl, includeStep?_eq_some hstep, by simp⟩
    · next hnone =>
      have hn := includeStep?_eq_none hnone
      split
      · next hspace =>
        split
        · exact .inl ⟨by simp [runGoesOn, Node.isKind, hn], rfl⟩
        · next before rest =>
          split
          · next step hstep =>
            refine .inr ⟨[n], before, step, rest, rfl, includeStep?_eq_some hstep, ?_⟩
            simpa [Node.isKind] using hspace
          · next hbefore =>
            refine .inl ⟨?_, rfl⟩
            simp [runGoesOn, Node.isKind, hn, includeStep?_eq_none hbefore]
      · next hspace =>
        have hspace : n.kind ≠ .whiteSpace := by simpa [Node.isKind] using hspace
        refine .inl ⟨?_, rfl⟩
        simp [runGoesOn, Node.isKind, hn, hspace]

end Machine

end Parser

namespace Node

/-- The places in a list: at its head and behind it. -/
theorem forall_split_cons {n : Node} {rest : List Node}
    {P : List Node → Node → List Node → Prop} (hhead : P [] n rest)
    (hrest : ∀ before m after, rest = before ++ m :: after → P (n :: before) m after) :
    ∀ before m after, n :: rest = before ++ m :: after → P before m after := by
  intro before m after heq
  cases before with
  | nil =>
      obtain ⟨rfl, rfl⟩ := List.cons.inj heq
      exact hhead
  | cons k before =>
      obtain ⟨rfl, hsplit⟩ := List.cons.inj heq
      exact hrest before m after hsplit

/-- Marks of the nodes in front and of those behind. -/
theorem marksRuns_append {front back : List Node} :
    MarksRuns (front ++ back) ↔
      (∀ before n after, front = before ++ n :: after →
        ∀ step, n.content = .includeStep step → step.IsMarked before (after ++ back)) ∧
      ∀ before n after, back = before ++ n :: after →
        ∀ step, n.content = .includeStep step → step.IsMarked (front ++ before) after := by
  constructor
  · intro h
    constructor
    · exact fun before n after heq => h before n (after ++ back) (by simp [heq])
    · exact fun before n after heq => h (front ++ before) n after (by simp [heq])
  · rintro ⟨hfront, hback⟩ before n after heq
    rcases List.append_eq_append_iff.1 heq with ⟨between, rfl, hsplit⟩ | ⟨between, hsplit, hafter⟩
    · exact hback between n after hsplit
    · cases between with
      | nil =>
          rw [List.append_nil] at hsplit
          have hplace := hback [] n after hafter.symm
          rwa [List.append_nil, hsplit] at hplace
      | cons m between =>
          obtain ⟨rfl, rfl⟩ := List.cons.inj hafter
          exact hfront before n between hsplit

/-- Which step a run goes on with does not matter. -/
theorem runGoesOn_append_step {n m : Node} (hn : n.kind = .includeStep) (hm : m.kind = .includeStep)
    (after rest rest' : List Node) :
    runGoesOn (after ++ n :: rest) = runGoesOn (after ++ m :: rest') := by
  match after with
  | [] => simp [runGoesOn, isKind, hn, hm]
  | [k] => simp [runGoesOn, isKind, hn, hm]
  | k :: l :: more => rfl

/-- No step goes on with a run that has ended before it. -/
theorem runGoesOn_concat_of_ended {before after : List Node} {n step : Node}
    (hn : n.kind = .includeStep) (hended : runGoesOn (before ++ n :: after).reverse = false) :
    runGoesOn (after ++ [step]) = runGoesOn after := by
  match after with
  | [] => simp [runGoesOn, isKind, hn] at hended
  | [k] =>
      have hk : k.isKind .includeStep = false ∧ k.isKind .whiteSpace = false := by
        simpa [runGoesOn, isKind, hn] using hended
      simp [runGoesOn, hk]
  | k :: l :: more => rfl

end Node

namespace Parser

/-- A run goes on with a step behind no more than a single white space, seen from either side. -/
theorem runGoesOn_between (before : List Node) {between : List Node} {n : Node} (hn : n.kind = .includeStep)
    (hspaces : ∀ space ∈ between, space.kind = .whiteSpace) (hlength : between.length ≤ 1) :
    runGoesOn (between ++ n :: before) ∧ runGoesOn (between.reverse ++ [n]) := by
  match between, hlength with
  | [], _ => simp [runGoesOn, Node.isKind, hn]
  | [space], _ => simp [runGoesOn, Node.isKind, hn, hspaces]

/-- A step that goes on with a run takes the mark of the last from the step before it. -/
theorem marksRuns_stepAfter {between before : List Node} {n : Node} {last step : IncludeStep}
    (h : MarksRuns (between ++ n :: before).reverse) (hn : n.content = .includeStep last)
    (hspaces : ∀ space ∈ between, space.kind = .whiteSpace) (hlength : between.length ≤ 1)
    (hfirst : step.isFirst = false) (hlast : step.isLast) {marked : Node}
    (hmarked : marked.content = .includeStep { last with isLast := false }) :
    MarksRuns (.leaf (.includeStep step) :: (between ++ marked :: before)).reverse := by
  have hkind : n.kind = .includeStep := congrArg Content.kind hn
  have hkind' : marked.kind = .includeStep := congrArg Content.kind hmarked
  rw [List.reverse_append, List.reverse_cons, List.append_assoc, List.singleton_append,
    Node.marksRuns_append] at h
  rw [List.reverse_cons, List.reverse_append, List.reverse_cons, List.append_assoc,
    List.append_assoc, List.singleton_append, Node.marksRuns_append]
  obtain ⟨hfront, hback⟩ := h
  constructor
  · intro b k a heq s hs
    obtain ⟨hisFirst, hisLast⟩ := hfront b k a heq s hs
    refine ⟨hisFirst, ?_⟩
    rwa [Node.runGoesOn_append_step hkind hkind'] at hisLast
  · refine Node.forall_split_cons (fun s hs => ?_) fun b k a heq s hs => ?_
    · obtain ⟨hisFirst, -⟩ := hback [] n between.reverse rfl last hn
      obtain rfl : _ = s := Content.includeStep.inj (hmarked.symm.trans hs)
      refine ⟨hisFirst, ?_⟩
      have hgoes := (runGoesOn_between before (n := .leaf (.includeStep step)) rfl
        hspaces hlength).2
      simp [hgoes]
    · rcases List.eq_nil_or_concat a with rfl | ⟨a, l, rfl⟩
      · obtain ⟨rfl, hk⟩ := List.append_inj' heq rfl
        rw [← (List.cons.inj hk).1] at hs
        obtain rfl : step = s := Content.includeStep.inj hs
        have hgoes := (runGoesOn_between before hkind' hspaces hlength).1
        exact ⟨by simp [hfirst, hgoes], by simp [hlast, runGoesOn]⟩
      · rw [List.concat_eq_append, ← List.cons_append, ← List.append_assoc] at heq
        obtain ⟨hbetween, -⟩ := List.append_inj' heq rfl
        have hk := hspaces k (List.mem_reverse.1 (by simp [hbetween]))
        rw [Node.kind, hs] at hk
        cases hk

/-- A step that is read gets its marks, and the step before it keeps its own. -/
theorem marksRuns_step {children : List Node} (h : MarksRuns children.reverse) {step : IncludeStep}
    (hfirst : step.isFirst = Machine.beginsRun children) (hlast : step.isLast) :
    MarksRuns (.leaf (.includeStep step) :: Machine.continueRun children).reverse := by
  have hbegins := Machine.beginsRun_iff children
  rw [← hfirst] at hbegins
  rcases Machine.continueRun_cases children with
    ⟨hended, hsame⟩ | ⟨between, n, last, before, rfl, hn, hspaces, hlength, hcontinued⟩
  · rw [hsame, List.reverse_cons, Node.marksRuns_append]
    constructor
    · intro before n after heq last hn
      obtain ⟨hisFirst, hisLast⟩ := h before n after heq last hn
      refine ⟨hisFirst, ?_⟩
      rwa [Node.runGoesOn_concat_of_ended (congrArg Content.kind hn)]
      rwa [← heq, List.reverse_reverse]
    · refine Node.forall_split_cons (fun last hn => ?_) (by simp)
      obtain rfl : step = last := Content.includeStep.inj hn
      refine ⟨?_, by simp [hlast, runGoesOn]⟩
      rw [hbegins, List.append_nil, List.reverse_reverse]
      simp
  · rw [hcontinued]
    refine marksRuns_stepAfter h hn hspaces hlength ?_ hlast rfl
    have hgoes := (runGoesOn_between before (congrArg Content.kind hn) hspaces hlength).1
    rw [hgoes] at hbegins
    simpa using hbegins

/-! ### Comments -/

theorem IsPlainText.no_step {text : List Node} (h : IsPlainText text) :
    ∀ n ∈ text, n.kind ≠ .includeStep := by
  intro n hn hkind
  obtain ⟨content, rfl, hplain, -⟩ := h n hn
  have hcontent : content.kind = .includeStep := hkind
  rw [hcontent] at hplain
  cases hplain

theorem marksRuns_dropTrailingSpace {children : List Node} (h : MarksRuns children.reverse) :
    MarksRuns (dropTrailingSpace children).reverse := by
  have hsplit : children.reverse = (dropTrailingSpace children).reverse ++
      (children.takeWhile (·.isKind .whiteSpace)).reverse := by
    rw [← List.reverse_append, dropTrailingSpace, List.takeWhile_append_dropWhile]
  rw [hsplit, Node.marksRuns_append_of_no_step] at h
  · exact h
  · intro n hn hkind
    have hspace := List.mem_takeWhile_imp (List.mem_reverse.1 hn)
    simp [Node.isKind, hkind] at hspace

/-- Text between two changes of style breaks no run off. -/
theorem marksRuns_spilled {children text : List Node} (h : MarksRuns children.reverse)
    (htext : ∀ n ∈ text, n.kind ≠ .includeStep) (before after : StyleChange) :
    MarksRuns (.leaf (.styleChange after) ::
      (text ++ .leaf (.styleChange before) :: children)).reverse := by
  have hspilled : ∀ n ∈ (Node.leaf (.styleChange after) ::
      (text ++ [.leaf (.styleChange before)])).reverse, n.kind ≠ .includeStep := by
    simp only [List.mem_reverse, List.mem_cons, List.mem_append, List.not_mem_nil, or_false]
    rintro n (rfl | hn | rfl)
    · rintro ⟨⟩
    · exact htext n hn
    · rintro ⟨⟩
  have hsplit : (Node.leaf (.styleChange after) ::
      (text ++ .leaf (.styleChange before) :: children)).reverse =
      children.reverse ++
        (Node.leaf (.styleChange after) :: (text ++ [.leaf (.styleChange before)])).reverse := by
    simp
  rwa [hsplit, Node.marksRuns_append_of_no_step hspilled]

/-- The steps in every construct have their marks, and keep them when it ends. -/
theorem grows_runs :
    Grows (fun f => MarksRuns f.children.reverse) (fun n => MarksRuns n.children) where
  ignores := Node.ignoresMarks_marksRuns
  bare _ _ := Node.marksRuns_of_no_step nofun
  text _ _ htext := Node.marksRuns_of_no_step htext.no_step
  keyword title body _ _ := by
    refine Node.marksRuns_of_no_step fun n (hn : n ∈ if body.isEmpty then [] else _) => ?_
    split at hn
    · cases hn
    · rw [List.mem_singleton.1 hn]
      rintro ⟨⟩
  fresh _ _ _ := Node.marksRuns_of_no_step nofun
  changes {f g} h hsound hf := by
    cases h with
    | construct => exact hf
    | adds n hn =>
        rw [List.reverse_cons, Node.marksRuns_concat hn.isPart.kind]
        exact hf
    | marks change flags =>
        rw [List.reverse_cons, Node.marksRuns_concat (isPart_styleChange change flags).kind]
        exact hf
    | steps step hkind hfirst hlast => exact marksRuns_step hf hfirst hlast
    | trims => exact marksRuns_dropTrailingSpace hf
  begins {parent parent' c children} h hsound hparent hnodes id madeFor := by
    cases h with
    | fresh => exact ⟨hparent, Node.marksRuns_of_no_step (List.forall_mem_nil _)⟩
    | sectionAfter n before type hkind hchildren hn =>
        have hmarks := hnodes n (by simp [hchildren])
        have hstep : n.kind ≠ .includeStep := by simp [Node.kind, hn, Content.kind]
        rw [hchildren, List.reverse_cons, Node.marksRuns_concat hstep] at hparent
        refine ⟨hparent, ?_⟩
        have hseparator : (Node.leaf .separator).kind ≠ .includeStep := by decide
        rw [List.reverse_cons, List.reverse_reverse, Node.marksRuns_concat hseparator]
        exact hmarks
    | parametersAfter n before sect sect' hkind hchildren hn =>
        have hmarks := hnodes n (by simp [hchildren])
        have hstep : n.kind ≠ .includeStep := by simp [Node.kind, hn, Content.kind]
        rw [hchildren, List.reverse_cons, Node.marksRuns_concat hstep] at hparent
        refine ⟨hparent, ?_⟩
        rwa [List.reverse_reverse]
  receives {outer inner outer'} h houter hinner hq _ := by
    cases h with
    | node =>
        rw [List.reverse_cons, Node.marksRuns_concat]
        · exact hq
        · rw [inner.kind_toNode]
          exact inner.construct.kind_ne.1
    | nothing | caption | secondCaption => exact hq
    | text before after hkind =>
        refine marksRuns_spilled hq (fun n hn => ?_) before after
        have hlists := (hinner.held.children n hn).1
        rw [hkind] at hlists
        exact (Frame.lists_inline_paragraph _ hlists).2
  node hsound hq := Frame.of_toNode_withChildren Node.ignoresMarks_marksRuns hsound hq

/-- Wherever include steps stand in the tree of a comment, each is marked as the first of its run
unless a step stands before it, directly or across a single white space, or it follows a single
white space at the start; and as the last unless a step stands behind it.  So all runs are bracketed
but those that follow a single white space at the start of a paragraph. -/
theorem parse_marks_runs (p : Parser) (comment : Comment) :
    ∀ n, (p.parse comment).1.root.Reaches n →
      MarksRuns n.children ∧ (startsSpaced n.children = false → InRuns false n.children) := by
  intro n hn
  have hmarks : MarksRuns n.children := grows_runs.parse p comment n hn
  exact ⟨hmarks, Node.MarksRuns.inRuns hmarks⟩

/-- Two steps with a line break between them are one run. -/
theorem parse_marks_runs_across_line_break :
    let root := (({} : Parser).parse { text := units "a \\skip x\n\\line y" }).1.root
    ∃ n, root.Reaches n ∧
      n.children.map Node.kind = [.word, .whiteSpace, .includeStep, .whiteSpace, .includeStep] ∧
      MarksRuns n.children ∧ InRuns false n.children := by
  intro root
  have hroot : root.children.map (fun n => (startsSpaced n.children, n.children.map Node.kind)) =
      [(false, [.word, .whiteSpace, .includeStep, .whiteSpace, .includeStep])] := by decide +kernel
  obtain ⟨n, hn, hkinds⟩ := List.map_eq_singleton_iff.1 hroot
  obtain ⟨hstart, hkinds⟩ := Prod.mk.inj hkinds
  have hreaches : root.Reaches n :=
    .single (Node.mem_parts.2 (.inr (.inr (by rw [hn]; exact List.mem_singleton_self n))))
  obtain ⟨hmarks, hruns⟩ := parse_marks_runs {} _ n hreaches
  exact ⟨n, hreaches, hkinds, hmarks, hruns hstart⟩

/-- A step behind a line break at the start of a paragraph is not marked as the first of its run. -/
theorem parse_breaks_run_behind_space :
    ¬ (({} : Parser).parse { text := units "\\_linebr\\line foo" }).1.root.Everywhere
      fun n => n.kind = .paragraph → InRuns false n.children := by
  decide +kernel

end Parser

end DocMarkup
