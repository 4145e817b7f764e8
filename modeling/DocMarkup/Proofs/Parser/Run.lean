import DocMarkup.Parser.Basic
import DocMarkup.Proofs.Parser.Step

/-!
Runs.  What a turn keeps, a run keeps; and a machine at the start of a comment is ready.
-/

namespace DocMarkup.Parser

namespace Machine

variable {m m' m'' : Machine} {ends : Outcome → Prop}

/-- The scanner may have moved on; nothing is said of the open constructs. -/
structure Follows (m m' : Machine) : Prop where
  setting : m'.setting = m.setting
  text : m'.scanner.text = m.scanner.text
  offset : m.scanner.offset ≤ m'.scanner.offset
  journal : ∀ event ∈ m'.journal, event ∈ m.journal ∨ event.isClean

theorem Moves.follows {change : List Frame → List Frame → Prop} (h : Moves change m m') :
    Follows m m' :=
  ⟨h.setting, h.text, h.offset, h.journal.mem⟩

theorem Follows.refl (m : Machine) : Follows m m := (Fills.refl m).follows

theorem Follows.trans (h : Follows m m') (h' : Follows m' m'') : Follows m m'' where
  setting := h'.setting.trans h.setting
  text := h'.text.trans h.text
  offset := h.offset.trans h'.offset
  journal event hevent := (h'.journal event hevent).elim (h.journal event) .inr

theorem Goes.follows (h : Goes m ends m') : Follows m m' := by
  cases h with
  | reads h => exact h.follows
  | scans token h => exact h.follows
  | opens h₁ h₂ h => exact h₁.follows.trans (h₂.follows.trans h.follows)
  | opensTwo h₁ h₂ h₃ h₄ h =>
      exact h₁.follows.trans
        (h₂.follows.trans (h₃.follows.trans (h₄.follows.trans h.follows)))
  | leaves outcome h₁ h => exact h₁.follows.trans h.follows

theorem Turn.follows (h : Turn m m') : Follows m m' := by
  cases h with
  | scans token hphase h => exact h.follows
  | reads hphase h => exact h.follows
  | takes token hphase htoken h => exact h.follows
  | opensFor token hphase h₁ h₂ h => exact h₁.follows.trans (h₂.follows.trans h.follows)
  | resumes outcome hphase houtcome h => exact h.follows
  | retakes token hphase h => exact h.follows
  | closes hphase h₁ h => exact h₁.follows.trans h.follows
  | finishes hphase hkind => exact ((Fills.refl m).phase .finished).follows

theorem isDone_iff (hm : m.Ready) : m.isDone ↔ m.phase = .finished := by
  simp [isDone, hm.failure]

/-- What every turn keeps, a run keeps. -/
theorem run_keeps {P : Machine → Prop}
    (hturn : ∀ m m' : Machine, m.Ready → P m → Turn m m' → P m') (hm : m.Ready) (h : P m) (n : Nat) :
    (run n m).Ready ∧ P (run n m) := by
  induction n generalizing m with
  | zero => exact ⟨hm, h⟩
  | succ n ih =>
      unfold run
      split
      · exact ⟨hm, h⟩
      · next hdone =>
        have hstep := step_turn hm fun hphase => hdone ((isDone_iff hm).2 hphase)
        exact ih (hstep.ready hm) (hturn m _ hm h hstep)

theorem run_ready (hm : m.Ready) (n : Nat) : (run n m).Ready :=
  (run_keeps (P := fun _ => True) (fun _ _ _ _ _ => trivial) hm trivial n).1

theorem run_follows (hm : m.Ready) (n : Nat) : Follows m (run n m) :=
  (run_keeps (P := Follows m) (fun _ _ _ h hturn => h.trans hturn.follows) hm (.refl m) n).2

theorem run_add (i j : Nat) (m : Machine) : run (i + j) m = run j (run i m) := by
  induction i generalizing m with
  | zero => rw [Nat.zero_add, run]
  | succ i ih =>
      rw [Nat.succ_add, run, run]
      split
      · next hdone =>
        cases j with
        | zero => rfl
        | succ j => rw [run, if_pos hdone]
      · exact ih m.step

/-- A run that is done takes no step, so every further step of a run is one step. -/
theorem run_succ (hm : m.Ready) (n : Nat) : run (n + 1) m = (run n m).step := by
  have hn := run_ready hm n
  rw [run_add, run, run]
  split
  · next hdone => rw [step, (isDone_iff hn).1 hdone]
  · rfl

end Machine

theorem start_ready (p : Parser) (setting : Setting) : (p.start setting).Ready :=
  .ofReading (.root _ rfl) rfl rfl nofun rfl

/-- The warning of a style that was never left. -/
def openStyleWarning (m : Machine) (entered : OpenStyle) : Diagnostic :=
  let length := m.setting.text.length
  let line := (m.setting.comment.startLine.getD 1 + (Text.lineOf m.setting.text length : Nat)).pred
  (Problem.unclosedStyle entered.tag).toDiagnostic (some entered.tag) m.setting.fileName line
    length length

/-- The report of a style that was never left. -/
def openStyleReport (m : Machine) (entered : OpenStyle) : Event :=
  .reported (openStyleWarning m entered)

/-- Every style that was never left is reported once, and nothing else is done. -/
theorem reportOpenStyles_eq (m : Machine) :
    reportOpenStyles m =
      { m with journal := (m.reopening.map (openStyleReport m)).reverse ++ m.journal } := by
  unfold reportOpenStyles
  dsimp only
  suffices h : ∀ (styles : List OpenStyle) (journal : List Event),
      styles.foldl (fun m' entered => m'.reportBetween (.unclosedStyle entered.tag)
        (some entered.tag) m.setting.text.length m.setting.text.length) { m with journal } =
      { m with journal := (styles.map (openStyleReport m)).reverse ++ journal } from
    h m.reopening m.journal
  intro styles
  induction styles with
  | nil => exact fun _ => rfl
  | cons entered styles ih =>
      intro journal
      rw [List.foldl_cons, List.map_cons, List.reverse_cons, List.append_assoc]
      exact ih (openStyleReport m entered :: journal)

/-! ### Comments -/

/-- The machine that has read a comment. -/
def final (p : Parser) (comment : Comment) : Machine :=
  let text := (expandAliases p.options comment).1
  (p.start (settingOf p.options comment text)).run (maxSteps text.length)

/-- The machine after some steps through a comment. -/
def after (p : Parser) (comment : Comment) (n : Nat) : Machine :=
  (p.start (settingOf p.options comment (expandAliases p.options comment).1)).run n

theorem after_ready (p : Parser) (comment : Comment) (n : Nat) : (p.after comment n).Ready :=
  Machine.run_ready (start_ready p _) n

theorem after_succ (p : Parser) (comment : Comment) (n : Nat) :
    p.after comment (n + 1) = (p.after comment n).step :=
  Machine.run_succ (start_ready p _) n

theorem final_ready (p : Parser) (comment : Comment) : (p.final comment).Ready :=
  Machine.run_ready (start_ready p _) _

theorem parse_root (p : Parser) (comment : Comment) :
    (p.parse comment).1.root = ((p.final comment).stack.getLast?.map Frame.toNode).getD default := by
  have hstack : (reportOpenStyles (p.final comment)).stack = (p.final comment).stack := by
    rw [reportOpenStyles_eq]
  exact congrArg (fun stack : List Frame => (stack.getLast?.map Frame.toNode).getD default) hstack

theorem parse_failure (p : Parser) (comment : Comment) : (p.parse comment).1.failure = none := by
  have hfailure : (reportOpenStyles (p.final comment)).failure = (p.final comment).failure := by
    rw [reportOpenStyles_eq]
  exact hfailure.trans (final_ready p comment).failure

/-- What happened while a comment was read, and a report for every style that is left over. -/
theorem parse_events (p : Parser) (comment : Comment) :
    (p.parse comment).1.events = (p.final comment).journal.reverse ++
      (p.final comment).reopening.map (openStyleReport (p.final comment)) := by
  have hjournal : (reportOpenStyles (p.final comment)).journal.reverse = _ :=
    congrArg (fun m : Machine => m.journal.reverse) (reportOpenStyles_eq (p.final comment))
  rwa [List.reverse_append, List.reverse_reverse] at hjournal

end DocMarkup.Parser
