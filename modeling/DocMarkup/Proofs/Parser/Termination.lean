import Mathlib.Algebra.GroupWithZero.Nat
import DocMarkup.Proofs.Parser.Run

/-!
Every comment is read to its end.  A token that is handed back is not scanned again, so the text
that is left does not bound the steps alone; open constructs and the token that is passed on between
them count as well.
-/

namespace DocMarkup.Parser

namespace Machine

variable {m m' m'' : Machine} {ends : Outcome → Prop}

/-! ### The potential -/

/-- What the end of a construct is worth.  A row is worth little, since a table begins it for a cell
and then passes the cell on. -/
def weight (kind : Kind) : Nat := if kind = .row then 2 else 6

def stackWeight (m : Machine) : Nat := (m.stack.map fun frame => weight frame.construct.kind).sum

/-- What is still to be done with a token or the end of a construct. -/
def credit (kind : Kind) : Phase → Nat
  | .take token => 13 + ((opensFor kind token).map fun opened => weight opened + 1).getD 0
  | .ended (.handBack token) =>
    14 + if kind = .table ∧ token.isStartTag ["td", "th"] then 3 else 0
  | .ended _ => 13
  | _ => 0

/-- Units that are left, the end of the text among them. -/
def unread (m : Machine) : Nat :=
  m.scanner.text.length - m.scanner.offset + if m.phase.isClosing then 0 else 1

def potential (m : Machine) : Nat := 21 * m.unread + m.stackWeight + credit m.innermost m.phase

theorem weight_le (kind : Kind) : weight kind ≤ 6 := by
  unfold weight
  split <;> omega

theorem credit_le (kind : Kind) (phase : Phase) : credit kind phase ≤ 20 := by
  unfold credit
  split
  · next token =>
    cases opensFor kind token with
    | none => simp
    | some opened =>
        have := weight_le opened
        simp only [Option.map_some, Option.getD_some]
        omega
  · split <;> omega
  · omega
  · omega

theorem credit_isReading (kind : Kind) {phase : Phase} (h : phase.isReading) :
    credit kind phase = 0 := by
  cases phase <;> first | rfl | cases h

/-! ### Moves -/

theorem Fills.stackWeight_eq (h : Fills m m') : m'.stackWeight = m.stackWeight := by
  have hstack := h.stack
  unfold stackWeight
  generalize m.stack = stack, m'.stack = stack' at hstack
  cases hstack with
  | nil => rfl
  | cons f g outer h => simp [h.keeps.1]

theorem Begins.stackWeight_eq (h : Begins m m') :
    m'.stackWeight = weight m'.innermost + m.stackWeight := by
  have hstack := h.stack
  unfold stackWeight innermost
  generalize m.stack = stack, m'.stack = stack' at hstack
  cases hstack with
  | intro parent parent' outer construct children id h => simp [h.keeps.2.1]

theorem Begins.stackWeight_le (h : Begins m m') : m'.stackWeight ≤ 6 + m.stackWeight := by
  have hweight := weight_le m'.innermost
  rw [h.stackWeight_eq]
  omega

theorem Leaves.stackWeight_eq (h : Leaves m m') :
    m.stackWeight = weight m.innermost + m'.stackWeight := by
  have hstack := h.stack
  unfold stackWeight innermost
  generalize m.stack = stack, m'.stack = stack' at hstack
  cases hstack with
  | intro inner outer outer' rest h => simp [h.keeps.1]

theorem unread_le (h : Follows m m') (hclosing : m.phase.isClosing → m'.phase.isClosing) :
    m'.unread ≤ m.unread := by
  have hoffset := h.offset
  unfold unread
  rw [h.text]
  split <;> split <;> first | omega | simp_all

/-- Reading a token uses up some text, or the end of it. -/
theorem unread_lt {token : Token} (h : Follows m m') (htoken : Scanned m m' token)
    (hphase : m.phase.isClosing = false) (hphase' : m'.phase = .take token) :
    m'.unread < m.unread := by
  have hle := m'.scanner.offset_le
  have hoffset := h.offset
  unfold unread
  rw [h.text] at hle ⊢
  rw [hphase, hphase']
  obtain ⟨hkind, hend⟩ | ⟨hkind, hprogress⟩ := htoken.progress
  · simp only [Phase.isClosing, hkind]
    simp
    omega
  · simp only [Phase.isClosing, beq_eq_false_iff_ne.2 hkind]
    simp
    omega

/-! ### Steps -/

/-- Taking a token or going on behind a construct is paid for by the credit of the phase. -/
theorem Goes.potential_lt (h : Goes m ends m') (hphase : m.phase.isClosing = false)
    (hcredit : 13 ≤ credit m.innermost m.phase) : m'.potential < m.potential := by
  have hunread := unread_le h.follows (by simp [hphase])
  unfold potential
  cases h with
  | reads h hkind hphase' hword =>
      rw [h.stackWeight_eq, credit_isReading _ hphase']
      omega
  | scans token h hkind hphase' htoken =>
      have hlt := unread_lt h.follows htoken hphase hphase'
      have hle := credit_le m'.innermost m'.phase
      rw [h.stackWeight_eq]
      omega
  | opens h₁ h₂ h hkind hphase' =>
      have hbegins := h₂.stackWeight_le
      rw [h₁.stackWeight_eq] at hbegins
      rw [h.stackWeight_eq, credit_isReading _ (Phase.isReading_of_readsAnew hphase')]
      omega
  | opensTwo h₁ h₂ h₃ h₄ h hkind hphase' =>
      have houter := h₂.stackWeight_le
      have hinner := h₄.stackWeight_le
      rw [h₁.stackWeight_eq] at houter
      rw [h₃.stackWeight_eq] at hinner
      rw [h.stackWeight_eq, credit_isReading _ (Phase.isReading_of_readsAnew hphase')]
      omega
  | leaves outcome h₁ h hphase' hends hrow =>
      have hleaves := h.stackWeight_eq
      rw [h₁.stackWeight_eq, h₁.innermost] at hleaves
      -- the weight of the construct that ended pays for going on in the one around it
      have hpays : credit m'.innermost m'.phase < weight m.innermost + 13 := by
        rw [hphase']
        unfold credit weight
        split
        · cases ‹Phase.ended outcome = _›
        · next token heq =>
          cases heq
          by_cases hkind : m.innermost = .row
          · simp [hkind, hrow hkind token rfl]
          · rw [if_neg hkind]
            split <;> omega
        · split <;> omega
        · split <;> omega
      omega

theorem opensFor_opened {kind opened : Kind} {token : Token}
    (h : opensFor kind token = some opened) (other : Token) : opensFor opened other = none := by
  unfold opensFor at h
  split at h <;> (try split at h) <;> cases h <;> rfl

/-- Every step lowers the potential. -/
theorem Turn.potential_lt (h : Turn m m') (hdone : m.phase ≠ .finished) :
    m'.potential < m.potential := by
  cases h with
  | scans token hphase h hphase' htoken =>
      have hlt := unread_lt h.follows htoken (not_isClosing_of_isReading hphase) hphase'
      have hle := credit_le m'.innermost m'.phase
      unfold potential
      rw [h.stackWeight_eq]
      omega
  | reads hphase h hphase' hword hprogress =>
      have hle := m'.scanner.offset_le
      unfold potential unread
      rw [h.stackWeight_eq, credit_isReading _ hphase', not_isClosing_of_isReading hphase,
        not_isClosing_of_isReading hphase']
      rw [h.text] at hle ⊢
      simp only [Bool.false_eq_true, if_false]
      omega
  | takes token hphase htoken h =>
      refine h.potential_lt (by simp [hphase, Phase.isClosing, htoken]) ?_
      rw [hphase]
      exact Nat.le_add_right ..
  | opensFor token hphase h₁ h₂ h hphase' hkind =>
      have hunread := unread_le (h₁.follows.trans (h₂.follows.trans h.follows))
        (by rw [hphase, hphase']; exact id)
      have hbegins := h₂.stackWeight_eq
      rw [h₁.stackWeight_eq, ← h.innermost] at hbegins
      unfold potential
      rw [h.stackWeight_eq, hphase, hphase']
      simp only [credit, hkind, opensFor_opened hkind token, Option.map_some, Option.map_none,
        Option.getD_some, Option.getD_none]
      omega
  | resumes outcome hphase houtcome h =>
      refine h.potential_lt (by simpa [hphase, Phase.isClosing] using houtcome) ?_
      rw [hphase]
      cases outcome <;> simp only [credit] <;> omega
  | retakes token hphase h hphase' hkind =>
      have hunread := unread_le h.follows (by simp [hphase, Phase.isClosing])
      unfold potential
      rw [h.stackWeight_eq, h.innermost, hphase, hphase']
      rcases hkind with hkind | ⟨hkind, -⟩
      · rw [hkind]
        cases hcell : token.isStartTag ["td", "th"] <;>
        · simp [credit, Parser.opensFor, hcell, weight]
          omega
      · simp only [credit, hkind, Option.map_none, Option.getD_none]
        omega
  | closes hphase h₁ h hphase' =>
      have hunread := unread_le (h₁.follows.trans h.follows)
        (fun _ => by rw [hphase']; rfl)
      have hleaves := h.stackWeight_eq
      rw [h₁.stackWeight_eq, h₁.innermost] at hleaves
      -- the credit stays what it was, so the weight of the construct is what the step takes away
      have hweight : 0 < weight m.innermost := by
        unfold weight
        split <;> omega
      have hcredit : 13 ≤ credit m.innermost m.phase := by
        cases hphase'' : m.phase with
        | take token => exact Nat.le_add_right ..
        | ended outcome => cases outcome <;> simp only [credit] <;> omega
        | finished => exact absurd hphase'' hdone
        | read | readSolid | readWord style => simp [hphase'', Phase.isClosing] at hphase
      have hended : credit m'.innermost m'.phase = 13 := by
        rw [hphase']
        rfl
      unfold potential
      omega
  | finishes hphase hkind =>
      have hunread := unread_le ((Fills.refl m).phase .finished).follows fun _ => rfl
      unfold potential
      rw [hphase]
      simp only [credit, stackWeight]
      omega

/-! ### Runs -/

theorem potential_run_le (hm : m.Ready) (n : Nat)
    (h : ∀ i < n, (run i m).phase ≠ .finished) : (run n m).potential + n ≤ m.potential := by
  induction n with
  | zero => exact le_rfl
  | succ n ih =>
      have hphase := h n (Nat.lt_succ_self n)
      have hlt := (step_turn (run_ready hm n) hphase).potential_lt hphase
      have hle := ih fun i hi => h i (Nat.lt_succ_of_lt hi)
      rw [run_succ hm]
      omega

theorem run_of_finished (hphase : m.phase = .finished) (n : Nat) : run n m = m := by
  cases n with
  | zero => rfl
  | succ n => rw [run, if_pos (by simp [isDone, hphase])]

/-- A run of as many steps as the potential is at its end. -/
theorem run_finished (hm : m.Ready) {n : Nat} (h : m.potential ≤ n) :
    (run n m).phase = .finished := by
  by_contra hphase
  have hopen : ∀ i < n, (run i m).phase ≠ .finished := by
    intro i hi hfinished
    obtain ⟨j, rfl⟩ := Nat.exists_eq_add_of_lt hi
    refine hphase ?_
    rw [Nat.add_assoc, run_add, run_of_finished hfinished, hfinished]
  have hle := potential_run_le hm n hopen
  have hlt := (step_turn (run_ready hm n) hphase).potential_lt hphase
  omega

theorem stackWeight_le (m : Machine) : m.stackWeight ≤ 6 * m.stack.length := by
  unfold stackWeight
  induction m.stack with
  | nil => rfl
  | cons frame outer ih =>
      have := weight_le frame.construct.kind
      simp only [List.map_cons, List.sum_cons, List.length_cons]
      omega

/-- The scanner does not stand still for long: the steps without progress are bounded by the
constructs that are open. -/
theorem exists_progress (hm : m.Ready) :
    ∃ n ≤ 6 * m.stack.length + 42,
      (run n m).phase = .finished ∨ m.scanner.offset < (run n m).scanner.offset := by
  by_contra h
  simp only [not_exists, not_and, not_or, not_lt] at h
  have hrun := potential_run_le hm (6 * m.stack.length + 42) fun i hi => (h i hi.le).1
  have hoffset := (h _ le_rfl).2
  have hfollows := run_follows hm (6 * m.stack.length + 42)
  have hweight := m.stackWeight_le
  have hcredit := credit_le m.innermost m.phase
  unfold potential unread at hrun
  rw [hfollows.text] at hrun
  split at hrun <;> split at hrun <;> omega

theorem potential_start (p : Parser) (setting : Setting) :
    (p.start setting).potential ≤ maxSteps setting.text.length := by
  have hroot : (p.start setting).stackWeight = 6 := rfl
  have hcredit : credit (p.start setting).innermost (p.start setting).phase = 0 := rfl
  have hunread : (p.start setting).unread ≤ setting.text.length + 1 := by
    unfold unread
    have htext : (p.start setting).scanner.text = setting.text := rfl
    rw [htext]
    split <;> omega
  unfold potential maxSteps
  omega

/-! ### Arguments -/

theorem length_ahead_argument {argument : Text} (h : m.argument = (some argument, m')) :
    m'.scanner.cursor.ahead.length < m.scanner.cursor.ahead.length := by
  have hreads := readsOn_argument m
  have hlt := Scanner.offset_readArgument (s := m.scanner) (congrArg Prod.fst h)
  rw [h] at hreads
  have hoffset : m.scanner.readArgument.2 = m'.scanner := congrArg (·.2.scanner) h
  have htext : m'.scanner.cursor.text = m.scanner.cursor.text := hreads.scanner.text
  have hbefore := m.scanner.cursor.offset_add_length_ahead
  have hafter := m'.scanner.cursor.offset_add_length_ahead
  rw [hoffset] at hlt
  have hlt : m.scanner.cursor.offset < m'.scanner.cursor.offset := hlt
  rw [htext] at hafter
  omega

theorem argument_of_atEnd (h : m.scanner.cursor.ahead = []) : m.argument = (none, m) := by
  simp [argument, Scanner.readArgument, Scanner.skipHorizontalSpace, Cursor.advanceWhile, h,
    Cursor.advance]

theorem names_of_atEnd (h : m.scanner.cursor.ahead = []) (n : Nat) : names n m = ([], m) := by
  cases n with
  | zero => rfl
  | succ n => rw [names, argument_of_atEnd h]

/-- More arguments than there are units ahead are never read. -/
theorem names_of_le {n : Nat} (h : m.scanner.cursor.ahead.length ≤ n) :
    names n m = names m.scanner.cursor.ahead.length m := by
  suffices hn : ∀ k, m.scanner.cursor.ahead.length ≤ k → names n m = names k m from hn _ le_rfl
  induction n generalizing m with
  | zero =>
      have hahead := List.length_eq_zero_iff.1 (Nat.le_zero.1 h)
      exact fun k _ => (names_of_atEnd hahead k).symm
  | succ n ih =>
      rintro (_ | k) hk
      · exact names_of_atEnd (List.length_eq_zero_iff.1 (Nat.le_zero.1 hk)) _
      · rcases hargument : m.argument with ⟨_ | argument, m'⟩
        · simp only [names, hargument]
        · have hlt := length_ahead_argument hargument
          have hmore := ih (m := m') (by omega) k (by omega)
          simp only [names, hargument, hmore]

theorem sizes_of_lt {n : Nat} {size : Text × Text} (h : m.scanner.cursor.ahead.length < n) :
    sizes n size m = sizes (m.scanner.cursor.ahead.length + 1) size m := by
  suffices hn : ∀ k, m.scanner.cursor.ahead.length < k → sizes n size m = sizes k size m from
    hn _ (Nat.lt_succ_self _)
  induction n generalizing m size with
  | zero => exact absurd h (Nat.not_lt_zero _)
  | succ n ih =>
      rintro (_ | k) hk
      · exact absurd hk (Nat.not_lt_zero _)
      · rcases hargument : m.argument with ⟨_ | argument, m'⟩
        · simp only [sizes, hargument]
        · have hlt := length_ahead_argument hargument
          have hmore : ∀ size, sizes n size m' = sizes k size m' := fun size =>
            ih (by omega) k (by omega)
          simp only [sizes, hargument, hmore]

end Machine

/-! ### Comments -/

theorem run_start_finished (p : Parser) (setting : Setting) {n : Nat}
    (h : maxSteps setting.text.length ≤ n) : ((p.start setting).run n).phase = .finished :=
  Machine.run_finished (start_ready p setting) ((Machine.potential_start p setting).trans h)

/-- More steps than the parser allows itself change nothing. -/
theorem run_start_eq (p : Parser) (setting : Setting) {n : Nat}
    (h : maxSteps setting.text.length ≤ n) :
    (p.start setting).run n = (p.start setting).run (maxSteps setting.text.length) := by
  obtain ⟨k, rfl⟩ := Nat.exists_eq_add_of_le h
  rw [Machine.run_add, Machine.run_of_finished (run_start_finished p setting le_rfl)]

theorem final_finished (p : Parser) (comment : Comment) : (p.final comment).phase = .finished :=
  run_start_finished p _ le_rfl

/-- When a comment has been read, nothing more happens. -/
theorem after_of_finished {p : Parser} {comment : Comment} {n k : Nat}
    (h : (p.after comment n).phase = .finished) (hk : n ≤ k) :
    p.after comment k = p.after comment n := by
  obtain ⟨i, rfl⟩ := Nat.exists_eq_add_of_le hk
  rw [after, Machine.run_add, ← after, Machine.run_of_finished h]

theorem after_eq_final {p : Parser} {comment : Comment} {n : Nat}
    (h : (p.after comment n).phase = .finished) : p.after comment n = p.final comment := by
  rcases Nat.le_total n (maxSteps (expandAliases p.options comment).1.length) with hn | hn
  · exact (after_of_finished h hn).symm
  · exact after_of_finished (final_finished p comment) hn

/-- A parse comes to the end of its text.  It never stands still for more steps than the constructs
that are open allow, and no loop within a step is cut short by the bound it is given. -/
theorem parse_reads_whole_text (p : Parser) (comment : Comment) :
    let text := (expandAliases p.options comment).1
    let machine := fun n => (p.start (settingOf p.options comment text)).run n
    let final := machine (maxSteps text.length)
    (p.parse comment).1.root = (final.stack.getLast?.map Frame.toNode).getD default ∧
      (p.parse comment).1.failure = none ∧
      final.phase = .finished ∧
      final.scanner.text = text ∧
      final.scanner.offset = text.length ∧
      (∀ n, maxSteps text.length ≤ n → machine n = final) ∧
      (∀ n, ∃ k ≤ 6 * (machine n).stack.length + 42,
        (machine (n + k)).phase = .finished ∨
          (machine n).scanner.offset < (machine (n + k)).scanner.offset) ∧
      ∀ (m : Machine) (n : Nat), m.scanner.cursor.ahead.length < n →
        Scanner.readTokens n m.scanner = m.scanner.readAll ∧
          m.scanner.readAll.2.last.kind = .endOfText ∧
          Machine.names n m = Machine.names m.scanner.cursor.ahead.length m ∧
          ∀ size, Machine.sizes n size m =
            Machine.sizes (m.scanner.cursor.ahead.length + 1) size m := by
  intro text machine final
  have hready := start_ready p (settingOf p.options comment text)
  have hphase : final.phase = .finished := final_finished p comment
  have htext : final.scanner.text = text := (Machine.run_follows hready _).text
  refine ⟨parse_root p comment, parse_failure p comment, hphase, htext, ?_,
    fun n hn => run_start_eq p _ hn, fun n => ?_, ?_⟩
  · rw [(Machine.run_ready hready _).closing (by rw [hphase]; rfl)]
    exact congrArg List.length htext
  · obtain ⟨k, hk, hmoves⟩ := Machine.exists_progress (Machine.run_ready hready n)
    rw [← Machine.run_add] at hmoves
    exact ⟨k, hk, hmoves⟩
  · intro m n hn
    obtain ⟨htokens, hlast⟩ := Scanner.readTokens_of_lt hn
    exact ⟨htokens, hlast, Machine.names_of_le hn.le, fun _ => Machine.sizes_of_lt hn⟩

end DocMarkup.Parser
