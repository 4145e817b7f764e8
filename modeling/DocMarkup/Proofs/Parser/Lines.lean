import DocMarkup.Proofs.Alias.Expansion
import DocMarkup.Proofs.Doc.Grid
import DocMarkup.Proofs.Parser.StartLine

/-!
The lines of reports.  A comment that starts some lines further down gives the same tree, and all
that is reported while it is read stands as many lines further down.  Alias expansion runs before
and counts the lines of the text alone.
-/

namespace DocMarkup

namespace Parser

theorem final_startingAt (p : Parser) (comment : Comment) (line : Option Number) :
    p.final { comment with startLine := line } = (p.final comment).startingAt line :=
  Machine.run_startingAt (p.start (settingOf p.options comment (expandAliases p.options comment).1))
    _

theorem reportOpenStyles_startingAt (m : Machine) (line : Option Number) :
    reportOpenStyles (m.startingAt line) = (reportOpenStyles m).startingAt line := by
  have hreports : m.reopening.map (openStyleReport (m.startingAt line)) =
      (m.reopening.map (openStyleReport m)).map (Event.startingAt line m.setting.text) := by
    rw [List.map_map]
    rfl
  rw [reportOpenStyles_eq, reportOpenStyles_eq, Machine.reopening_startingAt, hreports,
    ← List.map_reverse]
  unfold Machine.startingAt
  rw [← List.map_append]

/-- What alias expansion reports does not depend on the line a comment starts on.  All else that is
reported moves with that line, and nothing but reports depends on it. -/
theorem parse_startingAt (p : Parser) (comment : Comment) (line : Option Number) :
    p.parse { comment with startLine := line } =
      ({ (p.parse comment).1 with
          events := (p.parse comment).1.events.map
            (Event.startingAt line (expandAliases p.options comment).1) },
        (p.parse comment).2) := by
  have hparse (comment : Comment) : p.parse comment =
      ({ root := ((reportOpenStyles (p.final comment)).stack.getLast?.map Frame.toNode).getD default
         aliasDiagnostics := (expandAliases p.options comment).2
         events := (reportOpenStyles (p.final comment)).journal.reverse
         failure := (reportOpenStyles (p.final comment)).failure },
        { p with
          items := (reportOpenStyles (p.final comment)).items
          formulas := (reportOpenStyles (p.final comment)).formulas }) := rfl
  have htext : (reportOpenStyles (p.final comment)).setting.text =
      (expandAliases p.options comment).1 := by
    rw [reportOpenStyles_eq]
    exact congrArg Setting.text (Machine.run_follows (start_ready p _) _).setting
  rw [hparse, hparse comment, final_startingAt, reportOpenStyles_startingAt, ← htext]
  dsimp only
  rw [List.map_reverse]
  rfl

/-! ### Lines of the text -/

end Parser

/-- The same report some lines further down. -/
def Diagnostic.down (lines : Nat) (d : Diagnostic) : Diagnostic :=
  { d with line := d.line + (lines : Nat) }

theorem Number.natCast_add_natCast {m n : Nat} (h : m + n < Whole.exactBound) :
    (m : Number) + (n : Number) = ((m + n : Nat) : Number) := by
  show Number.whole (Whole.ofNat m + Whole.ofNat n) = .whole (Whole.ofNat (m + n))
  rw [Whole.ofNat_of_lt (by omega), Whole.ofNat_of_lt (by omega), Whole.finite_add_finite,
    ← Int.natCast_add]
  rfl

theorem Number.pred_natCast {n : Nat} (h : n + 1 < Whole.exactBound) :
    ((n + 1 : Nat) : Number).pred = (n : Number) := by
  show Number.whole (Whole.ofNat (n + 1) + .finite (-1)) = .whole (Whole.ofNat n)
  rw [Whole.ofNat_of_lt h, Whole.finite_add_finite]
  congr 2
  omega

theorem Text.lineOf_le (t : Text) (offset : Nat) : Text.lineOf t offset ≤ t.length + 1 :=
  Nat.succ_le_succ (List.count_le_length.trans (List.length_take_le' offset t))

namespace Parser

/-- The same event some lines further down. -/
def Event.down (lines : Nat) : Event → Event
  | .reported d => .reported (d.down lines)
  | event => event

/-- Lines are counted exactly as long as they are few. -/
theorem Event.startingAt_natCast {n : Nat} {t : Text} (hn : 1 ≤ n)
    (hexact : n + t.length + 1 < Whole.exactBound) (event : Event) :
    Event.startingAt (some n) t event = (Event.startingAt (some 1) t event).down (n - 1) := by
  cases event with
  | reported d =>
      obtain ⟨lines, rfl⟩ : ∃ lines, n = lines + 1 := ⟨n - 1, by omega⟩
      have hle := Text.lineOf_le t d.start
      have hline : ((lines + 1 : Nat) + (Text.lineOf t d.start : Nat) : Number).pred =
          ((1 : Nat) + (Text.lineOf t d.start : Nat) : Number).pred + (lines : Nat) := by
        rw [Number.natCast_add_natCast (by omega), Number.natCast_add_natCast (by omega),
          Nat.add_right_comm, Nat.add_comm 1, Number.pred_natCast (by omega),
          Number.pred_natCast (by omega), Number.natCast_add_natCast (by omega), Nat.add_comm lines]
      exact congrArg (fun line => Event.reported { d with line }) hline
  | scanned command => rfl
  | entered command => rfl
  | asked request => rfl

/-- A comment that starts some lines further down is read alike, and all that is reported while it
is read stands as many lines further down. -/
theorem parse_down (p : Parser) (comment : Comment) {n : Nat} (hn : 1 ≤ n)
    (hexact : n + (expandAliases p.options comment).1.length + 1 < Whole.exactBound) :
    let first := p.parse { comment with startLine := some 1 }
    let later := p.parse { comment with startLine := some n }
    later.1.root = first.1.root ∧ later.1.failure = first.1.failure ∧ later.2 = first.2 ∧
      later.1.aliasDiagnostics = first.1.aliasDiagnostics ∧
      later.1.events = first.1.events.map (Event.down (n - 1)) ∧
      later.1.diagnostics = first.1.aliasDiagnostics ++
        (first.1.diagnostics.drop first.1.aliasDiagnostics.length).map
          (Diagnostic.down (n - 1)) := by
  intro first later
  have hfirst := parse_startingAt p comment (some 1)
  have hlater := parse_startingAt p comment (some n)
  have hevents : later.1.events = first.1.events.map (Event.down (n - 1)) := by
    show (p.parse _).1.events = (p.parse _).1.events.map _
    rw [hlater, hfirst, List.map_map]
    exact List.map_congr_left fun event _ => Event.startingAt_natCast hn hexact event
  have halias : later.1.aliasDiagnostics = first.1.aliasDiagnostics := by
    show (p.parse _).1.aliasDiagnostics = (p.parse _).1.aliasDiagnostics
    rw [hlater, hfirst]
  refine ⟨?_, ?_, ?_, halias, hevents, ?_⟩
  · show (p.parse _).1.root = (p.parse _).1.root
    rw [hlater, hfirst]
  · show (p.parse _).1.failure = (p.parse _).1.failure
    rw [hlater, hfirst]
  · show (p.parse _).2 = (p.parse _).2
    rw [hlater, hfirst]
  · rw [Result.diagnostics, Result.diagnostics, halias, List.drop_left, hevents,
      List.filterMap_map, List.map_filterMap]
    congr 2
    funext event
    cases event <;> rfl

/-- A style that is never left and an unknown command, on the seventh line and the one below. -/
theorem parse_down_seventh_line :
    let comment : Comment := { text := units "<b>bold\n\\foo" }
    let first := ({} : Parser).parse { comment with startLine := some 1 }
    let later := ({} : Parser).parse { comment with startLine := some (7 : Nat) }
    first.1.diagnostics.map Diagnostic.line = [2, 2] ∧ later.1.root = first.1.root ∧
      later.1.diagnostics = first.1.diagnostics.map (Diagnostic.down 6) := by
  intro comment first later
  have hdown := parse_down {} comment (n := 7) (by decide) (by decide)
  obtain ⟨hroot, -, -, -, -, hdiagnostics⟩ := hdown
  exact ⟨by decide +kernel, hroot, hdiagnostics⟩

/-- A reference that alias expansion stops at is reported on the first line, wherever the comment
starts. -/
theorem parse_keeps_alias_line :
    let aliases := (AliasTable.ofLines [units "loop=\\loop"] AliasTable.settingsFile).1
    let p : Parser := { options := { aliases := some aliases } }
    let comment : Comment := { text := units "\\loop" }
    let first := p.parse { comment with startLine := some 1 }
    let later := p.parse { comment with startLine := some (10 : Nat) }
    first.1.diagnostics.map Diagnostic.line = [1, 1] ∧
      later.1.diagnostics.map Diagnostic.line = [1, 10] ∧
      later.1.diagnostics ≠ first.1.diagnostics.map (Diagnostic.down (10 - 1)) := by
  intro aliases p comment first later
  have hexpand (line : Number) : expandAliases p.options { comment with startLine := some line } =
      (units "\\loop", [(Problem.recursiveAlias (units "loop")).toDiagnostic (some (units "loop"))
        Comment.anonymous 1 0 0]) := by
    show aliases.expand (units "\\loop") Comment.anonymous = _
    rw [AliasTable.expand_eq]
    decide +kernel
  have hfirst : first.1.diagnostics.map Diagnostic.line = [1, 1] := by
    show (p.parse _).1.diagnostics.map Diagnostic.line = [1, 1]
    unfold parse
    rw [hexpand]
    decide +kernel
  have hlater : later.1.diagnostics.map Diagnostic.line = [1, 10] := by
    show (p.parse _).1.diagnostics.map Diagnostic.line = [1, 10]
    unfold parse
    rw [hexpand]
    decide +kernel
  refine ⟨hfirst, hlater, fun heq => ?_⟩
  have hdown : (first.1.diagnostics.map (Diagnostic.down (10 - 1))).map Diagnostic.line =
      (first.1.diagnostics.map Diagnostic.line).map (· + ((10 - 1 : Nat) : Number)) := by
    rw [List.map_map, List.map_map]
    rfl
  rw [← heq, hlater, hfirst] at hdown
  exact absurd hdown (by decide +kernel)

end Parser

end DocMarkup
