import DocMarkup.Proofs.Parser.Lines
import DocMarkup.Proofs.Parser.Termination
import DocMarkup.Proofs.Parser.Tracing
import DocMarkup.Proofs.Scanner.Tiling

/-!
The positions of reports.  A report made while a comment is read has the extent of a token that was
scanned in it, but for those of commands in the texts of a keyword; a report made at the end stands
at the end of the text.
-/

namespace DocMarkup

/-! ### Texts of keywords -/

namespace Lexeme

variable {t : Text} {lexeme : Lexeme}

/-- A keyword encloses its name and its text. -/
def Encloses (lexeme : Lexeme) : Prop :=
  lexeme.kind = .keyword → ∃ body, lexeme.payload = some body ∧
    lexeme.value.length ≤ lexeme.length ∧ body.length ≤ lexeme.length

theorem command?_encloses (h : command? t = some lexeme) : lexeme.Encloses := by
  obtain ⟨sign, rest, rfl, ⟨name, length, -, rfl⟩ | ⟨bracket, more, rfl, -, rfl⟩ | rfl⟩ :=
    command?_shape h
  all_goals rintro ⟨⟩

theorem tag?_encloses (h : tag? t = some lexeme) : lexeme.Encloses := by
  intro hkeyword
  rcases tag?_kind h with hkind | hkind <;> cases hkeyword.symm.trans hkind

theorem entity?_encloses (h : entity? t = some lexeme) : lexeme.Encloses := by
  obtain ⟨body, kind, value, -, rfl, ⟨-, rfl, -⟩ | ⟨-, rfl, -⟩⟩ := entity?_shape h
  all_goals rintro ⟨⟩

theorem length_trim_le (t : Text) : (Text.trim t).length ≤ t.length :=
  (length_dropWhileRight_le _ _).trans (List.length_dropWhile_le ..)

theorem keyword?_encloses (h : keyword? t = some lexeme) : lexeme.Encloses := by
  obtain ⟨u, name, body, after, -, -, -, rfl⟩ := keyword?_shape h
  have htrim := length_trim_le body
  exact fun _ => ⟨_, rfl, by dsimp only; omega, by dsimp only; omega⟩

theorem marked?_encloses (h : marked? t = some lexeme) : lexeme.Encloses := by
  rcases marked?_forms h with ⟨u, rest, rfl, -, hcommand⟩ | htag | hentity | hkeyword
  · exact command?_encloses hcommand
  · exact tag?_encloses htag
  · exact entity?_encloses hentity
  · exact keyword?_encloses hkeyword

theorem next_encloses (insidePre insideList atLineStart : Bool) (t : Text) :
    (next insidePre insideList atLineStart t).Encloses := by
  rcases next_forms insidePre insideList atLineStart t with
    ⟨-, -, hitem | hend⟩ | ⟨-, heq⟩ | ⟨-, heq⟩
  · obtain ⟨found, -, hfound⟩ := Option.map_eq_some_iff.1 hitem
    rw [← hfound]
    rintro ⟨⟩
  · obtain ⟨found, -, hfound⟩ := Option.map_eq_some_iff.1 hend
    rw [← hfound]
    rintro ⟨⟩
  · rw [heq]
    intro hkeyword
    rcases whiteSpace_kind insidePre insideList t with hkind | hkind <;>
      cases hkeyword.symm.trans hkind
  · rw [heq]
    rcases plain_forms t with hmarked | haddress | hmail | hword
    · exact marked?_encloses hmarked
    · intro hkeyword
      cases hkeyword.symm.trans (address?_kind haddress).1
    · intro hkeyword
      cases hkeyword.symm.trans (mail?_kind hmail)
    · rw [hword]
      rintro ⟨⟩

end Lexeme

namespace Scanner

/-- Every token of a text is a tile of it. -/
theorem readTokens_isTile (n : Nat) (s : Scanner) :
    ∀ token ∈ (s.readTokens n).1, ∃ place, token.IsTile s.text place := by
  induction n generalizing s with
  | zero => exact fun _ hnone => absurd hnone List.not_mem_nil
  | succ n ih =>
      unfold readTokens
      dsimp only
      split
      · intro token htoken
        rw [List.mem_singleton.1 htoken]
        exact ⟨_, s.scan_isTile⟩
      · refine List.forall_mem_cons.2 ⟨⟨_, s.scan_isTile⟩, ?_⟩
        have htext : s.scan.text = s.text := (advances_scan s).text
        exact htext ▸ ih s.scan

/-- The texts of a keyword are no longer than the text it stands in. -/
theorem length_le_of_keyword (s : Scanner) (hkind : s.scan.token.kind = .keyword) :
    s.scan.token.value.length ≤ s.text.length ∧ s.scan.token.text.length ≤ s.text.length := by
  have hencloses : (s.lexeme (skipComments s.cursor)).Encloses := by
    unfold lexeme
    split
    · rintro ⟨⟩
    · exact Lexeme.next_encloses _ _ _ _
  have hfits := (s.lexeme_fits (skipComments s.cursor)).length_le
  have hahead := (skipComments s.cursor).offset_add_length_ahead
  rw [(skipComments_spec s.cursor).1] at hahead
  obtain ⟨body, hpayload, hvalue, hbody⟩ := hencloses hkind
  have htext : s.scan.token.text = body := by
    show (s.lexeme (skipComments s.cursor)).payload.getD _ = body
    rw [hpayload, Option.getD_some]
  have hlength : (skipComments s.cursor).ahead.length ≤ s.text.length :=
    hahead ▸ Nat.le_add_left ..
  exact ⟨hvalue.trans (hfits.trans hlength), htext ▸ hbody.trans (hfits.trans hlength)⟩

end Scanner

/-- What stands in the texts of a keyword has its place in a text that is no longer than the
comment. -/
theorem Token.stop_le_of_mem_tokensWithin {s : Scanner} {command : Token}
    (hkind : s.scan.token.kind = .keyword) (hcommand : command ∈ s.scan.token.tokensWithin) :
    command.start ≤ command.stop ∧ command.stop ≤ s.text.length := by
  obtain ⟨hvalue, hbody⟩ := s.length_le_of_keyword hkind
  rcases List.mem_append.1 hcommand with hcommand | hcommand
  · obtain ⟨place, htile⟩ := (Scanner.ofText s.scan.token.value).readTokens_isTile _ _ hcommand
    exact ⟨htile.start_le, htile.stop_le.trans hvalue⟩
  · obtain ⟨place, htile⟩ := (Scanner.ofText s.scan.token.text).readTokens_isTile _ _ hcommand
    exact ⟨htile.start_le, htile.stop_le.trans hbody⟩

namespace Parser

/-! ### Tokens of a comment -/

/-- A token that was scanned while a comment was read: the scanner moved past it in some step. -/
def Emits (p : Parser) (comment : Comment) (token : Token) : Prop :=
  ∃ n, (p.after comment n).Emits (p.after comment (n + 1)) token

theorem after_text (p : Parser) (comment : Comment) (n : Nat) :
    (p.after comment n).scanner.text = (expandAliases p.options comment).1 :=
  (Machine.run_follows (start_ready p _) n).text

/-- Steps keep track of the tokens of a comment. -/
theorem after_traced (p : Parser) (comment : Comment) (n : Nat) :
    (p.after comment n).Traced (p.Emits comment) := by
  induction n with
  | zero =>
      refine ⟨⟨?_, ?_⟩, ?_⟩
      · rintro f hf token htoken
        rw [List.mem_singleton.1 hf] at htoken
        cases htoken
      · exact fun d hd => absurd hd List.not_mem_nil
      · rintro _ ⟨⟩
  | succ n ih =>
      rw [after_succ]
      refine ih.step fun token htoken => ⟨n, ?_⟩
      rw [after_succ]
      exact htoken

/-- Tokens of a comment lie in its text. -/
theorem Emits.stop_le {p : Parser} {comment : Comment} {token : Token} (h : p.Emits comment token) :
    token.start ≤ token.stop ∧ token.stop ≤ (expandAliases p.options comment).1.length := by
  obtain ⟨n, s, hadvances, -, rfl⟩ := h
  rw [← after_text p comment n, ← hadvances.text]
  exact ⟨s.scan_isTile.start_le, s.scan_isTile.stop_le⟩

/-- What is reported while a comment is read lies in its text. -/
theorem stop_le_of_placed {p : Parser} {comment : Comment} {d : Diagnostic}
    (h : d.Placed (p.Emits comment)) :
    d.start ≤ d.stop ∧ d.stop ≤ (expandAliases p.options comment).1.length := by
  cases h with
  | atToken token htoken hstart hstop =>
      rw [hstart, hstop]
      exact htoken.stop_le
  | inKeyword keyword command hkeyword hkind hcommand _ _ hstart hstop =>
      obtain ⟨n, s, hadvances, -, rfl⟩ := hkeyword
      rw [hstart, hstop, ← after_text p comment n, ← hadvances.text]
      exact Token.stop_le_of_mem_tokensWithin hkind hcommand

/-- Lines are counted from the line a comment starts on. -/
theorem line_eq_of_reported {p : Parser} {comment : Comment} {d : Diagnostic}
    (h : .reported d ∈ (p.parse comment).1.events) :
    d.line = (comment.startLine.getD 1 +
      (Text.lineOf (expandAliases p.options comment).1 d.start : Nat)).pred := by
  have hparse := parse_startingAt p comment comment.startLine
  rw [show { comment with startLine := comment.startLine } = comment from rfl] at hparse
  rw [hparse] at h
  obtain ⟨event, -, hevent⟩ := List.mem_map.1 h
  cases event with
  | reported d' =>
      obtain rfl := Event.reported.inj hevent
      rfl
  | scanned command => cases hevent
  | entered command => cases hevent
  | asked request => cases hevent

/-- As long as lines are counted exactly, they go on from the first by the line feeds. -/
theorem line_eq_natCast {t : Text} {offset n : Nat} (h : n + t.length + 1 < Whole.exactBound) :
    ((n : Number) + (Text.lineOf t offset : Nat)).pred =
      (n + (t.take offset).count CodeUnit.lineFeed : Nat) := by
  have hcount : (t.take offset).count CodeUnit.lineFeed ≤ t.length :=
    List.count_le_length.trans (List.length_take_le' offset t)
  unfold Text.lineOf
  rw [Number.natCast_add_natCast (by omega), ← Nat.add_assoc]
  exact Number.pred_natCast (by omega)

/-- Every report lies in the text, on the line of its place.  One made at the end of the text
stands there; any other has the extent of a token that was scanned in the comment, or is that of a
command in the texts of a keyword and placed in these. -/
theorem parse_places (p : Parser) (comment : Comment) (haliases : p.options.aliases = none)
    (d : Diagnostic) (hd : d ∈ (p.parse comment).1.diagnostics) :
    (d.start ≤ d.stop ∧ d.stop ≤ comment.text.length) ∧
      d.line = (comment.startLine.getD 1 + (Text.lineOf comment.text d.start : Nat)).pred ∧
      (∀ n : Nat, comment.startLine.getD 1 = n →
        n + comment.text.length + 1 < Whole.exactBound →
        d.line = (n + (comment.text.take d.start).count CodeUnit.lineFeed : Nat)) ∧
      ((d.start = comment.text.length ∧ d.stop = comment.text.length) ∨
        d.Placed (p.Emits comment)) := by
  have hexpand : expandAliases p.options comment = (comment.text, []) := by
    unfold expandAliases
    rw [haliases]
  have halias : (p.parse comment).1.aliasDiagnostics = [] := congrArg Prod.snd hexpand
  have htext : (p.final comment).setting.text = comment.text :=
    (congrArg Setting.text (Machine.run_follows (start_ready p _) _).setting).trans
      (congrArg Prod.fst hexpand)
  have hreported : .reported d ∈ (p.parse comment).1.events := by
    rw [Result.diagnostics, halias, List.nil_append] at hd
    obtain ⟨event, hevent, hsome⟩ := List.mem_filterMap.1 hd
    cases event with
    | reported d' =>
        obtain rfl := Option.some.inj hsome
        exact hevent
    | scanned command => cases hsome
    | entered command => cases hsome
    | asked request => cases hsome
  have hline := line_eq_of_reported hreported
  rw [hexpand] at hline
  have hexact : ∀ n : Nat, comment.startLine.getD 1 = n →
      n + comment.text.length + 1 < Whole.exactBound →
      d.line = (n + (comment.text.take d.start).count CodeUnit.lineFeed : Nat) := by
    intro n hstart hbound
    rw [hline, hstart]
    exact line_eq_natCast hbound
  suffices hplace : (d.start = comment.text.length ∧ d.stop = comment.text.length) ∨
      d.Placed (p.Emits comment) by
    refine ⟨?_, hline, hexact, hplace⟩
    rcases hplace with ⟨hstart, hstop⟩ | hplaced
    · rw [hstart, hstop]
      exact ⟨le_rfl, le_rfl⟩
    · have hstop := stop_le_of_placed hplaced
      rwa [hexpand] at hstop
  rw [parse_events, List.mem_append, List.mem_reverse, List.mem_map] at hreported
  rcases hreported with hjournal | ⟨entered, -, hentered⟩
  · exact .inr ((after_traced p comment _).placed d hjournal)
  · obtain rfl := Event.reported.inj hentered
    exact .inl ⟨congrArg List.length htext, congrArg List.length htext⟩

/-- A report on the eighth line, at a command, and one at the end of the text. -/
theorem parse_places_eighth_line :
    let comment : Comment := { text := units "<b>bold\n\\foo x", startLine := some (7 : Nat) }
    let diagnostics := (({} : Parser).parse comment).1.diagnostics
    diagnostics.map (fun d => (d.start, d.stop)) = [(8, 12), (14, 14)] ∧
      ∀ d ∈ diagnostics, d.line = (8 : Nat) ∧
        (d.start = 14 ∧ d.stop = 14 ∨ d.Placed (({} : Parser).Emits comment)) := by
  intro comment diagnostics
  have hextents : diagnostics.map (fun d => (d.start, d.stop)) = [(8, 12), (14, 14)] := by
    decide +kernel
  refine ⟨hextents, fun d hd => ?_⟩
  obtain ⟨-, -, hline, hplace⟩ := parse_places {} comment rfl d hd
  refine ⟨(hline 7 rfl (by decide)).trans ?_, hplace⟩
  have hextent : (d.start, d.stop) ∈ [(8, 12), (14, 14)] := hextents ▸ List.mem_map_of_mem hd
  have hcount : ∀ place ∈ [(8, 12), (14, 14)],
      7 + (comment.text.take (Prod.fst place)).count CodeUnit.lineFeed = 8 := by decide +kernel
  exact congrArg _ (hcount _ hextent)

/-- A command in the text of a keyword is reported four units behind the start of the comment, where
no token of the comment is. -/
theorem parse_misplaces_in_keyword :
    let comment : Comment := { text := units "abc $Id: \\foo $" }
    ∃ d ∈ (({} : Parser).parse comment).1.diagnostics,
      (d.start, d.stop) = (0, 4) ∧ comment.text.length = 15 ∧
        ∀ token, ({} : Parser).Emits comment token → (token.start, token.stop) ≠ (0, 4) := by
  intro comment
  have hextents : (({} : Parser).parse comment).1.diagnostics.map (fun d => (d.start, d.stop)) =
      [(0, 4)] := by decide +kernel
  obtain ⟨d, hd, hextent⟩ := List.map_eq_singleton_iff.1 hextents
  refine ⟨d, by rw [hd]; exact List.mem_singleton_self d, hextent, by decide +kernel, ?_⟩
  rintro _ ⟨n, s, -, hscan, rfl⟩ hplace
  have hlast : ((({} : Parser).after comment (n + 1)).scanner.token.start,
      (({} : Parser).after comment (n + 1)).scanner.token.stop) = (0, 4) := by rwa [hscan]
  have hdone : (({} : Parser).after comment 20).phase = .finished := by decide +kernel
  have hfew : ∀ k < 20, ((({} : Parser).after comment (k + 1)).scanner.token.start,
      (({} : Parser).after comment (k + 1)).scanner.token.stop) ≠ (0, 4) := by decide +kernel
  rcases Nat.lt_or_ge n 20 with hn | hn
  · exact hfew n hn hlast
  · obtain ⟨more, rfl⟩ := Nat.exists_eq_add_of_le hn
    have hstays : ({} : Parser).after comment (20 + more + 1) = ({} : Parser).after comment 20 := by
      rw [Nat.add_assoc]
      exact (Machine.run_add 20 (more + 1) _).trans (Machine.run_of_finished hdone _)
    rw [hstays] at hlast
    exact hfew 19 (by decide) hlast

end Parser

end DocMarkup
