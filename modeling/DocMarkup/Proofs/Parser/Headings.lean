import DocMarkup.Proofs.Parser.SectionCommands

/-!
The pre-scan finds the sections that the parser makes, as long as it keeps pace with the parser.
The headings of the sections begun so far, with those that the pre-scan finds from there on, are the
same throughout a parse.
-/

namespace DocMarkup.Parser

/-! ### Headings of the constructs that are open -/

/-- The heading of a construct that is a section. -/
def Construct.heading? : Construct → Option Heading
  | sect s => some ⟨s.label, s.level, s.title⟩
  | _ => none

/-- A document or a section that ends is known by its heading and those of the sections in it. -/
theorem Frame.headings_toNode {f : Frame} (hsound : f.Sound)
    (hkind : f.construct.kind.holdsSections) :
    f.toNode.headings = f.construct.heading?.toList ++
      Node.headingsOf (f.children.filter (·.isKind .sect)).reverse := by
  have hconforms : f.toNode.Everywhere Node.Conforms := fun n hn =>
    (hsound.toNode_of_holdsSections hkind n hn).toConforms
  have hnode : f.toNode.content.heading? = f.construct.heading? ∧
      f.toNode.children = markParagraphs f.children.reverse := by
    obtain ⟨construct, children, id, madeFor⟩ := f
    cases construct <;> first
      | exact ⟨rfl, rfl⟩
      | cases hkind
  rw [hconforms.headings (by rw [f.kind_toNode]; exact hkind), hnode.1, hnode.2,
    filter_sect_markParagraphs, List.filter_reverse]

/-- The headings of the documents and sections that are open, and of the sections that have ended in
them, in document order. -/
def headingsIn : List (Construct × List Node) → List Heading
  | [] => []
  | (c, below) :: outer => headingsIn outer ++ (c.heading?.toList ++ Node.headingsOf below.reverse)

namespace Machine

variable {m m' : Machine} {token : Token} {level : Nat}

/-- The headings of the sections begun so far. -/
def headingsBegun (m : Machine) : List Heading := headingsIn (heldParts m.stack)

/-- The headings that the pre-scan finds from where the machine stands, with the token in hand still
to be taken up. -/
def headingsAhead (m : Machine) : List Heading :=
  m.phase.hand?.elim m.scanner.headings fun token =>
    ({ m.scanner with last := token } : Scanner).headingsFromLast

theorem headingsAhead_of_hand (h : m.phase.hand? = some token) :
    m.headingsAhead = ({ m.scanner with last := token } : Scanner).headingsFromLast := by
  rw [headingsAhead, h]
  rfl

theorem headingsAhead_of_none (h : m.phase.hand? = none) :
    m.headingsAhead = m.scanner.headings := by
  rw [headingsAhead, h]
  rfl

theorem headingsAhead_of_atEnd (h : m.scanner.cursor.ahead = []) : m.headingsAhead = [] := by
  cases hhand : m.phase.hand? with
  | none => exact (headingsAhead_of_none hhand).trans (Scanner.headings_of_atEnd h)
  | some token => exact (headingsAhead_of_hand hhand).trans (Scanner.headingsFromLast_of_atEnd h)

/-! ### What is ahead -/

/-- The pre-scan keeps pace with a step.  Where the step is done with a command other than those of
sections, the pre-scan reads on behind the command and the parser behind all that the command takes
with it; from either place the pre-scan comes to a common one without finding a section on the way.
And no list of references has a section command in it. -/
structure KeepsPace (m : Machine) : Prop where
  joins : ∀ token ∈ m.phase.hand?, token.kind = .command → sectionLevel? token = none →
    m.step.phase.hand? = none →
      SectionLabel.Joins (SectionLabel.taken { m.scanner with last := token }).2.cursor.ahead
        m.step.scanner.cursor.ahead
  noSections : m.innermost = .refList → ∀ token ∈ m.phase.hand?, sectionLevel? token = none

instance (m : Machine) : Decidable m.KeepsPace :=
  decidable_of_iff (_ ∧ _)
    ⟨fun ⟨hjoins, hnone⟩ => ⟨hjoins, hnone⟩, fun h => ⟨h.joins, h.noSections⟩⟩

theorem headingsAhead_of_scan {s : Scanner} (hscanner : m.scanner = s.scan)
    (h : m.phase.hand? = some s.scan.token ∨
      m.phase.hand? = none ∧ s.scan.token.kind ≠ .command) : m.headingsAhead = s.headings := by
  rw [s.headings_eq]
  rcases h with hhand | ⟨hnone, hkind⟩
  · rw [headingsAhead_of_hand hhand, hscanner]
    exact Scanner.headingsFromLast_eq_of_ahead rfl rfl rfl
  · rw [headingsAhead_of_none hnone, hscanner]
    exact (Scanner.headingsFromLast_of_ne_command hkind).symm

theorem headingsAhead_reading (hreading : m.phase.isReading) :
    m.step.headingsAhead = m.headingsAhead := by
  have hnext := m.scanner_next
  have hscanned {m' : Machine} (hscanner : m'.scanner = m.next.2.scanner)
      (h : m'.phase.hand? = some m.next.1 ∨ m'.phase.hand? = none ∧ m.next.1.kind ≠ .command) :
      m'.headingsAhead = m.scanner.headings :=
    headingsAhead_of_scan (hscanner.trans hnext) h
  rw [headingsAhead_of_none (hand?_of_isReading hreading)]
  unfold step
  cases hphase : m.phase with
  | read => exact hscanned rfl (.inl rfl)
  | readSolid =>
      dsimp only
      split
      · next hblank =>
        refine hscanned rfl (.inr ⟨rfl, fun hkind => ?_⟩)
        rw [Token.isBlank, hkind] at hblank
        cases hblank
      · exact hscanned rfl (.inl rfl)
  | readWord style =>
      dsimp only [continueWord]
      split
      · next hword =>
        refine hscanned (scanner_addInWord ..) (.inr ⟨rfl, fun hkind => ?_⟩)
        rw [Token.isInWord, hkind] at hword
        cases hword
      · exact hscanned (scanner_modifyTop ..) (.inl rfl)
  | take | ended | finished =>
      rw [hphase] at hreading
      cases hreading

theorem headingsAhead_congr (hahead : m'.scanner.cursor.ahead = m.scanner.cursor.ahead)
    (hhand : m'.phase.hand? = m.phase.hand?) : m'.headingsAhead = m.headingsAhead := by
  cases hphase : m.phase.hand? with
  | none =>
      rw [headingsAhead_of_none hphase, headingsAhead_of_none (hhand.trans hphase)]
      exact Scanner.headings_congr hahead
  | some token =>
      rw [headingsAhead_of_hand hphase, headingsAhead_of_hand (hhand.trans hphase)]
      exact Scanner.headingsFromLast_eq_of_ahead hahead rfl rfl

/-- The pre-scan catches up behind a command that the machine is done with. -/
theorem headingsAhead_of_done (hpace : m.KeepsPace) (hhand : m.phase.hand? = some token)
    (hkind : token.kind = .command) (hsect : sectionLevel? token = none)
    (hdone : m.step.phase.hand? = none) : m.step.headingsAhead = m.headingsAhead := by
  have hvalue : Command.sectionLevel? token.value = none := by
    rwa [sectionLevel?, hkind, if_pos (beq_self_eq_true _)] at hsect
  have hnone : (SectionLabel.taken { m.scanner with last := token }).1.bind
      SectionLabel.heading? = none := Scanner.heading_taken_eq_none hvalue
  rw [headingsAhead_of_none hdone, headingsAhead_of_hand hhand, Scanner.headingsFromLast, hnone]
  exact (hpace.joins token hhand hkind hsect hdone).headings.symm

/-- Where nothing is read and no section command is let go of, there is nothing new ahead. -/
theorem headingsAhead_of_place (hm : m.Ready) (hphase : m.phase ≠ .finished)
    (hreading : m.phase.isReading = false) (hpace : m.KeepsPace)
    (hsect : ∀ token level, m.phase.hand? = some token → sectionLevel? token = some level →
      m.step.phase.hand? = some token)
    (hplace : m.step.place = m.place) : m.step.headingsAhead = m.headingsAhead := by
  have hahead : m.step.scanner.cursor.ahead = m.scanner.cursor.ahead :=
    congrArg (fun place => place.1.ahead) hplace
  rcases (step_turn hm hphase).hand? hplace hreading with hdone | hkept | hend
  · cases hhand : m.phase.hand? with
    | none => exact headingsAhead_congr hahead (hdone.trans hhand.symm)
    | some token =>
        by_cases hkind : token.kind = .command
        · cases hlevel : sectionLevel? token with
          | none => exact headingsAhead_of_done hpace hhand hkind hlevel hdone
          | some level => cases hdone.symm.trans (hsect token level hhand hlevel)
        · rw [headingsAhead_of_none hdone, headingsAhead_of_hand hhand,
            Scanner.headingsFromLast_of_ne_command hkind]
          exact Scanner.headings_congr hahead
  · exact headingsAhead_congr hahead hkept
  · rw [headingsAhead_of_atEnd hend, headingsAhead_of_atEnd (hahead.trans hend)]

/-- Where no section is begun, the pre-scan finds from there on what it found before. -/
theorem headingsAhead_step (hm : m.Ready) (hphase : m.phase ≠ .finished) (hpace : m.KeepsPace)
    (hsect : ∀ token level, m.phase.hand? = some token → sectionLevel? token = some level →
      m.step.phase.hand? = some token) : m.step.headingsAhead = m.headingsAhead := by
  cases hreading : m.phase.isReading with
  | true => exact headingsAhead_reading hreading
  | false =>
      have hstays := headingsAhead_of_place hm hphase hreading hpace hsect
      cases hhand : m.phase.hand? with
      | none =>
          -- a construct has ended, and with no token for the one around it
          apply hstays
          unfold step
          cases hphase' : m.phase with
          | ended outcome => exact place_resume ..
          | take token =>
              rw [hphase'] at hhand
              cases hhand
          | read | readSolid | readWord =>
              rw [hphase'] at hreading
              cases hreading
          | finished => exact absurd hphase' hphase
      | some token =>
          cases step_handles hhand with
          | stays hplace => exact hstays hplace
          | takesUp hkind hdone =>
              cases hlevel : sectionLevel? token with
              | none => exact headingsAhead_of_done hpace hhand hkind hlevel hdone
              | some level => cases hdone.symm.trans (hsect token level hhand hlevel)
          | passes style hkind hname hphase' hscanner =>
              -- the machine has another token in hand by now, so the hypothesis says nothing
              obtain ⟨hraw, hlevel⟩ := Command.of_ofName_word hname
              have htaken : SectionLabel.taken { m.scanner with last := token } =
                  (none, { m.scanner with last := token }) :=
                Scanner.taken_of_plain_command hraw hlevel
              rw [headingsAhead_of_scan hscanner (.inl (by rw [hphase']; rfl)),
                Scanner.headings_skipHorizontalSpace, headingsAhead_of_hand hhand,
                Scanner.headingsFromLast, htaken]
              exact Scanner.headings_congr rfl

/-! ### Sections begun and ended -/

/-- The headings of a parse: those of the sections begun so far that have a label, and those that
the pre-scan finds ahead. -/
def headings (m : Machine) : List Heading :=
  m.headingsBegun.filter (·.label ≠ []) ++ m.headingsAhead

/-- A section is begun with the argument of the command as its label.  Only behind a label is there
a title. -/
theorem exists_openSection_eq (m : Machine) (token : Token) (level : Nat) :
    ∃ sect : Section,
      heldParts (m.openSection token level).stack = (.sect sect, []) :: heldParts m.stack ∧
      sect.level = level ∧ sect.label = m.scanner.readArgument.1.getD [] ∧
      (m.openSection token level).phase = .read ∧
      (sect.title, (m.openSection token level).scanner) =
        if m.scanner.readArgument.1.isSome then m.scanner.readArgument.2.readLine
        else ([], m.scanner.readArgument.2) := by
  unfold openSection argument restOfLine
  dsimp only
  generalize m.scanner.readArgument = read
  obtain ⟨label?, s⟩ := read
  cases label? with
  | none => exact ⟨_, rfl, rfl, rfl, rfl, rfl⟩
  | some label => exact ⟨_, rfl, rfl, rfl, rfl, rfl⟩

/-- A section is begun with the heading that the pre-scan finds.  A section without a label is none
for the pre-scan. -/
theorem headings_openSection (hlevel : sectionLevel? token = some level) :
    (m.openSection token level).headings = m.headingsBegun.filter (·.label ≠ []) ++
      ({ m.scanner with last := token } : Scanner).headingsFromLast := by
  obtain ⟨-, hraw, hlabeled, hne⟩ := Command.of_sectionLevel? (eq_of_sectionLevel? hlevel)
  have hkind := kind_of_sectionLevel? hlevel
  obtain ⟨sect, hheld, rfl, hlabel, hphase, hread⟩ := m.exists_openSection_eq token level
  obtain ⟨hargument, hahead⟩ :=
    @Scanner.readArgument_congr { m.scanner with last := token } m.scanner rfl
  have hbegun : (m.openSection token sect.level).headingsBegun =
      m.headingsBegun ++ [⟨sect.label, sect.level, sect.title⟩] := by
    rw [headingsBegun, hheld]
    rfl
  rw [headings, hbegun, List.filter_append, List.append_assoc,
    headingsAhead_of_none (by rw [hphase]; rfl), Scanner.headingsFromLast]
  congr 1
  cases hfound : m.scanner.readArgument.1 with
  | none =>
      have htaken : SectionLabel.taken { m.scanner with last := token } = _ :=
        Scanner.taken_of_readArgument_eq_none hkind hraw hlabeled (hargument.trans hfound)
      rw [hfound] at hread hlabel
      have hscanner := (Prod.mk.inj hread).2
      have hunlabeled : sect.label = [] := hlabel
      rw [htaken, hscanner, hunlabeled]
      exact (Scanner.headings_congr hahead).symm
  | some label =>
      obtain ⟨htaken, hrest⟩ :=
        Scanner.taken_of_readArgument_eq_some (s := { m.scanner with last := token })
          hkind hraw hlabeled (hargument.trans hfound) hne
      obtain ⟨hline, hbehind⟩ := Scanner.readLine_congr hahead
      rw [hfound] at hread hlabel
      obtain ⟨htitle, hscanner⟩ := Prod.mk.inj hread
      have hlabel : sect.label = label := hlabel
      have hne : label ≠ [] := Scanner.ne_nil_of_readArgument hfound
      rw [htaken, hrest, hscanner, hline, hlabel, htitle,
        List.filter_cons_of_pos (by simpa using hne)]
      exact congrArg (_ :: ·) (Scanner.headings_congr hbehind).symm

theorem headingsBegun_of_stack (h : m'.stack = m.stack) : m'.headingsBegun = m.headingsBegun := by
  rw [headingsBegun, headingsBegun, h]

/-- A section that ends takes its heading with it, and those of the sections in it. -/
theorem headingsBegun_close (hm : m.Ready) (hconforms : m.Conforms) (hkind : m.innermost = .sect)
    (outcome : Outcome) : (m.close outcome).headingsBegun = m.headingsBegun := by
  obtain ⟨f, c, below, rest, hsect, hf, hopen, hclosed, -⟩ :=
    exists_heldParts_close hm hkind outcome
  rw [headingsBegun, headingsBegun, hopen, hclosed]
  simp only [headingsIn, List.reverse_cons, Node.headingsOf_append, Node.headingsOf_cons,
    Node.headingsOf_nil, List.append_nil, List.append_assoc,
    f.headings_toNode (hconforms.sound.frame hf) (by rw [hsect]; rfl)]

/-- What a step does with the sections: it keeps them, with a section command that is in hand, or
begins one with the command. -/
inductive SectionStep (m m' : Machine) : Prop
  | keeps (hbegun : m'.headingsBegun = m.headingsBegun)
      (hhand : ∀ token level, m.phase.hand? = some token → sectionLevel? token = some level →
        m'.phase.hand? = some token)
  | begins (m₁ : Machine) (token : Token) (level : Nat) (hhand : m.phase.hand? = some token)
      (hlevel : sectionLevel? token = some level) (hbegun : m₁.headingsBegun = m.headingsBegun)
      (hscanner : m₁.scanner = m.scanner) (heq : m' = m₁.openSection token level)

theorem dispatch_sectionStep (hm : m.Ready) (hconforms : m.Conforms)
    (hkind : m.innermost.holdsSections) (hphase : m.phase = .take token) :
    SectionStep m (m.dispatch token) := by
  have hhand : m.phase.hand? = some token := by rw [hphase]; rfl
  have hparagraph : SectionStep m (m.openParagraph.take token) := by
    refine .keeps (congrArg headingsIn (heldParts_openParagraph hm.stacked hkind)) ?_
    intro other level hother hlevel
    exact hhand.symm.trans hother
  obtain ⟨f, outer, hstack, hinner, -⟩ := exists_openSection hkind
  unfold dispatch
  rw [hstack]
  dsimp only
  cases hconstruct : f.construct with
  | root singleLine =>
      dsimp only
      cases hlevel : sectionLevel? token with
      | none => exact hparagraph
      | some level =>
          refine .begins _ token level hhand hlevel (headingsBegun_of_stack ?_) ?_ rfl
          · split <;> rfl
          · split <;> rfl
  | sect s =>
      dsimp only
      cases hlevel : sectionLevel? token with
      | none => exact hparagraph
      | some level =>
          dsimp only
          split
          · rw [hconstruct] at hinner
            refine .keeps (headingsBegun_close hm hconforms hinner.symm _) ?_
            intro other _ hother _
            rw [phase_close hm.stacked]
            exact hhand.symm.trans hother
          · exact .begins m token level hhand hlevel rfl rfl rfl
  | _ =>
      rw [hconstruct] at hinner
      rw [← hinner] at hkind
      cases hkind

theorem SectionStep.of_none (hhand : m.phase.hand? = none)
    (hbegun : m'.headingsBegun = m.headingsBegun) : SectionStep m m' :=
  .keeps hbegun fun token _ htoken => by cases hhand.symm.trans htoken

theorem sectionPartEnded_sectionStep {outcome : Outcome} (hphase : m.phase = .ended outcome)
    (unexpected : Text → Problem) : SectionStep m (m.sectionPartEnded outcome unexpected) := by
  cases outcome with
  | handBack token =>
      have hhand : m.phase.hand? = some token := by rw [hphase]; rfl
      dsimp only [sectionPartEnded]
      split
      · refine .keeps rfl fun other level hother _ => ?_
        exact hhand.symm.trans hother
      · next hnone =>
        refine .keeps rfl fun other level hother hlevel => ?_
        obtain rfl := Option.some.inj (hhand.symm.trans hother)
        rw [hlevel] at hnone
        exact absurd rfl hnone
  | complete | endOfText | newParagraph => exact .of_none (by rw [hphase]; rfl) rfl

theorem resume_sectionStep (hm : m.Ready) (hconforms : m.Conforms)
    (hkind : m.innermost.holdsSections) {outcome : Outcome} (hphase : m.phase = .ended outcome) :
    SectionStep m (m.resume outcome) := by
  have hend {m' : Machine} (houtcome : outcome == .endOfText)
      (hbegun : m'.headingsBegun = m.headingsBegun) : SectionStep m m' :=
    .of_none (by rw [hphase, beq_iff_eq.1 houtcome]; rfl) hbegun
  obtain ⟨f, outer, hstack, hinner, -⟩ := exists_openSection hkind
  unfold resume
  rw [hstack]
  dsimp only
  cases hconstruct : f.construct with
  | root singleLine =>
      dsimp only
      split
      · next houtcome => exact hend houtcome (headingsBegun_of_stack hstack.symm)
      · exact sectionPartEnded_sectionStep hphase _
  | sect s =>
      dsimp only
      split
      · next houtcome =>
        rw [hconstruct] at hinner
        exact hend houtcome (headingsBegun_close hm hconforms hinner.symm _)
      · exact sectionPartEnded_sectionStep hphase _
  | _ =>
      rw [hconstruct] at hinner
      rw [← hinner] at hkind
      cases hkind

theorem step_sectionStep (hm : m.Ready) (hconforms : m.Conforms) (hphase : m.phase ≠ .finished)
    (hpace : m.KeepsPace) : SectionStep m m.step := by
  cases hkind : m.innermost.holdsSections with
  | false =>
      refine .keeps (congrArg headingsIn ((step_turn hm hphase).sameParts hkind).parts) ?_
      intro token level hhand hlevel
      unfold step
      cases hphase' : m.phase with
      | take other =>
          rw [hphase'] at hhand
          obtain rfl : other = token := Option.some.inj hhand
          refine hand_dispatch hm.stacked hlevel hkind fun hlist => ?_
          have hhand : m.phase.hand? = some other := by rw [hphase']; rfl
          cases (hpace.noSections hlist other hhand).symm.trans hlevel
      | ended outcome =>
          rw [hphase'] at hhand
          cases outcome with
          | handBack other =>
              obtain rfl : other = token := Option.some.inj hhand
              exact hand_resume hm.stacked hlevel hkind
          | complete | endOfText | newParagraph => cases hhand
      | read | readSolid | readWord | finished =>
          rw [hphase'] at hhand
          cases hhand
  | true =>
      rcases step_of_holdsSections hm hphase hkind with
        ⟨hreading, phase, heq⟩ | ⟨token, htake, heq⟩ | ⟨outcome, hended, heq⟩
      · rw [heq]
        exact .of_none (hand?_of_isReading hreading)
          (congrArg headingsIn (sameParts_next m phase).parts)
      · exact heq ▸ dispatch_sectionStep hm hconforms hkind htake
      · exact heq ▸ resume_sectionStep hm hconforms hkind hended

theorem headings_step (hm : m.Ready) (hconforms : m.Conforms) (hphase : m.phase ≠ .finished)
    (hpace : m.KeepsPace) : m.step.headings = m.headings := by
  cases step_sectionStep hm hconforms hphase hpace with
  | keeps hbegun hhand =>
      rw [headings, headings, hbegun, headingsAhead_step hm hphase hpace hhand]
  | begins m₁ token level hhand hlevel hbegun hscanner heq =>
      rw [heq, headings_openSection hlevel, headings, headingsAhead_of_hand hhand, hbegun, hscanner]

end Machine

/-! ### Comments -/

section

variable (p : Parser) (comment : Comment)

theorem after_zero_headings (haliases : p.options.aliases = none) :
    (p.after comment 0).headings =
      (SectionLabel.ofText comment.text).filterMap SectionLabel.heading? := by
  have htext : (expandAliases p.options comment).1 = comment.text := by
    unfold expandAliases
    rw [haliases]
  rw [← htext]
  rfl

/-- As long as the pre-scan keeps pace, the headings stay the same. -/
theorem after_headings {n : Nat} (h : ∀ k < n, (p.after comment k).KeepsPace) :
    (p.after comment n).headings = (p.after comment 0).headings := by
  induction n with
  | zero => rfl
  | succ n ih =>
      rw [← ih fun k hk => h k (Nat.lt_succ_of_lt hk)]
      by_cases hphase : (p.after comment n).phase = .finished
      · rw [after_of_finished hphase (Nat.le_succ n)]
      · rw [after_succ]
        exact Machine.headings_step (Machine.run_ready (start_ready p _) n)
          (Machine.run_conforms (start_ready p _) (start_conforms p _) n) hphase
          (h n (Nat.lt_succ_self n))

/-- The sections begun as long as the pre-scan keeps pace are the first that it finds. -/
theorem headingsBegun_of_keepsPace (haliases : p.options.aliases = none) {n : Nat}
    (h : ∀ k < n, (p.after comment k).KeepsPace) :
    (p.after comment n).headingsBegun.filter (·.label ≠ []) <+:
      (SectionLabel.ofText comment.text).filterMap SectionLabel.heading? := by
  rw [← after_zero_headings p comment haliases, ← after_headings p comment h]
  exact List.prefix_append _ _

end

end DocMarkup.Parser
