import DocMarkup.Proofs.Parser.Readings
import DocMarkup.Proofs.Parser.Run

/-!
The token in hand is the last piece of the text that was read, however far it travels, so what is
read with it begins where it ends.
-/

namespace DocMarkup.Parser

namespace Machine

variable {m m' : Machine} {token : Token}

/-! ### Tokens that are taken -/

theorem close_ne_take (outcome : Outcome) : (m.close outcome).phase ≠ .take token := by
  unfold close
  split <;> nofun

theorem closeParagraph_ne_take (outcome : Outcome) :
    (m.closeParagraph outcome).phase ≠ .take token := by
  unfold closeParagraph
  split <;> nofun

theorem openItem_ne_take (other : Token) : (m.openItem other).phase ≠ .take token := by
  unfold openItem
  split
  · split <;> nofun
  · nofun

theorem itemEnded_ne_take (list : AutoList) (next : Whole) (outcome : Outcome) :
    (m.itemEnded list next outcome).phase ≠ .take token := by
  unfold itemEnded
  dsimp only
  split
  · split_ifs
    · exact openItem_ne_take _
    · exact close_ne_take _
    · exact close_ne_take _
  · exact close_ne_take _

theorem blockParagraphEnded_ne_take (outcome : Outcome) (isEnd : Token → Bool) :
    (m.blockParagraphEnded outcome isEnd).phase ≠ .take token := by
  unfold blockParagraphEnded
  split
  · nofun
  · split <;> exact close_ne_take _
  · exact close_ne_take _

theorem sectionPartEnded_take {outcome : Outcome} {unexpected : Text → Problem}
    (h : (m.sectionPartEnded outcome unexpected).phase = .take token) :
    outcome = .handBack token := by
  unfold sectionPartEnded at h
  split at h
  · split at h <;> cases h
    rfl
  · cases h

theorem partEnded_take {opener : Token} {outcome : Outcome}
    (h : (m.partEnded opener outcome).phase = .take token) : outcome = .handBack token := by
  unfold partEnded at h
  split at h
  · exact absurd h (close_ne_take _)
  · cases h
    rfl
  · cases h

theorem cellEnded_take {outcome : Outcome} (h : (m.cellEnded outcome).phase = .take token) :
    outcome = .handBack token := by
  unfold cellEnded at h
  split at h
  · cases h
    rfl
  · exact absurd h (close_ne_take _)
  · cases h

/-- Once a construct has ended, no token is taken but one that it handed back. -/
theorem resume_take {outcome : Outcome} (h : (m.resume outcome).phase = .take token) :
    outcome = .handBack token := by
  unfold resume at h
  split at h
  · cases h
  · next frame outer _ =>
    cases hconstruct : frame.construct <;> rw [hconstruct] at h <;> dsimp only at h
    case root =>
      split at h
      · cases h
      · exact sectionPartEnded_take h
    case sect =>
      split at h
      · exact absurd h (close_ne_take _)
      · exact sectionPartEnded_take h
    case paragraph =>
      split at h
      · cases h
      · cases h
        rfl
      · exact absurd h (closeParagraph_ne_take _)
    case autoListItem =>
      split at h
      · split at h
        · cases h
        · exact absurd h (close_ne_take _)
      · exact absurd h (close_ne_take _)
    case autoList => exact absurd h (itemEnded_ne_take _ _ _)
    case simpleList =>
      split at h
      · split at h
        · cases h
        · exact absurd h (close_ne_take _)
      · exact absurd h (close_ne_take _)
    case internal => exact absurd h (blockParagraphEnded_ne_take _ _)
    case parBlock => exact absurd h (blockParagraphEnded_ne_take _ _)
    case listItem => exact absurd h (blockParagraphEnded_ne_take _ _)
    case descData => exact absurd h (blockParagraphEnded_ne_take _ _)
    case blockQuote => exact absurd h (blockParagraphEnded_ne_take _ _)
    case cell =>
      split at h
      · cases h
      · split at h
        · cases h
        · exact absurd h (close_ne_take _)
      · exact absurd h (close_ne_take _)
    case list => exact partEnded_take h
    case descList => exact partEnded_take h
    case table => exact partEnded_take h
    case row => exact cellEnded_take h
    all_goals exact absurd h (close_ne_take _)

/-! ### Tokens and their arguments -/

/-- What comes next when arguments were read with a token: nothing is left in hand, or the token
behind a style command that styles no word. -/
inductive HandAfter (s : Scanner) (arguments : Arguments) (phase : Phase) : Prop
  | unread (hnone : arguments = .done)
  | empty (hphase : phase.hand? = none)
  | picks (hreads : arguments = .one .word)
      (hphase : phase = .take s.skipHorizontalSpace.scan.token)

theorem handAfter_styledWord (token : Token) (style : Style) :
    HandAfter m.scanner (.one .word) (m.styledWord token style).phase := by
  unfold styledWord
  dsimp only
  split
  · exact .empty rfl
  · exact .picks rfl rfl

theorem phase_simpleSection (hm : m.insideSection = false) (token : Token)
    (type : SimpleSectionType) : (m.simpleSection token type).phase = .read := by
  unfold simpleSection
  rw [if_neg (by simp [hm])]
  dsimp only
  split <;> rfl

theorem phase_paramSection (hm : m.insideSection = false) (token : Token)
    (type : ParamSectionType) : (m.paramSection token type).phase = .read := by
  unfold paramSection
  rw [if_neg (by simp [hm])]
  rfl

theorem phase_xrefItem (hm : m.insideSection = false) (token : Token) :
    (m.xrefItem token).phase = .read := by
  unfold xrefItem
  rw [if_neg (by simp [hm])]
  rfl

theorem handAfter_command (token : Token) :
    HandAfter m.scanner (m.commandReads token) (m.command token).phase := by
  show HandAfter (m.record (.entered token.value)).scanner
    ((m.record (.entered token.value)).commandReads token) (m.command token).phase
  rw [command]
  generalize m.record (.entered token.value) = m
  have hread {arguments : Arguments} {phase : Phase} (hphase : phase = .read) :
      HandAfter m.scanner arguments phase := .empty (by rw [hphase]; rfl)
  have hunlessBack (arguments : Arguments) {phase : Phase}
      (hphase : m.insideSection = false → phase = .read) :
      HandAfter m.scanner (if m.insideSection then .done else arguments) phase := by
    cases hinside : m.insideSection with
    | true => exact .unread rfl
    | false => exact hread (hphase hinside)
  unfold commandReads
  dsimp only
  cases Command.ofName token.value with
  | word style => exact handAfter_styledWord token style
  | simpleSection type => exact hunlessBack _ fun hinside => phase_simpleSection hinside token type
  | paramSection type => exact hunlessBack _ fun hinside => phase_paramSection hinside token type
  | xrefItem => exact hunlessBack _ fun hinside => phase_xrefItem hinside token
  | verbatim type ending => exact hread rfl
  | inclusion type => exact hread (phase_inclusion token type)
  | includeStep operator => exact hread rfl
  | diagramFile type => exact hread (phase_diagramFile token type)
  | anchor => exact hread (phase_anchor token)
  | indexEntry => exact hread phase_indexEntry
  | reference isSubPage => exact hread (phase_reference token isSubPage)
  | link => exact hread (phase_link token)
  | citation => exact hread (phase_citation token)
  | internalReference => exact hread (phase_internalReference token)
  | copy brief details => exact hread (phase_copy token brief details)
  | image => exact hread (phase_image token)
  | formula => exact hread rfl
  | _ => exact .unread rfl

theorem handAfter_takeInParagraph (token : Token) :
    HandAfter m.scanner (if token.kind == .command then m.commandReads token else .done)
      (m.takeInParagraph token).phase := by
  unfold takeInParagraph
  cases token.kind with
  | command => exact handAfter_command token
  | _ => exact .unread rfl

theorem handAfter_takeInline (construct : Construct) (token : Token) :
    HandAfter m.scanner (inlineReads construct token) (m.takeInline construct token).phase := by
  unfold inlineReads
  split
  · exact .unread rfl
  · next hcommand =>
    rw [Bool.or_eq_true, not_or, Bool.not_eq_true, bne_iff_ne, not_not] at hcommand
    split
    · next style hname =>
      rw [takeInline, if_neg (by simp [hcommand.1]), hcommand.2]
      dsimp only
      rw [hname]
      exact handAfter_styledWord token style
    · exact .unread rfl

theorem handAfter_takeInRefList (opener token : Token) :
    HandAfter m.scanner (if token.isCommand ["refitem"] then .all [.argument, .line] else .done)
      (m.takeInRefList opener token).phase := by
  unfold takeInRefList
  split
  · exact .empty rfl
  · exact .unread rfl

theorem handAfter_dispatch (token : Token) :
    HandAfter m.scanner (m.tokenReads token) (m.dispatch token).phase := by
  unfold dispatch tokenReads
  cases hstack : m.stack with
  | nil => exact .unread rfl
  | cons frame outer =>
      dsimp only
      cases frame.construct <;> dsimp only
      case root =>
        cases sectionLevel? token with
        | none => exact .unread rfl
        | some level => exact .empty rfl
      case sect sect =>
        cases sectionLevel? token with
        | none => exact .unread rfl
        | some level =>
            rw [Option.any_some]
            by_cases hle : level ≤ sect.level
            case pos =>
              rw [decide_eq_false (Nat.not_lt.2 hle)]
              exact .unread rfl
            case neg =>
              dsimp only
              rw [if_neg hle]
              exact .empty rfl
      case paragraph => exact handAfter_takeInParagraph token
      case refList opener => exact handAfter_takeInRefList opener token
      case descTitle => exact handAfter_takeInline ..
      case caption => exact handAfter_takeInline ..
      case header => exact handAfter_takeInline ..
      case hyperlink => exact handAfter_takeInline ..
      case link => exact handAfter_takeInline ..
      all_goals exact .unread rfl

/-! ### Steps -/

/-- What a step does with what is in hand: nothing is left, or it stays and nothing is read, or the
token that was read last is in hand then. -/
inductive Hands (m m' : Machine) : Prop
  | empty (h : m'.phase.hand? = none)
  | keeps (hnone : m.reads = .done) (h : m'.phase.hand? = m.phase.hand?)
  | picks (token : Token) (h : m'.phase.hand? = some token)
      (hread : m.readings.getLast?.bind Reading.token? = some token)
      (hlast : m'.scanner.token = token)

/-- A token in hand is the last that was scanned. -/
def Holds (m : Machine) : Prop := ∀ token, m.phase.hand? = some token → m.scanner.token = token

theorem token_of_place {s : Scanner} (h : m.place = s.place) : m.scanner.token = s.token :=
  congrArg (fun place => { place.2 with stop := place.1.offset }) h

/-- A scan that leads to a token puts it in hand. -/
theorem hands_scan (hreads : m.reads = .one .token)
    (hphase : m.step.phase = .take m.scanner.scan.token) : Hands m m.step := by
  have hplace := m.place_step
  rw [hreads, behind_one] at hplace
  refine .picks m.scanner.scan.token (by rw [hphase]; rfl) ?_ (token_of_place hplace)
  rw [readings, hreads]
  rfl

/-- The token that a construct without further arguments leaves in hand is the one it had. -/
theorem Goes.hands {ends : Outcome → Prop} (h : Goes m ends m') (hnone : m.reads = .done)
    (hends : ∀ token, ends (.handBack token) → m.phase.hand? = some token)
    (hscans : ∀ token, m'.phase = .take token → m'.scanner.token = token →
      m.phase.hand? = some token) : Hands m m' := by
  cases h with
  | reads _ _ hphase => exact .empty (hand?_of_isReading hphase)
  | scans token _ _ hphase htoken =>
      refine .keeps hnone ?_
      rw [hscans token hphase htoken.isLast, hphase]
      rfl
  | opens _ _ _ _ hphase => exact .empty (hand?_of_isReading (Phase.isReading_of_readsAnew hphase))
  | opensTwo _ _ _ _ _ _ hphase =>
      exact .empty (hand?_of_isReading (Phase.isReading_of_readsAnew hphase))
  | leaves outcome _ _ hphase hends' =>
      cases outcome with
      | handBack token =>
          refine .keeps hnone ?_
          rw [hends token hends', hphase]
          rfl
      | complete | endOfText | newParagraph =>
          refine .empty ?_
          rw [hphase]
          rfl

theorem Turn.hands (h : Turn m m') (hnone : m.reads = .done) (hreading : m.phase.isReading = false)
    (hscans : ∀ token, m'.phase = .take token → m'.scanner.token = token →
      m.phase.hand? = some token) : Hands m m' := by
  cases h with
  | scans _ hphase => exact absurd (hphase.symm.trans hreading) nofun
  | reads hphase => exact absurd (hphase.symm.trans hreading) nofun
  | takes token hphase _ h =>
      refine h.hands hnone (fun other hother => ?_) hscans
      obtain rfl : other = token := by simpa [endsWith] using hother
      rw [hphase]
      rfl
  | opensFor token hphase _ _ _ hphase' => exact .keeps hnone (by rw [hphase, hphase'])
  | resumes outcome hphase _ h =>
      refine h.hands hnone (fun other hother => ?_) hscans
      obtain rfl : .handBack other = outcome := by simpa [endsAfter] using hother
      rw [hphase]
      rfl
  | retakes token hphase _ hphase' =>
      refine .keeps hnone ?_
      rw [hphase, hphase']
      rfl
  | closes _ _ _ hphase' =>
      refine .empty ?_
      rw [hphase']
      rfl
  | finishes => exact .empty rfl

theorem continueWord_hands {style : Style} (hphase : m.phase = .readWord style) :
    Hands m m.step := by
  have hword : m.step = if m.next.1.isInWord then
      { m.next.2.addInWord m.next.1 with phase := .readWord style }
    else (m.next.2.changeStyle style false m.next.1.start []).take m.next.1 := by
    rw [step, hphase]
    rfl
  by_cases hin : m.next.1.isInWord
  case pos =>
    rw [hword, if_pos hin]
    exact .empty rfl
  case neg =>
    refine hands_scan (by rw [reads, hphase]) ?_
    rw [hword, if_neg hin]
    rfl

theorem dispatch_hands (hm : m.Ready) (hholds : m.Holds) (hphase : m.phase = .take token) :
    Hands m m.step := by
  have hstep : m.step = m.dispatch token := by rw [step, hphase]
  have hreads : m.reads = m.tokenReads token := by rw [reads, hphase]
  have hplace := m.place_step
  cases m.handAfter_dispatch token with
  | unread hnone =>
      have hnone : m.reads = .done := hreads.trans hnone
      rw [hnone, behind_done] at hplace
      refine (step_turn hm (by simp [hphase])).hands hnone (by rw [hphase]; rfl) ?_
      intro other _ hother
      have hlast := hholds token (by rw [hphase]; rfl)
      rw [hphase, ← hother, ← hlast]
      exact congrArg some (token_of_place hplace).symm
  | empty hempty => exact .empty (hstep ▸ hempty)
  | picks hword htake =>
      have hword : m.reads = .one .word := hreads.trans hword
      rw [hword, behind_one] at hplace
      refine .picks _ (by rw [hstep, htake]; rfl) ?_ (token_of_place hplace)
      rw [readings, hword]
      rfl

/-- Every step keeps track of what is in hand. -/
theorem step_hands (hm : m.Ready) (hholds : m.Holds) : Hands m m.step := by
  cases hphase : m.phase with
  | read => exact hands_scan (by rw [reads, hphase]) (by rw [step, hphase]; rfl)
  | readSolid =>
      have hsolid : m.step = if m.next.1.isBlank then m.next.2.readSolid
          else m.next.2.take m.next.1 := by
        rw [step, hphase]
      by_cases hblank : m.next.1.isBlank
      case pos =>
        rw [hsolid, if_pos hblank]
        exact .empty rfl
      case neg =>
        refine hands_scan (by rw [reads, hphase]) ?_
        rw [hsolid, if_neg hblank]
        rfl
  | readWord style => exact continueWord_hands hphase
  | take token => exact dispatch_hands hm hholds hphase
  | ended outcome =>
      refine (step_turn hm (by simp [hphase])).hands (by rw [reads, hphase])
        (by rw [hphase]; rfl) ?_
      intro token htake _
      rw [step, hphase] at htake
      rw [hphase, resume_take htake]
      rfl
  | finished =>
      have hstep : m.step = m := by rw [step, hphase]
      exact .keeps (by rw [reads, hphase]) (by rw [hstep])

/-- What is read in a step is read piece after piece, from where the scanner stands to where it
stands then. -/
theorem chain_readings (m : Machine) :
    Chain m.scanner.offset m.readings m.step.scanner.offset := by
  have hoffset : m.step.scanner.offset = (m.reads.run m.scanner).2.offset :=
    congrArg (fun place : Cursor × Token => place.1.offset) m.place_step
  rw [hoffset]
  exact chain_run ..

/-- Where a piece was not kept, a token is taken. -/
theorem takes_of_after_lt {r : Reading} (hr : r ∈ m.readings) (hback : r.after < r.stop) :
    ∃ token, m.phase = .take token := by
  have hscan (hreads : m.reads = .one .token) : r = .of .token m.scanner := by
    rw [readings, hreads] at hr
    exact List.mem_singleton.1 hr
  have hdone (hreads : m.reads = .done) : r ∈ ([] : List Reading) := by
    rwa [readings, hreads] at hr
  cases hphase : m.phase with
  | take token => exact ⟨token, rfl⟩
  | ended | finished => exact absurd (hdone (by rw [reads, hphase])) List.not_mem_nil
  | read | readSolid | readWord =>
      rw [hscan (by rw [reads, hphase])] at hback
      exact absurd hback (lt_irrefl _)

end Machine

/-! ### Comments -/

/-- What is read in the first steps through a comment, in order. -/
def readings (p : Parser) (comment : Comment) (n : Nat) : List Reading :=
  (List.range n).flatMap fun k => (p.after comment k).readings

/-- How a comment is read up to a step and in it.  The texts of titles and captions are apart: they
are scanned again on their own. -/
structure ReadsInOrder (p : Parser) (comment : Comment) (n : Nat) : Prop where
  /-- A token that is taken, or goes back to be taken further out, ends where the scanner stands,
  and nothing was read after it. -/
  stands : ∀ token, (p.after comment n).phase.hand? = some token →
    (p.after comment n).scanner.offset = token.stop ∧
      (p.readings comment n).getLast?.bind Reading.token? = some token
  /-- What the step reads is what is read with that token, from there on. -/
  reads : (p.after comment (n + 1)).scanner.place =
    ((p.after comment n).reads.run (p.after comment n).scanner).2.place
  follows : Chain (p.after comment n).scanner.offset (p.after comment n).readings
    (p.after comment (n + 1)).scanner.offset
  /-- No unit belongs to two tokens or arguments. -/
  apart : ((p.readings comment n).filter Reading.isKept).Pairwise fun a b => a.stop ≤ b.start
  /-- The scanner moves back for nothing but a size or an argument in quotes that is none, and not
  before the end of the token in hand. -/
  back : ∀ r ∈ (p.after comment n).readings, r.after < r.stop →
    (r.reader = .size ∨ r.reader = .quoted) ∧ r.argument? = none ∧ r.after = r.before ∧
      ∃ token, (p.after comment n).phase = .take token ∧ token.stop ≤ r.after

variable (p : Parser) (comment : Comment) (n : Nat)

theorem readings_succ :
    p.readings comment (n + 1) = p.readings comment n ++ (p.after comment n).readings := by
  rw [readings, List.range_succ, List.flatMap_append, List.flatMap_singleton, readings]

theorem chain_readings_after :
    Chain 0 (p.readings comment n) (p.after comment n).scanner.offset := by
  induction n with
  | zero => exact .nil
  | succ n ih =>
      rw [readings_succ, after_succ]
      exact ih.append (Machine.chain_readings _)

/-- The token in hand was read last. -/
theorem holds_after : (p.after comment n).Holds ∧
    ∀ token, (p.after comment n).phase.hand? = some token →
      (p.readings comment n).getLast?.bind Reading.token? = some token := by
  have hfree {m : Machine} (hempty : m.phase.hand? = none) (token : Token) :
      m.phase.hand? ≠ some token := by
    rw [hempty]
    exact (Option.some_ne_none token).symm
  induction n with
  | zero =>
      exact ⟨fun token hhand => absurd hhand (hfree rfl token),
        fun token hhand => absurd hhand (hfree rfl token)⟩
  | succ n ih =>
      obtain ⟨hholds, hread⟩ := ih
      have hplace := (p.after comment n).place_step
      have hstep := Machine.step_hands (p.after_ready comment n) hholds
      rw [readings_succ, after_succ]
      generalize p.after comment n = m at hholds hread hplace hstep
      cases hstep with
      | empty hempty =>
          exact ⟨fun token hhand => absurd hhand (hfree hempty token),
            fun token hhand => absurd hhand (hfree hempty token)⟩
      | keeps hnone hkeeps =>
          have hreadings : m.readings = [] := by
            rw [Machine.readings, hnone]
            rfl
          rw [hnone, Machine.behind_done] at hplace
          rw [Machine.Holds, hkeeps, hreadings, List.append_nil]
          refine ⟨fun token hhand => ?_, hread⟩
          exact (Machine.token_of_place hplace).trans (hholds token hhand)
      | picks token hpicks hlast hscanner =>
          rw [Machine.Holds, hpicks]
          refine ⟨?_, ?_⟩
          · rintro _ ⟨⟩
            exact hscanner
          · rintro _ ⟨⟩
            obtain ⟨r, hr, htoken⟩ := Option.bind_eq_some_iff.1 hlast
            rw [List.getLast?_append, hr]
            exact htoken

theorem stop_of_hand {token : Token} (h : (p.after comment n).phase.hand? = some token) :
    (p.after comment n).scanner.offset = token.stop := by
  have hchain := chain_readings_after p comment n
  obtain ⟨r, hr, htoken⟩ := Option.bind_eq_some_iff.1 ((holds_after p comment n).2 token h)
  obtain ⟨hstop, hafter⟩ := (hchain.proper r (List.mem_of_getLast? hr)).token token htoken
  rw [hstop, ← hafter, hchain.after_last hr]

/-- Every comment is read in order, at every step. -/
theorem reads_in_order : p.ReadsInOrder comment n where
  stands token h := ⟨stop_of_hand p comment n h, (holds_after p comment n).2 token h⟩
  reads := by
    rw [after_succ]
    exact (p.after comment n).place_step
  follows := by
    rw [after_succ]
    exact Machine.chain_readings _
  apart := (chain_readings_after p comment n).kept_pairwise
  back r hr hback := by
    have hchain := Machine.chain_readings (p.after comment n)
    obtain ⟨token, hphase⟩ := Machine.takes_of_after_lt hr hback
    have hstop := stop_of_hand p comment n (show _ = some token by rw [hphase]; rfl)
    have hafter := (hchain.first_le r hr).2.2
    rcases (hchain.proper r hr).stands with hkept | ⟨hbefore, hreader, hnone⟩
    · exact absurd hkept hback.ne
    · exact ⟨hreader, hnone, hbefore, token, hphase, hstop ▸ hafter⟩

/-- A caption and a size are looked for behind a picture in vain: the scanner goes back to the end
of its name, and the word there becomes a token. -/
example :
    (({} : Parser).readings { text := units "\\image html a.png wide" } 10).map
      (fun r => (r.start, r.stop, r.after)) =
    [(0, 6, 6), (7, 11, 11), (12, 17, 17), (18, 18, 17), (18, 22, 17), (17, 18, 18), (18, 22, 22),
      (22, 22, 22)] := by decide +kernel

end DocMarkup.Parser
