import DocMarkup.Proofs.Parser.Moves

/-!
What one step can do.  `Machine.Turn` lists every way in which a step leads from one machine to the
next; `Machine.Ready` is what the steps rely on and keep up.
-/

namespace DocMarkup.Parser

namespace Phase

/-- The next token is to be read. -/
def isReading : Phase → Bool
  | .read | .readSolid | .readWord _ => true
  | _ => false

/-- The next token is to be read and belongs to no word. -/
def readsAnew : Phase → Bool
  | .read | .readSolid => true
  | _ => false

theorem isReading_of_readsAnew {phase : Phase} (h : phase.readsAnew) : phase.isReading := by
  cases phase <;> first | rfl | cases h

/-- The end of the text has been read. -/
def isClosing : Phase → Bool
  | .take token => token.kind == .endOfText
  | .ended outcome => outcome == .endOfText
  | .finished => true
  | _ => false

end Phase

/-- The construct that a construct of some kind begins for a token instead of taking it itself. -/
def opensFor (kind : Kind) (token : Token) : Option Kind :=
  match kind with
  | .root | .sect => if (Machine.sectionLevel? token).isSome then none else some .paragraph
  | .table => if token.isStartTag ["td", "th"] then some .row else none
  | .simpleSection | .paramList | .xrefItem | .autoListItem | .simpleListItem | .internal
  | .parBlock | .listItem | .descData | .cell | .blockQuote => some .paragraph
  | _ => none

namespace Machine

/-- A token was read: the end of the text at the end of it, any other with progress. -/
structure Scanned (m m' : Machine) (token : Token) : Prop where
  progress : token.kind = .endOfText ∧ m'.scanner.offset = m.scanner.text.length ∨
    token.kind ≠ .endOfText ∧ m.scanner.offset < m'.scanner.offset
  isKnown : token.IsKnown
  isLast : m'.scanner.token = token

/-- How a construct goes on once it has a token, or once a construct within it has ended.  `ends`
are the outcomes with which it may end itself. -/
inductive Goes (m : Machine) (ends : Outcome → Prop) : Machine → Prop
  | reads {m' : Machine} (h : Fills m m') (hkind : m.innermost.isFilled = false)
      (hphase : m'.phase.isReading)
      (hword : ∀ style, m'.phase = .readWord style → m.ListsText ∧ isInlineStyle style) :
      Goes m ends m'
  | scans {m' : Machine} (token : Token) (h : Fills m m') (hkind : m.innermost.isFilled = false)
      (hphase : m'.phase = .take token) (htoken : Scanned m m' token) : Goes m ends m'
  | opens {m₁ m₂ m' : Machine} (h₁ : Fills m m₁) (h₂ : Begins m₁ m₂) (h : Fills m₂ m')
      (hkind : m'.innermost.isFilled = false) (hphase : m'.phase.readsAnew)
      (hsame : m'.stack = m₂.stack) : Goes m ends m'
  | opensTwo {m₁ m₂ m₃ m₄ m' : Machine} (h₁ : Fills m m₁) (h₂ : Begins m₁ m₂) (h₃ : Fills m₂ m₃)
      (h₄ : Begins m₃ m₄) (h : Fills m₄ m') (hkind : m'.innermost.isFilled = false)
      (hphase : m'.phase.readsAnew) (hsame : m'.stack = m₄.stack)
      (hitem : m'.innermost = .autoListItem →
        ∃ token, token.kind = .listItem ∧ ends (.handBack token)) : Goes m ends m'
  | leaves {m₁ m' : Machine} (outcome : Outcome) (h₁ : Fills m m₁) (h : Leaves m₁ m')
      (hphase : m'.phase = .ended outcome) (hends : ends outcome)
      (hrow : m.innermost = .row → ∀ token, outcome = .handBack token →
        token.isStartTag ["td", "th"] = false) : Goes m ends m'

theorem scanned_next (m : Machine) : Scanned m m.next.2 m.next.1 where
  progress := m.next_cases
  isKnown := m.scanner.token_isKnown
  isLast := congrArg Scanner.token m.scanner_next

variable {m m' : Machine} {ends : Outcome → Prop}

namespace Goes

theorem read (h : Fills m m') (hkind : m.innermost.isFilled = false) : Goes m ends m'.read :=
  .reads (h.phase .read) hkind rfl nofun

theorem readSolid (h : Fills m m') (hkind : m.innermost.isFilled = false) :
    Goes m ends m'.readSolid :=
  .reads (h.phase .readSolid) hkind rfl nofun

theorem close (h : Fills m m') (hm : Stacked m.stack) (hroot : m.innermost ≠ .root)
    (hcaption : m.innermost ≠ .caption) (hparagraph : m.innermost ≠ .paragraph)
    (hrow : m.innermost ≠ .row) {outcome : Outcome} (hends : ends outcome) :
    Goes m ends (m'.close outcome) := by
  rw [← h.innermost] at hroot hcaption hparagraph
  exact .leaves outcome h (leaves_close (h.stacked hm) hroot hcaption hparagraph outcome)
    (phase_close (h.stacked hm) outcome) hends fun hkind => absurd hkind hrow

/-- What was done before counts as well. -/
theorem after {m₀ : Machine} (h₀ : Fills m₀ m) (h : Goes m ends m') : Goes m₀ ends m' := by
  cases h with
  | reads h hkind hphase hword =>
      refine .reads (h₀.trans h) (h₀.innermost ▸ hkind) hphase fun style hstyle => ?_
      exact (hword style hstyle).imp_left h₀.listsText.1
  | scans token h hkind hphase htoken =>
      refine .scans token (h₀.trans h) (h₀.innermost ▸ hkind) hphase
        ⟨?_, htoken.isKnown, htoken.isLast⟩
      rw [← h₀.text]
      exact htoken.progress.imp_right fun h => ⟨h.1, h₀.offset.trans_lt h.2⟩
  | opens h₁ h₂ h hkind hphase hsame => exact .opens (h₀.trans h₁) h₂ h hkind hphase hsame
  | opensTwo h₁ h₂ h₃ h₄ h hkind hphase hsame hitem =>
      exact .opensTwo (h₀.trans h₁) h₂ h₃ h₄ h hkind hphase hsame hitem
  | leaves outcome h₁ h hphase hends hrow =>
      exact .leaves outcome (h₀.trans h₁) h hphase hends (h₀.innermost ▸ hrow)

end Goes

/-- What can come of a token. -/
def endsWith (token : Token) (outcome : Outcome) : Prop :=
  outcome = .complete ∨ outcome = .newParagraph token ∨ outcome = .handBack token

/-- What can come of the end of a construct. -/
def endsAfter (inner outcome : Outcome) : Prop := outcome = .complete ∨ outcome = inner

/-- One step. -/
inductive Turn (m : Machine) : Machine → Prop
  /-- A token is read. -/
  | scans {m' : Machine} (token : Token) (hphase : m.phase.isReading) (h : Fills m m')
      (hphase' : m'.phase = .take token) (htoken : Scanned m m' token) : Turn m m'
  /-- A token is read and belongs to what is being read. -/
  | reads {m' : Machine} (hphase : m.phase.isReading) (h : Fills m m')
      (hphase' : m'.phase.isReading)
      (hword : ∀ style, m'.phase = .readWord style → m.ListsText ∧ isInlineStyle style)
      (hprogress : m.scanner.offset < m'.scanner.offset) : Turn m m'
  /-- The innermost construct takes a token. -/
  | takes {m' : Machine} (token : Token) (hphase : m.phase = .take token)
      (htoken : token.kind ≠ .endOfText) (h : Goes m (endsWith token) m') : Turn m m'
  /-- The innermost construct begins another, which takes the token. -/
  | opensFor {m₁ m₂ m' : Machine} (token : Token) (hphase : m.phase = .take token)
      (h₁ : Fills m m₁) (h₂ : Begins m₁ m₂) (h : Fills m₂ m') (hphase' : m'.phase = .take token)
      (hkind : opensFor m.innermost token = some m'.innermost) : Turn m m'
  /-- The innermost construct goes on when one within it has ended. -/
  | resumes {m' : Machine} (outcome : Outcome) (hphase : m.phase = .ended outcome)
      (houtcome : outcome ≠ .endOfText) (h : Goes m (endsAfter outcome) m') : Turn m m'
  /-- The innermost construct takes the token that one within it handed back. -/
  | retakes {m' : Machine} (token : Token) (hphase : m.phase = .ended (.handBack token))
      (h : Fills m m') (hphase' : m'.phase = .take token)
      (hkind : m.innermost = .table ∨
        DocMarkup.Parser.opensFor m.innermost token = none ∧ m.innermost.isFilled = false) :
      Turn m m'
  /-- The innermost construct ends with the text. -/
  | closes {m₁ m' : Machine} (hphase : m.phase.isClosing) (h₁ : Fills m m₁) (h : Leaves m₁ m')
      (hphase' : m'.phase = .ended .endOfText) : Turn m m'
  /-- The root ends. -/
  | finishes (hphase : m.phase = .ended .endOfText) (hkind : m.innermost = .root) :
      Turn m { m with phase := .finished }

/-! ### Readiness -/

/-- What every step relies on and keeps up. -/
structure Ready (m : Machine) : Prop where
  stacked : Stacked m.stack
  failure : m.failure = none
  isKnown : ∀ token, m.phase = .take token → token.IsKnown
  isKnownBack : ∀ token, m.phase = .ended (.handBack token) → token.IsKnown
  handBack : ∀ token, m.phase = .ended (.handBack token) → token.kind ≠ .endOfText
  closing : m.phase.isClosing → m.scanner.offset = m.scanner.text.length
  word : ∀ style, m.phase = .readWord style → m.ListsText ∧ isInlineStyle style
  filled : (∀ outcome, m.phase ≠ .ended outcome) → m.innermost.isFilled = false
  holding : ∀ outcome, m.phase = .ended outcome → ∃ c : Construct, mayHold m.innermost c.kind
  finished : m.phase = .finished → m.innermost = .root

theorem not_isFilled_of_opensFor {kind opened : Kind} {token : Token}
    (h : opensFor kind token = some opened) : opened.isFilled = false := by
  unfold opensFor at h
  split at h <;> (try split at h) <;> cases h <;> rfl

theorem not_isClosing_of_isReading {phase : Phase} (h : phase.isReading) :
    phase.isClosing = false := by
  cases phase <;> first | rfl | cases h

/-- What holds of a machine about to read. -/
theorem Ready.ofReading (hstacked : Stacked m.stack) (hfailure : m.failure = none)
    (hphase : m.phase.isReading)
    (hword : ∀ style, m.phase = .readWord style → m.ListsText ∧ isInlineStyle style)
    (hfilled : m.innermost.isFilled = false) : m.Ready where
  stacked := hstacked
  failure := hfailure
  isKnown token h := by simp [h, Phase.isReading] at hphase
  isKnownBack token h := by simp [h, Phase.isReading] at hphase
  handBack token h := by simp [h, Phase.isReading] at hphase
  closing h := by simp [not_isClosing_of_isReading hphase] at h
  word := hword
  filled _ := hfilled
  holding outcome h := by simp [h, Phase.isReading] at hphase
  finished h := by simp [h, Phase.isReading] at hphase

/-- What holds of a machine about to take a token. -/
theorem Ready.ofToken (hstacked : Stacked m.stack) (hfailure : m.failure = none) {token : Token}
    (hphase : m.phase = .take token) (hknown : token.IsKnown)
    (hend : token.kind = .endOfText → m.scanner.offset = m.scanner.text.length)
    (hfilled : m.innermost.isFilled = false) : m.Ready where
  stacked := hstacked
  failure := hfailure
  isKnown other h := by
    rw [hphase] at h
    cases h
    exact hknown
  isKnownBack other h := by simp [hphase] at h
  handBack other h := by simp [hphase] at h
  closing h := hend (by simpa [hphase, Phase.isClosing] using h)
  word style h := by simp [hphase] at h
  filled _ := hfilled
  holding outcome h := by simp [hphase] at h
  finished h := by simp [hphase] at h

/-- What holds of a machine in which a construct has ended. -/
theorem Ready.ofOutcome (hstacked : Stacked m.stack) (hfailure : m.failure = none)
    {outcome : Outcome} (hphase : m.phase = .ended outcome)
    (hback : ∀ token, outcome = .handBack token → token.IsKnown ∧ token.kind ≠ .endOfText)
    (hend : outcome = .endOfText → m.scanner.offset = m.scanner.text.length)
    (hholding : ∃ c : Construct, mayHold m.innermost c.kind) : m.Ready where
  stacked := hstacked
  failure := hfailure
  isKnown token h := by simp [hphase] at h
  isKnownBack token h := by
    rw [hphase] at h
    cases h
    exact (hback token rfl).1
  handBack token h := by
    rw [hphase] at h
    cases h
    exact (hback token rfl).2
  closing h := hend (by simpa [hphase, Phase.isClosing] using h)
  word style h := by simp [hphase] at h
  filled h := absurd hphase (h outcome)
  holding _ _ := hholding
  finished h := by simp [hphase] at h

theorem Goes.ready (h : Goes m ends m') (hm : m.Ready) (hend : ¬ ends .endOfText)
    (hback : ∀ token, ends (.handBack token) → token.IsKnown ∧ token.kind ≠ .endOfText) :
    m'.Ready := by
  cases h with
  | reads h hkind hphase hword =>
      exact .ofReading (h.stacked hm.stacked) (h.failure.trans hm.failure) hphase
        (fun style hstyle => (hword style hstyle).imp_left h.listsText.2) (h.innermost ▸ hkind)
  | scans token h hkind hphase htoken =>
      refine .ofToken (h.stacked hm.stacked) (h.failure.trans hm.failure) hphase htoken.isKnown
        (fun hkind => ?_) (h.innermost ▸ hkind)
      obtain ⟨-, hoffset⟩ | ⟨hne, -⟩ := htoken.progress
      · rw [hoffset, h.text]
      · exact absurd hkind hne
  | opens h₁ h₂ h hkind hphase =>
      refine .ofReading (h.stacked (h₂.stacked (h₁.stacked hm.stacked)))
        (h.failure.trans (h₂.failure.trans (h₁.failure.trans hm.failure)))
        (Phase.isReading_of_readsAnew hphase) (fun style hstyle => ?_) hkind
      simp [hstyle, Phase.readsAnew] at hphase
  | opensTwo h₁ h₂ h₃ h₄ h hkind hphase =>
      refine .ofReading
        (h.stacked (h₄.stacked (h₃.stacked (h₂.stacked (h₁.stacked hm.stacked)))))
        (h.failure.trans (h₄.failure.trans (h₃.failure.trans
          (h₂.failure.trans (h₁.failure.trans hm.failure)))))
        (Phase.isReading_of_readsAnew hphase) (fun style hstyle => ?_) hkind
      simp [hstyle, Phase.readsAnew] at hphase
  | leaves outcome h₁ h hphase hends hrow =>
      refine .ofOutcome (h.stacked (h₁.stacked hm.stacked))
        (h.failure.trans (h₁.failure.trans hm.failure)) hphase ?_ ?_
        (h.holding (h₁.stacked hm.stacked))
      · rintro token rfl
        exact hback token hends
      · rintro rfl
        exact absurd hends hend

/-- Steps keep a machine ready. -/
theorem Turn.ready (h : Turn m m') (hm : m.Ready) : m'.Ready := by
  cases h with
  | scans token hphase h hphase' htoken =>
      refine .ofToken (h.stacked hm.stacked) (h.failure.trans hm.failure) hphase' htoken.isKnown
        (fun hkind => ?_) ?_
      · obtain ⟨-, hoffset⟩ | ⟨hne, -⟩ := htoken.progress
        · rw [hoffset, h.text]
        · exact absurd hkind hne
      · rw [h.innermost]
        exact hm.filled fun outcome houtcome => by simp [houtcome, Phase.isReading] at hphase
  | reads hphase h hphase' hword hprogress =>
      refine .ofReading (h.stacked hm.stacked) (h.failure.trans hm.failure) hphase'
        (fun style hstyle => (hword style hstyle).imp_left h.listsText.2) ?_
      rw [h.innermost]
      exact hm.filled fun outcome houtcome => by simp [houtcome, Phase.isReading] at hphase
  | takes token hphase htoken h =>
      refine h.ready hm (by simp [endsWith]) fun other hother => ?_
      obtain rfl : other = token := by simpa [endsWith] using hother
      exact ⟨hm.isKnown _ hphase, htoken⟩
  | opensFor token hphase h₁ h₂ h hphase' hkind =>
      refine .ofToken (h.stacked (h₂.stacked (h₁.stacked hm.stacked)))
        (h.failure.trans (h₂.failure.trans (h₁.failure.trans hm.failure))) hphase'
        (hm.isKnown token hphase) (fun hend => ?_) (not_isFilled_of_opensFor hkind)
      have hoffset := hm.closing (by simp [hphase, Phase.isClosing, hend])
      exact h.offset_eq (h₂.offset_eq (h₁.offset_eq hoffset))
  | resumes outcome hphase houtcome h =>
      refine h.ready hm (by simpa [endsAfter] using houtcome.symm) fun other hother => ?_
      obtain rfl : .handBack other = outcome := by simpa [endsAfter] using hother
      exact ⟨hm.isKnownBack other hphase, hm.handBack other hphase⟩
  | retakes token hphase h hphase' hkind =>
      refine .ofToken (h.stacked hm.stacked) (h.failure.trans hm.failure) hphase'
        (hm.isKnownBack token hphase) (fun hend => absurd hend (hm.handBack token hphase)) ?_
      rw [h.innermost]
      rcases hkind with hkind | ⟨-, hkind⟩
      · rw [hkind]
        rfl
      · exact hkind
  | closes hphase h₁ h hphase' =>
      refine .ofOutcome (h.stacked (h₁.stacked hm.stacked))
        (h.failure.trans (h₁.failure.trans hm.failure)) hphase' (by simp) (fun _ => ?_)
        (h.holding (h₁.stacked hm.stacked))
      exact h.offset_eq (h₁.offset_eq (hm.closing hphase))
  | finishes hphase hkind =>
      exact
        { stacked := hm.stacked
          failure := hm.failure
          isKnown := by simp
          isKnownBack := by simp
          handBack := by simp
          closing := fun _ => hm.closing (by simp [hphase, Phase.isClosing])
          word := by simp
          filled := fun _ => by
            show m.innermost.isFilled = false
            rw [hkind]
            rfl
          holding := by simp
          finished := fun _ => hkind }

end Machine

end DocMarkup.Parser
