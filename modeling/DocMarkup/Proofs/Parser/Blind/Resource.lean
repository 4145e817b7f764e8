import DocMarkup.Proofs.Parser.Blind.Block

/-!
The commands for raw text and for things outside the comment, apart from formulas, neither see
numbers nor give any.
-/

namespace DocMarkup.Parser.Machine

variable {m : Machine}

theorem verbatim_blind (m : Machine) (token : Token) (type : VerbatimType) (ending : Text) :
    Blind (verbatim · token type ending) m := by
  have hhint := (reads_attached '\x7b' '\x7d').ite (type == .code) (.pure none)
  have hoption := (reads_attached '[' ']').ite (type == .htmlOnly) (.pure none)
  have hraw := reads_raw (Command.markers ending)
  constructor
  · simp only [verbatim, hhint.unnumber, hoption.unnumber, hraw.unnumber, report_unnumber,
      ← apply_ite unnumber, origin_unnumber]
    simp [Content.isNumbered]
  · refine (leaf_blind _ _ (by rfl)).ledger.trans ?_
    rw [apply_ite ledger, ledger_report, ite_self]
    exact (hraw.ledger _).trans ((hoption.ledger _).trans (hhint.ledger m))

theorem inclusion_blind (m : Machine) (token : Token) (type : IncludeType) :
    Blind (inclusion · token type) m := by
  have hblock := reads_argument.ite (type == .snippet) (.pure none)
  constructor
  · simp only [inclusion, reads_argument.unnumber]
    rcases m.argument with ⟨_ | file, m'⟩
    · rfl
    · simp only [hblock.unnumber, report_unnumber, ← apply_ite unnumber,
        (reads_includedText _ _ _).unnumber]
      generalize (if (type == IncludeType.snippet) = true then _ else _ : Option Text × Machine) = block
      generalize includedText _ token file _ = found
      have hincluded : (if (type == .hidden) = true then
          { found.2.unnumber with included := some { text := found.1 } } else found.2.unnumber) =
          (if (type == .hidden) = true then
            { found.2 with included := some { text := found.1 } } else found.2).unnumber := by
        split <;> rfl
      rw [hincluded]
      simp [Content.isNumbered]
  · simp only [inclusion]
    rw [← reads_argument.ledger m]
    rcases m.argument with ⟨_ | file, m'⟩
    · rfl
    · refine (leaf_blind _ _ (by rfl)).ledger.trans ?_
      refine Eq.trans ?_ (hblock.ledger m')
      generalize (if (type == IncludeType.snippet) = true then _ else _ : Option Text × Machine) = block
      have hwarned : ∀ m' : Machine, (if (type == .snippet && (block.1.getD []).isEmpty) = true then
          block.2.report token (.missingBlockName file) else block.2) = m' →
          m'.ledger = block.2.ledger := by
        rintro m' rfl
        split <;> rfl
      have hincluded : ∀ (m' : Machine) text, (if (type == .hidden) = true then
          { m' with included := some text } else m').ledger = m'.ledger := by
        intro m' text
        split <;> rfl
      exact (hincluded _ _).trans (((reads_includedText token file _).ledger _).trans (hwarned _ rfl))

theorem includeStep_blind (m : Machine) (token : Token) (operator : IncludeOperator) :
    Blind (includeStep · token operator) m := by
  have hstep : ∀ (m' : Machine) (step : IncludeStep),
      Blind (fun m => ((m.setChildren (continueRun m.children)).append (.leaf (.includeStep
        { step with
          origin := (m.setChildren (continueRun m.children)).origin
          isFirst := beginsRun m.children }))).read) m' := by
    intro m' step
    constructor
    · simp [Content.isNumbered]
    · exact (leaf_blind _ _ (by rfl)).ledger.trans (ledger_continueRun m')
  let step (m' : Machine) (text : Text) : IncludeStep :=
    { operator, pattern := m.restOfLine.1, text, origin := m'.origin, isFirst := true, isLast := true }
  constructor
  · unfold includeStep
    rw [reads_restOfLine.unnumber]
    dsimp only
    rw [report_unnumber, ← apply_ite unnumber]
    generalize (if m.restOfLine.1.isEmpty then _ else _ : Machine) = m'
    rw [included_unnumber]
    cases m'.included with
    | none => exact (hstep (m'.report token _) (step m' [])).unnumber
    | some buffer =>
        exact (hstep { m' with included := some (buffer.apply operator m.restOfLine.1).2 }
          (step m' (buffer.apply operator m.restOfLine.1).1)).unnumber
  · have hwarned : ∀ m', (if m.restOfLine.1.isEmpty then
        m.restOfLine.2.report token (.missingPattern token.value) else m.restOfLine.2) = m' →
        m'.ledger = m.ledger := by
      rintro m' rfl
      rw [apply_ite ledger, ledger_report, ite_self]
      exact reads_restOfLine.ledger m
    unfold includeStep
    dsimp only
    generalize (if m.restOfLine.1.isEmpty then _ else _ : Machine) = m' at hwarned
    rw [← hwarned m' rfl]
    cases m'.included with
    | none => exact (hstep (m'.report token _) (step m' [])).ledger
    | some buffer =>
        exact (hstep { m' with included := some (buffer.apply operator m.restOfLine.1).2 }
          (step m' (buffer.apply operator m.restOfLine.1).1)).ledger

/-- The text of a caption, if there is one. -/
theorem reads_captionText (caption : Text) :
    Reads fun m => if caption.isEmpty then ([], m) else m.plain false caption :=
  (Reads.pure []).ite _ (reads_plain false caption)

theorem numbered_captionText (m : Machine) (caption : Text) :
    (if caption.isEmpty then ([], m) else m.plain false caption).1.flatMap Node.numbered = [] := by
  split
  · rfl
  · exact numbered_plain ..

theorem image_blind (m : Machine) (token : Token) : Blind (image · token) m := by
  have hfile := fun format? : Option Text =>
    reads_argument.ite (α := Option Text) format?.isSome (.pure none)
  have hname := fun file format =>
    (Reads.pure file).ite (Path.isAbsolute file) (reads_publishedName token file format)
  -- each reading is the same without numbers, and the caption it ends with holds none
  constructor
  · unfold image
    rw [reads_argument.unnumber]
    rcases m.argument with ⟨format?, m₁⟩
    dsimp only
    rw [(hfile format?).unnumber]
    generalize (if format?.isSome then m₁.argument else (none, m₁)) = file
    rcases file with ⟨file?, m₂⟩
    cases format? with
    | none => rfl
    | some format =>
        cases file? with
        | none => rfl
        | some file =>
            dsimp only
            split
            · rfl
            · rw [reads_captionAndSize.unnumber₂]
              rcases m₂.captionAndSize with ⟨caption, ⟨width, height⟩, m₃⟩
              dsimp only
              rw [(hname file format).unnumber]
              generalize (if Path.isAbsolute file then _ else _ : Text × Machine) = name
              dsimp only
              rw [(reads_captionText caption).unnumber]
              have hnone := numbered_captionText name.2 caption
              generalize (if caption.isEmpty then _ else _ : List Node × Machine) = text at hnone
              simp [Content.isNumbered, hnone]
  · unfold image
    rw [← reads_argument.ledger m]
    rcases m.argument with ⟨format?, m₁⟩
    dsimp only
    rw [← (hfile format?).ledger m₁]
    generalize (if format?.isSome then m₁.argument else (none, m₁)) = file
    rcases file with ⟨file?, m₂⟩
    cases format? with
    | none => rfl
    | some format =>
        cases file? with
        | none => rfl
        | some file =>
            dsimp only
            split
            · rfl
            · rw [← reads_captionAndSize.ledger m₂]
              dsimp only
              rcases m₂.captionAndSize with ⟨caption, ⟨width, height⟩, m₃⟩
              dsimp only
              rw [← (hname file format).ledger m₃]
              generalize (if Path.isAbsolute file then _ else _ : Text × Machine) = name
              rw [← (reads_captionText caption).ledger name.2]
              have hnone := numbered_captionText name.2 caption
              generalize (if caption.isEmpty then _ else _ : List Node × Machine) = text at hnone
              simp [Content.isNumbered, hnone]

theorem diagramFile_blind (m : Machine) (token : Token) (type : DiagramType) :
    Blind (diagramFile · token type) m := by
  constructor
  · unfold diagramFile
    rw [reads_argument.unnumber]
    rcases m.argument with ⟨_ | file, m₁⟩
    · rfl
    · dsimp only
      rw [reads_captionAndSize.unnumber₂]
      rcases m₁.captionAndSize with ⟨caption, ⟨width, height⟩, m₂⟩
      dsimp only
      rw [(reads_captionText caption).unnumber]
      have hnone := numbered_captionText m₂ caption
      generalize (if caption.isEmpty then _ else _ : List Node × Machine) = text at hnone
      simp [Content.isNumbered, hnone]
  · unfold diagramFile
    rw [← reads_argument.ledger m]
    rcases m.argument with ⟨_ | file, m₁⟩
    · rfl
    · dsimp only
      rw [← reads_captionAndSize.ledger m₁]
      dsimp only
      rcases m₁.captionAndSize with ⟨caption, ⟨width, height⟩, m₂⟩
      dsimp only
      rw [← (reads_captionText caption).ledger m₂]
      have hnone := numbered_captionText m₂ caption
      generalize (if caption.isEmpty then _ else _ : List Node × Machine) = text at hnone
      simp [Content.isNumbered, hnone]

theorem reference_blind (m : Machine) (token : Token) (isSubPage : Bool) :
    Blind (reference · token isSubPage) m := by
  constructor
  · simp only [reference, reads_argument.unnumber]
    rcases m.argument with ⟨_ | target, m'⟩
    · rfl
    · simp only [reads_quoted.unnumber, (reads_resolve _).unnumber]
      rcases m'.quoted with ⟨text?, m₁⟩
      dsimp only
      rcases m₁.resolve target with ⟨_ | found, m₂⟩
      · simp [(changeStyle_blind _ _ _ _ _).unnumber, Content.isNumbered]
      · cases text? <;> simp [(reads_plain _ _).unnumber, Content.isNumbered]
  · simp only [reference]
    rw [← reads_argument.ledger m]
    rcases m.argument with ⟨_ | target, m'⟩
    · rfl
    · dsimp only
      rw [← reads_quoted.ledger m']
      rcases m'.quoted with ⟨text?, m₁⟩
      dsimp only
      rw [← (reads_resolve target).ledger m₁]
      rcases m₁.resolve target with ⟨_ | found, m₂⟩
      · simp [(changeStyle_blind _ _ _ _ _).ledger, Content.isNumbered]
      · cases text? <;> simp [(reads_plain _ _).ledger, Content.isNumbered]

theorem link_blind (m : Machine) (token : Token) : Blind (link · token) m := by
  have hlink : ∀ m' link resolved, Blind (push · (.link link resolved token)) m' :=
    fun m' _ _ => push_blind m' trivial (by rintro ⟨⟩)
  constructor
  · simp only [link, reads_argument.unnumber]
    rcases m.argument with ⟨_ | target, m'⟩
    · rfl
    · simp only [(reads_resolve _).unnumber, setting_unnumber, (hlink _ _ _).unnumber, read_unnumber]
  · simp only [link]
    rw [← reads_argument.ledger m]
    rcases m.argument with ⟨_ | target, m'⟩
    · rfl
    · simp only [ledger_read, (hlink _ _ _).ledger, (reads_resolve _).ledger]

theorem citation_blind (m : Machine) (token : Token) : Blind (citation · token) m := by
  constructor
  · unfold citation
    rw [reads_argument.unnumber]
    rcases m.argument with ⟨_ | label, m'⟩
    · rfl
    · dsimp only
      rw [setting_unnumber]
      cases m'.setting.options.surroundings.citation? label <;> simp [Content.isNumbered]
  · simp only [citation]
    rw [← reads_argument.ledger m]
    rcases m.argument with ⟨_ | label, m'⟩
    · rfl
    · simp [Content.isNumbered, apply_ite ledger]

theorem internalReference_blind (m : Machine) (token : Token) :
    Blind (internalReference · token) m := by
  constructor
  · simp only [internalReference, reads_argument.unnumber]
    rcases m.argument with ⟨_ | target, m'⟩
    · rfl
    · simp [reads_quoted.unnumber, (reads_plain _ _).unnumber, Content.isNumbered]
  · simp only [internalReference]
    rw [← reads_argument.ledger m]
    rcases m.argument with ⟨_ | target, m'⟩
    · rfl
    · simp [reads_quoted.ledger, (reads_plain _ _).ledger, Content.isNumbered]

theorem copy_blind (m : Machine) (token : Token) (brief details : Bool) :
    Blind (copy · token brief details) m := by
  constructor
  · simp only [copy, reads_argument.unnumber]
    rcases m.argument with ⟨_ | target, m'⟩ <;> simp [Content.isNumbered]
  · simp only [copy]
    rw [← reads_argument.ledger m]
    rcases m.argument with ⟨_ | target, m'⟩ <;> simp [Content.isNumbered]

theorem anchor_blind (m : Machine) (token : Token) : Blind (anchor · token) m := by
  constructor
  · simp only [anchor, reads_argument.unnumber]
    rcases m.argument with ⟨_ | name, m'⟩ <;> simp [Content.isNumbered]
  · simp only [anchor]
    rw [← reads_argument.ledger m]
    rcases m.argument with ⟨_ | name, m'⟩ <;> simp [Content.isNumbered]

theorem indexEntry_blind (m : Machine) : Blind indexEntry m := by
  constructor
  · simp [indexEntry, reads_restOfLine.unnumber, Content.isNumbered, ← apply_ite unnumber]
  · simp [indexEntry, reads_restOfLine.ledger, Content.isNumbered, apply_ite ledger]

end DocMarkup.Parser.Machine
