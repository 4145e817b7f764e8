import DocMarkup.Parser.Step
import DocMarkup.Proofs.Scanner.Progress

/-!
Steps read arguments, report problems and ask for targets on their way.  None of this touches the
open constructs: the scanner moves on, and the rest of the machine that matters to them stays.
-/

namespace DocMarkup

/-- Problems that no comment has: they would be mistakes of the program itself. -/
def ProblemCode.isInternal : ProblemCode → Bool
  | .invariantViolation | .unsupportedSymbol => true
  | _ => false

/-- Problems that are found while a comment is read, whatever is open.  Styles that were never left
are found when all has been read, and sections of a wrong level at the top level only. -/
def Problem.isFoundReading : Problem → Bool
  | .unclosedStyle _ | .unsupportedSymbol _ | .brokenInvariant _ | .sectionAtTopLevel _ => false
  | _ => true

namespace Diagnostic

/-- The warning of a style that was never left: its code and what its message begins with. -/
def tellsOpenStyle (d : Diagnostic) : Bool :=
  d.code == .unclosedTag &&
    (units "end of comment block while expecting command </").isPrefixOf d.message

/-- Diagnostics of problems that are found while a comment is read. -/
def isClean (d : Diagnostic) : Bool := !d.code.isInternal && !d.tellsOpenStyle

end Diagnostic

theorem Problem.isClean_toDiagnostic {problem : Problem} (h : problem.isFoundReading)
    (subject : Option Text) (fileName : Text) (line : Number) (start stop : Nat) :
    (problem.toDiagnostic subject fileName line start stop).isClean := by
  cases problem <;> first | rfl | cases h

/-- Only a section of a wrong level is told of as one. -/
theorem Problem.code_ne_invalidSection {problem : Problem} (h : problem.isFoundReading) :
    problem.code ≠ .invalidSection := by
  intro hcode
  cases problem <;> first
    | (cases hcode; done)
    | cases h

namespace Parser

namespace Event

/-- Events other than the report of a problem that is not found while reading. -/
def isClean : Event → Bool
  | .reported diagnostic => diagnostic.isClean
  | _ => true

/-- The report of a section of a wrong level. -/
def tellsSection : Event → Bool
  | .reported diagnostic => diagnostic.code == .invalidSection
  | _ => false

end Event

/-- A journal goes on with clean events, which tell of sections of a wrong level at the top level
only. -/
def Continues (isAtTop : Bool) (before after : List Event) : Prop :=
  ∃ added, after = added ++ before ∧
    ∀ event ∈ added, event.isClean ∧ (event.tellsSection → isAtTop)

namespace Continues

variable {isAtTop : Bool} {before between after : List Event}

theorem refl (isAtTop : Bool) (journal : List Event) : Continues isAtTop journal journal :=
  ⟨[], rfl, fun _ hnone => absurd hnone List.not_mem_nil⟩

theorem trans (h : Continues isAtTop before between) (h' : Continues isAtTop between after) :
    Continues isAtTop before after := by
  obtain ⟨added, rfl, hadded⟩ := h
  obtain ⟨more, rfl, hmore⟩ := h'
  exact ⟨more ++ added, (List.append_assoc ..).symm, List.forall_mem_append.2 ⟨hmore, hadded⟩⟩

theorem mem (h : Continues isAtTop before after) :
    ∀ event ∈ after, event ∈ before ∨ event.isClean := by
  obtain ⟨added, rfl, hadded⟩ := h
  intro event hevent
  exact (List.mem_append.1 hevent).elim (fun hnew => .inr (hadded event hnew).1) .inl

/-- Below the top level nothing is told of sections. -/
theorem filter_tellsSection (h : Continues false before after) :
    after.filter Event.tellsSection = before.filter Event.tellsSection := by
  obtain ⟨added, rfl, hadded⟩ := h
  have hnone : added.filter Event.tellsSection = [] := by
    refine List.filter_eq_nil_iff.2 fun event hevent htells => ?_
    cases (hadded event hevent).2 htells
  rw [List.filter_append, hnone, List.nil_append]

end Continues

namespace Machine

/-- The innermost construct is the root. -/
def isAtTop (m : Machine) : Bool :=
  match m.stack with
  | { construct := .root _, .. } :: _ => true
  | _ => false

theorem isAtTop_congr {m m' : Machine} (h : m'.stack = m.stack) : m'.isAtTop = m.isAtTop := by
  rw [isAtTop, h]
  rfl

/-- Arguments were read, problems reported and targets asked for, and nothing else was done. -/
structure ReadsOn (m m' : Machine) : Prop where
  setting : m'.setting = m.setting
  scanner : m.scanner.Advances m'.scanner
  stack : m'.stack = m.stack
  phase : m'.phase = m.phase
  reopening : m'.reopening = m.reopening
  begun : m'.begun = m.begun
  failure : m'.failure = m.failure
  journal : Continues m.isAtTop m.journal m'.journal

namespace ReadsOn

variable {m m' m'' : Machine}

theorem refl (m : Machine) : ReadsOn m m :=
  ⟨rfl, .refl _, rfl, rfl, rfl, rfl, rfl, .refl _ _⟩

theorem isAtTop (h : ReadsOn m m') : m'.isAtTop = m.isAtTop := isAtTop_congr h.stack

theorem trans (h : ReadsOn m m') (h' : ReadsOn m' m'') : ReadsOn m m'' where
  setting := h'.setting.trans h.setting
  scanner := h.scanner.trans h'.scanner
  stack := h'.stack.trans h.stack
  phase := h'.phase.trans h.phase
  reopening := h'.reopening.trans h.reopening
  begun := h'.begun.trans h.begun
  failure := h'.failure.trans h.failure
  journal := h.journal.trans (h.isAtTop ▸ h'.journal)

theorem insidePre (h : ReadsOn m m') : m'.insidePre = m.insidePre := h.scanner.insidePre

theorem around (h : ReadsOn m m') : m'.around = m.around := by rw [Machine.around, h.stack]; rfl

theorem children (h : ReadsOn m m') : m'.children = m.children := by
  rw [Machine.children, h.stack]; rfl

end ReadsOn

theorem readsOn_record (m : Machine) (event : Event) (h : event.isClean)
    (htop : event.tellsSection → m.isAtTop) : ReadsOn m (m.record event) :=
  ⟨rfl, .refl _, rfl, rfl, rfl, rfl, rfl, [event], rfl, List.forall_mem_singleton.2 ⟨h, htop⟩⟩

theorem readsOn_report (m : Machine) (token : Token) (problem : Problem)
    (h : problem.isFoundReading) : ReadsOn m (m.report token problem) := by
  refine readsOn_record m _ (Problem.isClean_toDiagnostic h ..) fun htells => ?_
  exact absurd (beq_iff_eq.1 htells) (Problem.code_ne_invalidSection h)

theorem readsOn_sectionAtTopLevel {m : Machine} (h : m.isAtTop) (token : Token) (command : Text) :
    ReadsOn m (m.report token (.sectionAtTopLevel command)) :=
  readsOn_record m _ rfl fun _ => h

theorem readsOn_scanner (m : Machine) {scanner : Scanner} (h : m.scanner.Advances scanner) :
    ReadsOn m { m with scanner } :=
  ⟨rfl, h, rfl, rfl, rfl, rfl, rfl, .refl _ _⟩

/-- Reporting a problem on some condition. -/
theorem readsOn_ite {m m' : Machine} (c : Prop) [Decidable c] (h : ReadsOn m m') :
    ReadsOn m (if c then m' else m) := by
  split
  · exact h
  · exact .refl m

theorem readsOn_ite' {m m' : Machine} (c : Prop) [Decidable c] (h : ReadsOn m m') :
    ReadsOn m (if c then m else m') := by
  split
  · exact .refl m
  · exact h

/-- Reading an argument that is there on some condition only. -/
theorem readsOn_iteArgument {α : Type} {m : Machine} (c : Prop) [Decidable c] (none : α)
    {argument : α × Machine} (h : ReadsOn m argument.2) :
    ReadsOn m (if c then argument else (none, m)).2 := by
  split
  · exact h
  · exact .refl m

theorem readsOn_resolve (m : Machine) (target : Text) : ReadsOn m (m.resolve target).2 := by
  unfold resolve
  split
  · exact .refl m
  · exact readsOn_record _ _ rfl nofun

/-! ### Words -/

/-- What is added for a word: the word as it is, or linked. -/
inductive IsWord : Node → Prop
  | word (word : Text) (flags : NodeFlags) (hflags : flags.synthetic = false) :
      IsWord (.node (.word word) flags [] [] [])
  | linkedWord (word : LinkedWord) : IsWord (.leaf (.linkedWord word))

theorem plainWord_induction {P : Machine → Prop}
    (append : ∀ {m : Machine} {n : Node}, IsWord n → P m → P (m.append n))
    {m : Machine} (h : P m) (word : Text) : P (m.plainWord word) := by
  unfold plainWord
  dsimp only
  split
  · exact append (.word word _ rfl) h
  · exact append (.word word _ rfl) h

/-- A word is added by asking for a target and by adding nodes; what both keep is kept. -/
theorem addWord_induction {P : Machine → Prop}
    (resolve : ∀ {m : Machine} (target : Text), P m → P (m.resolve target).2)
    (append : ∀ {m : Machine} {n : Node}, IsWord n → P m → P (m.append n))
    {m : Machine} (h : P m) (word : Text) : P (m.addWord word) := by
  unfold addWord
  dsimp only
  split
  · exact plainWord_induction append h word
  · generalize (if (Text.dropWhileRight isEndPunctuation word).head? == some (unit '#') then
      (Text.dropWhileRight isEndPunctuation word).drop 1
      else Text.dropWhileRight isEndPunctuation word) = target
    have hresolve := resolve target h
    split
    · next m' heq =>
      rw [heq] at hresolve
      exact plainWord_induction append hresolve word
    · next found m' heq =>
      rw [heq] at hresolve
      have hlinked := append (.linkedWord (linkedWord target m'.setting.relPath found)) hresolve
      split
      · exact append (.word _ {} rfl) hlinked
      · exact hlinked

/-! ### Tokens and arguments -/

theorem scanner_next (m : Machine) : m.next.2.scanner = m.scanner.scan := by
  unfold next
  dsimp only
  split <;> rfl

theorem readsOn_next (m : Machine) : ReadsOn m m.next.2 := by
  refine (readsOn_scanner m m.scanner.advances_scan).trans ?_
  unfold next
  dsimp only
  split
  · exact readsOn_record _ _ rfl nofun
  · exact .refl _

/-- The next token is the end of the text, or the scanner has moved past it. -/
theorem next_cases (m : Machine) :
    (m.next.1.kind = .endOfText ∧ m.next.2.scanner.offset = m.scanner.text.length) ∨
      (m.next.1.kind ≠ .endOfText ∧ m.scanner.offset < m.next.2.scanner.offset) := by
  have hscanner : m.next.2.scanner = m.scanner.scan := by
    unfold next
    dsimp only
    split <;> rfl
  rw [hscanner]
  exact m.scanner.scan_cases

theorem readsOn_argument (m : Machine) : ReadsOn m m.argument.2 :=
  readsOn_scanner m m.scanner.advances_readArgument

theorem readsOn_quoted (m : Machine) : ReadsOn m m.quoted.2 :=
  readsOn_scanner m m.scanner.advances_readQuoted

theorem readsOn_restOfLine (m : Machine) : ReadsOn m m.restOfLine.2 :=
  readsOn_scanner m m.scanner.advances_readLine

theorem readsOn_attached (m : Machine) (opening closing : Char) :
    ReadsOn m (m.attached opening closing).2 :=
  readsOn_scanner m (m.scanner.advances_readAttached ..)

theorem readsOn_raw (m : Machine) (markers : List Text) : ReadsOn m (m.raw markers).2 :=
  readsOn_scanner m (m.scanner.advances_readRaw markers)

/-- Sent to an offset of its text that lies ahead, the scanner gets there. -/
theorem readsOn_moveTo {m : Machine} {offset : Nat} (hle : m.scanner.offset ≤ offset)
    (hoffset : offset ≤ m.scanner.text.length) : ReadsOn m (m.moveTo offset) := by
  unfold moveTo
  rw [Scanner.moveTo?_of_le hoffset]
  exact readsOn_scanner m (Scanner.advances_moveTo hle hoffset)

theorem readsOn_plain (m : Machine) (warn : Bool) (t : Text) : ReadsOn m (m.plain warn t).2 := by
  unfold plain
  dsimp only
  generalize (Scanner.ofText t).readAll.1 = tokens
  induction tokens generalizing m with
  | nil => exact .refl m
  | cons token rest ih =>
      refine .trans ?_ (ih _)
      unfold notePlain
      exact (readsOn_ite _ (readsOn_record _ (.scanned token.value) rfl nofun)).trans
        (readsOn_ite _ (readsOn_report _ _ _ rfl))

/-! ### Blocks -/

theorem readsOn_sectionTitle (m : Machine) (type : SimpleSectionType) :
    ReadsOn m (m.sectionTitle type).2 := by
  unfold sectionTitle
  split
  · exact .refl m
  · dsimp only
    split
    · exact readsOn_restOfLine m
    · exact (readsOn_restOfLine m).trans (readsOn_plain ..)

theorem readsOn_names (n : Nat) (m : Machine) : ReadsOn m (names n m).2 := by
  induction n generalizing m with
  | zero => exact .refl m
  | succ n ih =>
      have hargument := readsOn_argument m
      unfold names
      split
      · simp_all
      · next argument m' heq =>
        rw [heq] at hargument
        dsimp only
        split
        · exact hargument.trans (ih m')
        · exact hargument

theorem readsOn_paramName (m : Machine) (name : Text) (linkable : Bool) :
    ReadsOn m (m.paramName name linkable).2 := by
  unfold paramName
  split
  · exact .refl m
  · have hresolve := readsOn_resolve m name
    split <;> simp_all

theorem readsOn_paramNames (linkable : Bool) (names : List Text) (m : Machine) :
    ReadsOn m (paramNames linkable names m).2 := by
  induction names generalizing m with
  | nil => exact .refl m
  | cons name rest ih => exact (readsOn_paramName m name linkable).trans (ih _)

theorem readsOn_parameters (type : ParamSectionType) (written : List Text) (m : Machine) :
    ReadsOn m (parameters type written m).2 := by
  induction written generalizing m with
  | nil => exact .refl m
  | cons name rest ih =>
      exact ((readsOn_paramNames ..).trans (readsOn_paramName ..)).trans (ih _)

theorem readsOn_direction (m : Machine) (token : Token) (type : ParamSectionType) :
    ReadsOn m (m.direction token type).2 := by
  unfold direction
  split
  · exact .refl m
  · have hattached := readsOn_attached m '[' ']'
    split
    · simp_all
    · next option m' heq =>
      rw [heq] at hattached
      split
      · exact hattached
      · exact hattached.trans (readsOn_report _ _ _ rfl)

theorem readsOn_itemKey (m : Machine) (token : Token) : ReadsOn m (m.itemKey token).2.2 := by
  unfold itemKey
  split
  · exact .refl m
  · dsimp only
    exact (((readsOn_argument m).trans (readsOn_quoted _)).trans (readsOn_quoted _)).trans
      (readsOn_ite _ (readsOn_report _ _ _ rfl))

/-! ### Resources -/

/-- Reading sizes goes back to where the last of them ended, which lies ahead of the start. -/
theorem readsOn_sizes (n : Nat) (size : Text × Text) (m : Machine) :
    ReadsOn m (sizes n size m).2 := by
  induction n generalizing size m with
  | zero => exact .refl m
  | succ n ih =>
      have hargument := readsOn_argument m
      -- going back undoes the reading of an argument that is no size
      have hback : ∀ m', ReadsOn m m' → ReadsOn m (m'.moveTo m.scanner.offset) := by
        intro m' h
        have hoffset : m.scanner.offset ≤ m'.scanner.text.length :=
          h.scanner.text ▸ m.scanner.offset_le
        unfold moveTo
        rw [Scanner.moveTo?_of_le hoffset]
        refine ⟨h.setting, ⟨?_, ?_, h.scanner.insidePre, h.scanner.listDepth⟩, h.stack, h.phase,
          h.reopening, h.begun, h.failure, h.journal⟩
        · exact (Cursor.text_moveTo ..).trans h.scanner.text
        · exact (Cursor.offset_moveTo hoffset).ge
      unfold sizes
      dsimp only
      split
      · next m' heq =>
        rw [heq] at hargument
        exact hback m' hargument
      · next argument m' heq =>
        rw [heq] at hargument
        split
        · exact hargument.trans (ih ..)
        · exact hargument.trans (ih ..)
        · exact hback m' hargument

theorem readsOn_captionAndSize (m : Machine) : ReadsOn m m.captionAndSize.2.2 :=
  (readsOn_quoted m).trans
    (readsOn_sizes (m.quoted.2.scanner.cursor.ahead.length + 1) ([], []) m.quoted.2)

theorem readsOn_publishedName (m : Machine) (token : Token) (file format : Text) :
    ReadsOn m (m.publishedName token file format).2 := by
  unfold publishedName
  split
  · exact .refl m
  · split
    · exact .refl m
    · exact readsOn_report _ _ _ rfl

theorem readsOn_includedText (m : Machine) (token : Token) (file block : Text) :
    ReadsOn m (m.includedText token file block).2 := by
  unfold includedText
  split
  · exact readsOn_report _ _ _ rfl
  · split
    · exact .refl m
    · split
      · exact .refl m
      · exact readsOn_report _ _ _ rfl

theorem readsOn_formulaText (m : Machine) (token : Token) :
    ReadsOn m (m.formulaText token).2.2 := by
  unfold formulaText
  generalize hmarkers : (if token.value == units "f$" then _ else _ : List Text) = markers
  have hraw := readsOn_raw m markers
  dsimp only
  split
  · exact hraw
  · split
    · exact hraw
    · refine (hraw.trans ?_).trans (readsOn_raw ..)
      split
      · next hbrace =>
        refine readsOn_moveTo (Nat.le_succ _) ?_
        have hahead := (m.raw markers).2.scanner.cursor.offset_add_length_ahead
        have hpos : 0 < (m.raw markers).2.scanner.cursor.ahead.length := by
          rw [List.length_pos_iff]
          intro hnil
          rw [hnil] at hbrace
          cases hbrace
        show (m.raw markers).2.scanner.cursor.offset + 1 ≤
          (m.raw markers).2.scanner.cursor.text.length
        omega
      · exact .refl _

end Machine

end Parser

end DocMarkup
