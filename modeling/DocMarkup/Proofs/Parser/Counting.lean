import DocMarkup.Proofs.Doc.Numbering
import DocMarkup.Proofs.Parser.Blind.Markup
import DocMarkup.Proofs.Parser.Blind.Resource

/-!
A step gives numbers in the order in which their nodes appear, and what it reads does not depend on
numbers that were given before.
-/

namespace DocMarkup.Parser.Machine

/-- A handler does the same whatever numbers were given, and the numbers it gives go on from those.
What it adds has them in order. -/
structure Counts (handle : Machine → Machine) (m : Machine) : Prop where
  unnumber : (handle m.unnumber).unnumber = (handle m).unnumber
  ledger : ∃ contents, Numbers m.numbering contents (handle m).numbering ∧
    (handle m).entries = m.entries ++ contents.map (·, false)

variable {m : Machine} {handle : Machine → Machine}

@[simp]
theorem unnumber_unnumber (m : Machine) : m.unnumber.unnumber = m.unnumber := by
  have hframe : Frame.unnumber ∘ Frame.unnumber = Frame.unnumber := by
    funext f
    obtain ⟨construct, children, id, madeFor⟩ := f
    cases construct <;> simp [Frame.unnumber, Construct.unnumber, Function.comp_def]
  unfold unnumber onto
  dsimp only
  rw [List.map_map, hframe]

namespace Counts

/-- What leaves the numbers as they are. -/
theorem ofLedger (hunnumber : handle m.unnumber = (handle m).unnumber)
    (hledger : (handle m).ledger = m.ledger) : Counts handle m := by
  refine ⟨by rw [hunnumber, unnumber_unnumber], [], ?_, ?_⟩
  · rw [show (handle m).numbering = m.numbering from congrArg Prod.fst hledger]
    exact .nil _
  · rw [show (handle m).entries = m.entries from congrArg Prod.snd hledger]
    exact (List.append_nil _).symm

theorem of_eq {handle' : Machine → Machine} (h : Counts handle m) (hhere : handle' m = handle m)
    (hthere : handle' m.unnumber = handle m.unnumber) : Counts handle' m :=
  ⟨by rw [hhere, hthere, h.unnumber], by rw [hhere]; exact h.ledger⟩

end Counts

theorem Blind.counts (h : Blind handle m) : Counts handle m := .ofLedger h.unnumber h.ledger

theorem read_blind (m : Machine) : Blind read m := ⟨rfl, rfl⟩

theorem take_blind (m : Machine) (token : Token) : Blind (take · token) m := ⟨rfl, rfl⟩

/-! ### Numbered nodes -/

theorem formula_counts (hm : m.Settled) (hkind : m.innermost = .paragraph) (token : Token) :
    Counts (formula · token) m := by
  have hread := reads_formulaText token
  have hterminated : ∀ (m' : Machine) (terminated : Bool),
      Blind (fun m => if terminated then m else m.report token (.unterminatedFormula token.value))
        m' := by
    intro m' terminated
    cases terminated <;> exact ⟨rfl, rfl⟩
  constructor
  · unfold formula
    rw [hread.unnumber₂]
    dsimp only
    rw [(hterminated _ _).unnumber]
    generalize (if (m.formulaText token).2.1 then _ else _ : Machine) = m'
    -- which formulas are known does not show once the numbers are taken away
    have hgiven : ∀ formulas : List Text, ({ m'.unnumber with formulas } : Machine).unnumber =
        ({ m' with formulas := (Formula.register m'.formulas (m.formulaText token).1).2 } :
          Machine).unnumber := fun _ => unnumber_unnumber m'
    simp only [← read_unnumber, ← append_unnumber', Node.unnumber_leaf, Content.unnumber, hgiven]
    rfl
  · have hledger := ((hterminated _ (m.formulaText token).2.1).ledger).trans (hread.ledger m)
    have hstack : ∀ m', (if (m.formulaText token).2.1 then (m.formulaText token).2.2 else
        (m.formulaText token).2.2.report token (.unterminatedFormula token.value)) = m' →
        m'.stack = m.stack := by
      rintro m' rfl
      exact (apply_ite stack ..).trans ((ite_self _).trans (hread.stack m))
    unfold formula
    dsimp only at hledger hstack ⊢
    generalize (m.formulaText token).1 = text
    generalize (if (m.formulaText token).2.1 then _ else _ : Machine) = m' at hledger hstack
    obtain ⟨f, outer, hf, -⟩ := InParagraph.exists_stack ⟨hm.stacked, hkind⟩
    have hnumbering : m'.numbering = m.numbering := congrArg Prod.fst hledger
    have hentries : m'.entries = m.entries := congrArg Prod.snd hledger
    rw [← hnumbering, ← hentries]
    have hf' : m'.stack = f :: outer := (hstack m' rfl).trans hf
    let shown : Formula :=
      { id := (Formula.register m'.formulas text).1
        name := Formula.imageName (Formula.register m'.formulas text).1
        text, relPath := m'.setting.relPath }
    have happend := entries_append
      (m := { m' with formulas := (Formula.register m'.formulas text).2 }) hf' (.leaf (.formula shown))
    have hwritten : (Node.leaf (.formula shown)).isSynthetic = false := rfl
    refine ⟨[.formula shown], ?_, happend.trans ?_⟩
    · rw [append_eq (m := { m' with formulas := (Formula.register m'.formulas text).2 }) hf']
      exact .formula rfl rfl (.nil _)
    · rw [hwritten, Bool.and_false]
      rfl

theorem xrefItem_counts (hm : m.Settled) (hkind : m.innermost = .paragraph) (token : Token) :
    Counts (xrefItem · token) m := by
  cases hsection : m.insideSection with
  | true =>
      refine .ofLedger ?_ ?_ <;> simp only [xrefItem, insideSection_unnumber, hsection, if_true]
      · exact closeParagraph_unnumber ..
      · exact hm.ledger_closeParagraph hkind _
  | false =>
      have hread := reads_itemKey token
      constructor <;>
        simp only [xrefItem, insideSection_unnumber, hsection, Bool.false_eq_true, if_false]
      · rw [hread.unnumber₂]
        obtain ⟨key, heading, m'⟩ := m.itemKey token
        have hgiven : ({ m'.unnumber with items := m'.unnumber.items + 1 } : Machine).unnumber =
            ({ m' with items := m'.items + 1 } : Machine).unnumber := unnumber_unnumber m'
        simp only [← read_unnumber, ← push_unnumber, Construct.unnumber]
        exact congrArg (fun g : Machine => (g.push (.xrefItem _)).read) hgiven
      · have hledger := hread.ledger m
        generalize m.itemKey token = found at hledger
        have hnumbering : found.2.2.numbering = m.numbering := congrArg Prod.fst hledger
        have hentries : found.2.2.entries = m.entries := congrArg Prod.snd hledger
        rw [← hnumbering, ← hentries]
        refine ⟨[.xrefItem _], ?_, entries_push _ _⟩
        exact .item rfl rfl (.nil _)

/-! ### Steps -/

theorem command_counts (hm : m.Settled) (hkind : m.innermost = .paragraph) (token : Token) :
    Counts (command · token) m := by
  let m₀ := m.record (.entered token.value)
  have hm₀ : m₀.Settled := hm.congr rfl
  have hrecord : ∀ {handle : Machine → Machine}, Counts handle m₀ →
      Counts (fun m => handle (m.record (.entered token.value))) m := fun h => ⟨h.unnumber, h.ledger⟩
  have hclose : Blind (closeParagraph · (.handBack token)) m₀ :=
    ⟨closeParagraph_unnumber .., hm₀.ledger_closeParagraph hkind _⟩
  have hunmatched : Blind (fun m => (m.report token (.endWithoutStart token.value)).read) m₀ :=
    ⟨rfl, rfl⟩
  unfold command
  dsimp only
  generalize Command.ofName token.value = meaning
  cases meaning with
  | word style => exact hrecord (styledWord_blind m₀ token style).counts
  | sect level => exact hrecord hclose.counts
  | simpleSection type => exact hrecord (simpleSection_blind hm₀ hkind token type).counts
  | paramSection type => exact hrecord (paramSection_blind hm₀ hkind token type).counts
  | xrefItem => exact hrecord (xrefItem_counts hm₀ hkind token)
  | verbatim type ending => exact hrecord (verbatim_blind m₀ token type ending).counts
  | inclusion type => exact hrecord (inclusion_blind m₀ token type).counts
  | includeStep operator => exact hrecord (includeStep_blind m₀ token operator).counts
  | diagramFile type => exact hrecord (diagramFile_blind m₀ token type).counts
  | lineBreak => exact hrecord (leaf_blind m₀ .lineBreak rfl).read.counts
  | sourceBreak =>
      exact hrecord (leaf_blind m₀ (.whiteSpace [CodeUnit.lineFeed]) rfl).read.counts
  | anchor => exact hrecord (anchor_blind m₀ token).counts
  | indexEntry => exact hrecord (indexEntry_blind m₀).counts
  | listItem => exact hrecord (simpleList_blind hm₀ hkind token).counts
  | internal => exact hrecord (internal_blind m₀ token).counts
  | endInternal =>
      exact hrecord (Blind.ite (c := fun m => m.around.any Construct.isInternal)
        (by simp [Function.comp_def]) hclose
        hunmatched).counts
  | parBlock => exact hrecord (push_blind m₀ (c := .parBlock token) trivial nofun).read.counts
  | endParBlock =>
      exact hrecord (Blind.ite (c := fun m => m.around.any Construct.isParBlock)
        (by simp [Function.comp_def]) hclose
        hunmatched).counts
  | refList => exact hrecord (push_blind m₀ (c := .refList token) trivial nofun).readSolid.counts
  | reference isSubPage => exact hrecord (reference_blind m₀ token isSubPage).counts
  | link => exact hrecord (link_blind m₀ token).counts
  | citation => exact hrecord (citation_blind m₀ token).counts
  | internalReference => exact hrecord (internalReference_blind m₀ token).counts
  | copy brief details => exact hrecord (copy_blind m₀ token brief details).counts
  | image => exact hrecord (image_blind m₀ token).counts
  | formula => exact hrecord (formula_counts hm₀ hkind token)
  | ignored => exact hrecord (read_blind m₀).counts
  | unmatched => exact hrecord hunmatched.counts
  | unknown =>
      obtain ⟨hunnumber, hledger⟩ := leaf_blind (m₀.report token (.unknownCommand token.text))
        (.word token.text) rfl
      have hword : Blind (fun m => (m.report token (.unknownCommand token.text)).append
          (.leaf (.word token.text))) m₀ := ⟨hunnumber, hledger⟩
      exact hrecord hword.read.counts

theorem takeInParagraph_counts (hm : m.Settled) (hkind : m.innermost = .paragraph) (token : Token) :
    Counts (takeInParagraph · token) m := by
  have hclose : ∀ outcome, Blind (closeParagraph · outcome) m := fun outcome =>
    ⟨closeParagraph_unnumber .., hm.ledger_closeParagraph hkind outcome⟩
  unfold takeInParagraph
  cases token.kind with
  | endOfText => exact (hclose _).counts
  | newParagraph => exact (hclose _).counts
  | whiteSpace =>
      have hspace := leaf_blind m (.whiteSpace token.text) rfl
      have hpre : Blind (append · (Node.leaf (.whiteSpace token.text)).asPreformatted) m :=
        ⟨append_unnumber m rfl, ledger_append m rfl⟩
      exact (Blind.ite (c := insidePre) rfl hpre.read
        (Blind.ite (c := onlySynthetic) (by simp) (read_blind m) hspace.read)).counts
  | word | symbol | url => exact (addInWord_blind m token).read.counts
  | listItem => exact (listMarker_blind hm hkind token).counts
  | endList =>
      refine (Blind.ite (c := fun m => (nearestAutoList? m.around).isSome) (by simp) (hclose _)
        ?_).counts
      exact ⟨rfl, rfl⟩
  | command => exact command_counts hm hkind token
  | startTag => exact (startTag_blind hm hkind token).counts
  | endTag => exact (endTag_blind hm hkind token).counts
  | keyword => exact (keyword_blind m token).counts
  | unknown => exact Blind.counts ⟨rfl, rfl⟩

theorem openSection_blind (m : Machine) (token : Token) (level : Nat) :
    Blind (openSection · token level) m := by
  have htitle := fun label? : Option Text =>
    reads_restOfLine.ite (α := Text) label?.isSome (.pure [])
  constructor
  · unfold openSection
    rw [reads_argument.unnumber]
    rcases m.argument with ⟨label?, m₁⟩
    dsimp only
    rw [(htitle label?).unnumber]
    generalize (if label?.isSome then _ else _ : Text × Machine) = title
    dsimp only
    rw [report_unnumber, ← apply_ite unnumber]
    exact congrArg read (push_blind _ (c := .sect _) trivial nofun).unnumber
  · unfold openSection
    rw [← reads_argument.ledger m]
    rcases m.argument with ⟨label?, m₁⟩
    dsimp only
    rw [← (htitle label?).ledger m₁]
    rw [ledger_read, ledger_push _ rfl, apply_ite ledger, ledger_report, ite_self]

theorem dispatch_counts (hm : m.Settled) (token : Token) : Counts (dispatch · token) m := by
  have hparagraph : Blind (fun m => m.openParagraph.take token) m := (openParagraph_blind m).take token
  have hsection := fun level => openSection_blind m token level
  obtain ⟨⟨construct, children, id, madeFor⟩, outer, hstack, hkind⟩ := exists_stack hm.stacked
  -- without its numbers the machine holds the same construct and takes the same branch
  have hhere := dispatch.eq_def m token
  have hthere := dispatch.eq_def m.unnumber token
  rw [hstack] at hhere
  rw [stack_unnumber, hstack] at hthere
  cases construct with
  | root included =>
      cases hlevel : sectionLevel? token with
      | none =>
          simp only [hlevel] at hhere hthere
          exact hparagraph.counts.of_eq hhere hthere
      | some level =>
          have hopen : Blind (fun m => (if 1 < level then m.report token
              (.sectionAtTopLevel token.value) else m).openSection token level) m := by
            constructor
            · rw [report_unnumber, ← apply_ite unnumber, (openSection_blind ..).unnumber]
            · rw [(openSection_blind ..).ledger, apply_ite ledger, ledger_report, ite_self]
          simp only [hlevel] at hhere hthere
          exact hopen.counts.of_eq hhere hthere
  | sect sect =>
      cases hlevel : sectionLevel? token with
      | none =>
          simp only [hlevel] at hhere hthere
          exact hparagraph.counts.of_eq hhere hthere
      | some level =>
          have hclose : Blind (close · (.handBack token)) m :=
            ⟨close_unnumber .., hm.ledger_close (by rw [hkind]; nofun) _⟩
          simp only [hlevel] at hhere hthere
          by_cases hinner : level ≤ sect.level
          · exact hclose.counts.of_eq (hhere.trans (if_pos hinner)) (hthere.trans (if_pos hinner))
          · exact (hsection level).counts.of_eq (hhere.trans (if_neg hinner))
              (hthere.trans (if_neg hinner))
  | paragraph attributes styles =>
      exact (takeInParagraph_counts hm hkind token).of_eq hhere hthere
  | refList opener =>
      exact (takeInRefList_blind hm hkind opener token).counts.of_eq hhere hthere
  | list list next opener =>
      exact (takeInList_blind hm (by rw [hkind]; nofun) opener token).counts.of_eq hhere hthere
  | descList attributes opener =>
      exact (takeInDescList_blind hm (by rw [hkind]; nofun) opener token).counts.of_eq hhere hthere
  | table attributes caption opener =>
      obtain ⟨hunnumber, hledger⟩ :=
        takeInTable_blind hm (by rw [hkind]; nofun) caption opener token
      exact .ofLedger (hthere.trans (hunnumber.trans (congrArg unnumber hhere.symm)))
        ((congrArg ledger hhere).trans hledger)
  | row attributes =>
      exact (takeInRow_blind hm (by rw [hkind]; nofun) token).counts.of_eq hhere hthere
  | descTitle | caption | header | hyperlink | link =>
      exact (takeInline_blind hm (by rw [hkind]; rfl) _ token).counts.of_eq hhere hthere
  | _ => exact hparagraph.counts.of_eq hhere hthere

theorem sectionPartEnded_blind (m : Machine) (outcome : Outcome) (unexpected : Text → Problem) :
    Blind (sectionPartEnded · outcome unexpected) m := by
  cases outcome with
  | handBack token =>
      constructor <;> unfold sectionPartEnded <;> dsimp only <;> split <;> rfl
  | _ => exact ⟨rfl, rfl⟩

theorem blockParagraphEnded_blind (hm : m.Settled) (hroot : m.innermost ≠ .root) (outcome : Outcome)
    (isEnd : Token → Bool) : Blind (blockParagraphEnded · outcome isEnd) m := by
  have hclose := hm.ledger_close hroot
  cases outcome with
  | handBack token =>
      constructor <;> unfold blockParagraphEnded <;> dsimp only <;> split
      · exact close_unnumber ..
      · exact close_unnumber ..
      · exact hclose _
      · exact hclose _
  | newParagraph => exact ⟨rfl, rfl⟩
  | _ => exact ⟨close_unnumber .., hclose _⟩

theorem resume_blind (hm : m.Settled) (outcome : Outcome) : Blind (resume · outcome) m := by
  obtain ⟨⟨construct, children, id, madeFor⟩, outer, hstack, hkind⟩ := exists_stack hm.stacked
  -- without its numbers the machine holds the same construct and takes the same branch
  have hhere := resume.eq_def m outcome
  have hthere := resume.eq_def m.unnumber outcome
  rw [hstack] at hhere
  rw [stack_unnumber, hstack] at hthere
  have hclose : m.innermost ≠ .root → ∀ outcome, Blind (close · outcome) m := fun hroot outcome =>
    ⟨close_unnumber .., hm.ledger_close hroot outcome⟩
  have hreported : m.innermost ≠ .root → ∀ (opener : Token) problem isEnd, Blind (fun m =>
      (if outcome == .endOfText then m.report opener problem else m).blockParagraphEnded outcome
        isEnd) m := by
    intro hroot opener problem isEnd
    cases hend : outcome == .endOfText with
    | true =>
        obtain ⟨hunnumber, hledger⟩ := blockParagraphEnded_blind (m := m.report opener problem)
          (hm.congr rfl) hroot outcome isEnd
        exact ⟨hunnumber, hledger⟩
    | false => exact blockParagraphEnded_blind hm hroot outcome isEnd
  have hparagraphs : m.innermost ≠ .root → ∀ isEnd, Blind (blockParagraphEnded · outcome isEnd) m :=
    fun hroot => blockParagraphEnded_blind hm hroot outcome
  cases construct with
  | root included =>
      have hfinish : Blind (fun m => { m with phase := .finished }) m := ⟨rfl, rfl⟩
      by_cases hend : (outcome == .endOfText) = true
      · exact hfinish.of_eq (hhere.trans ((if_pos hend).trans (by rw [hstack])))
          (hthere.trans ((if_pos hend).trans (by rw [← hstack]; rfl)))
      · exact (sectionPartEnded_blind m outcome .unexpectedAtTopLevel).of_eq
          (hhere.trans (if_neg hend)) (hthere.trans (if_neg hend))
  | sect sect =>
      by_cases hend : (outcome == .endOfText) = true
      · exact (hclose (by rw [hkind]; nofun) outcome).of_eq (hhere.trans (if_pos hend))
          (hthere.trans (if_pos hend))
      · exact (sectionPartEnded_blind m outcome (.unexpectedInSection · sect.label)).of_eq
          (hhere.trans (if_neg hend)) (hthere.trans (if_neg hend))
  | paragraph attributes styles =>
      have hparagraph : ∀ outcome, Blind (closeParagraph · outcome) m := fun outcome =>
        ⟨closeParagraph_unnumber .., hm.ledger_closeParagraph hkind outcome⟩
      cases outcome with
      | complete => exact (read_blind m).of_eq hhere hthere
      | handBack token => exact (take_blind m token).of_eq hhere hthere
      | _ => exact (hparagraph _).of_eq hhere hthere
  | autoListItem item =>
      have hclose := hclose (by rw [hkind]; nofun)
      cases outcome with
      | newParagraph token =>
          refine Blind.of_eq (Blind.ite (c := fun _ => _) rfl (read_blind m) (hclose _)) hhere hthere
      | _ => exact (hclose _).of_eq hhere hthere
  | autoList list next =>
      exact (itemEnded_blind hm hkind list next outcome).of_eq hhere hthere
  | simpleList =>
      have hclose := hclose (by rw [hkind]; nofun)
      cases outcome with
      | handBack token =>
          refine Blind.of_eq (Blind.ite (c := fun _ => _) rfl
            (push_blind m (c := .simpleListItem) trivial nofun).read (hclose _)) hhere hthere
      | _ => exact (hclose _).of_eq hhere hthere
  | internal | listItem | descData =>
      exact (hparagraphs (by rw [hkind]; nofun) _).of_eq hhere hthere
  | parBlock opener =>
      exact (hreported (by rw [hkind]; nofun) opener .unterminatedParBlock _).of_eq hhere hthere
  | blockQuote attributes opener =>
      exact (hreported (by rw [hkind]; nofun) opener (.unclosedAtEnd opener.value) _).of_eq hhere hthere
  | cell attributes isHeading =>
      have hclose := hclose (by rw [hkind]; nofun)
      cases outcome with
      | newParagraph => exact (read_blind m).of_eq hhere hthere
      | handBack token =>
          exact Blind.of_eq (Blind.ite (c := fun _ => _) rfl (read_blind m) (hclose _)) hhere hthere
      | _ => exact (hclose _).of_eq hhere hthere
  | list | descList | table =>
      exact (partEnded_blind hm (by rw [hkind]; nofun) _ outcome).of_eq hhere hthere
  | row attributes => exact (cellEnded_blind hm (by rw [hkind]; nofun) outcome).of_eq hhere hthere
  | _ => exact (hclose (by rw [hkind]; nofun) outcome).of_eq hhere hthere

/-- One step gives numbers in the order in which it shows them, and depends on none. -/
theorem step_counts (hm : m.Settled) : Counts step m := by
  have hhere := step.eq_def m
  have hthere := step.eq_def m.unnumber
  rw [phase_unnumber] at hthere
  cases hphase : m.phase with
  | read =>
      have hread : Blind (fun m => m.next.2.take m.next.1) m :=
        ⟨by rw [reads_next.unnumber]; rfl, reads_next.ledger m⟩
      rw [hphase] at hhere hthere
      exact hread.counts.of_eq hhere hthere
  | readSolid =>
      have hread : Blind (fun m => if m.next.1.isBlank then m.next.2.readSolid
          else m.next.2.take m.next.1) m := by
        constructor
        · rw [reads_next.unnumber]
          split <;> rfl
        · rw [← reads_next.ledger m]
          split <;> rfl
      rw [hphase] at hhere hthere
      exact hread.counts.of_eq hhere hthere
  | readWord style =>
      rw [hphase] at hhere hthere
      exact (continueWord_blind m style).counts.of_eq hhere hthere
  | take token =>
      rw [hphase] at hhere hthere
      exact (dispatch_counts hm token).of_eq hhere hthere
  | ended outcome =>
      rw [hphase] at hhere hthere
      exact (resume_blind hm outcome).counts.of_eq hhere hthere
  | finished =>
      rw [hphase] at hhere hthere
      have hsame : Blind (fun m => m) m := ⟨rfl, rfl⟩
      exact hsame.counts.of_eq hhere hthere

end DocMarkup.Parser.Machine
