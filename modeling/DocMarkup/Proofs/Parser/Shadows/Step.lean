import DocMarkup.Parser.Step
import DocMarkup.Proofs.Parser.Shadows.Block
import DocMarkup.Proofs.Parser.Shadows.Markup
import DocMarkup.Proofs.Parser.Shadows.Resource

/-!
Steps of machines that read a text with and without carriage returns.  They stay side by side as
long as no token ends a list on a line that goes on.
-/

namespace DocMarkup

open Text (crlfOffset)

/-- What ends a raw block stands on one line. -/
theorem Command.ending_unbroken {name ending : Text} {type : VerbatimType}
    (h : ofName name = .verbatim type ending) : ending.IsUnbroken := by
  have hall : ∀ block ∈ verbatimBlocks, (units block.2.2).IsUnbroken := by decide +kernel
  unfold ofName at h
  split at h
  · cases h
  · next hfound _ =>
    cases h
    obtain ⟨block, hblock, hvalue⟩ := Option.map_eq_some_iff.1 hfound
    have hmem := hall block (List.mem_of_find?_eq_some hblock)
    rwa [hvalue] at hmem
  · next command hcommand _ _ =>
    obtain ⟨entry, hentry, hvalue⟩ := Option.map_eq_some_iff.1 hcommand
    have hmem := List.mem_of_find?_eq_some hentry
    rw [h] at hvalue
    obtain ⟨key, value⟩ := entry
    obtain rfl : value = .verbatim type ending := hvalue
    simp [actions] at hmem
  · split at h <;> cases h

namespace Parser

@[simp]
theorem Phase.crlf_beq_finished (move : Nat → Nat) (phase : Phase) :
    (phase.crlf move == .finished) = (phase == .finished) := by
  rw [Bool.eq_iff_iff, beq_iff_eq, beq_iff_eq]
  cases phase <;> simp [crlf]

namespace Machine

theorem sectionLevel?_crlf (move : Nat → Nat) (token : Token) :
    sectionLevel? (token.crlf move) = sectionLevel? token := by
  unfold sectionLevel?
  rw [Token.kind_crlf]
  split
  · next hkind => rw [Token.value_crlf (Token.isBlank_of_kind (eq_of_beq hkind) (by decide))]
  · rfl

namespace Shadows

variable {t : Text} {m m' : Machine} (h : Shadows t m m')
include h

theorem isDone : m'.isDone = m.isDone := by
  rw [Machine.isDone, h.phase, h.failure, Phase.crlf_beq_finished, Machine.isDone]

theorem command (hlist : m.scanner.breaksListEnd = false) {token : Token}
    (hkind : token.kind = .command) :
    Shadows t (m.command token) (m'.command (token.crlf (crlfOffset t))) := by
  have hsolid : token.isBlank = false := Token.isBlank_of_kind hkind (by decide)
  have hentered := h.record (.entered token.value) (.entered token.value)
  have hback (c : Bool) : Shadows t
      (if c then (m.record (.entered token.value)).closeParagraph (.handBack token)
        else ((m.record (.entered token.value)).report token (.endWithoutStart token.value)).read)
      (if c then
          (m'.record (.entered token.value)).closeParagraph (.handBack (token.crlf (crlfOffset t)))
        else ((m'.record (.entered token.value)).report (token.crlf (crlfOffset t))
          (.endWithoutStart token.value)).read) := by
    split
    · exact hentered.closeParagraph (.handBack token)
    · exact Shadows.read (hentered.report ..)
  have hopener : token.crlf (crlfOffset t) = opener (crlfOffset t) token := crlf_eq_opener hsolid
  unfold Machine.command
  dsimp only
  rw [Token.value_crlf hsolid, Token.text_crlf (Or.inl hkind),
    hentered.any_around Construct.Alike.isInternal, hentered.any_around Construct.Alike.isParBlock]
  cases hmeaning : Command.ofName token.value with
  | word style => exact hentered.styledWord hlist token style
  | sect level => exact hentered.closeParagraph (.handBack token)
  | simpleSection type => exact hentered.simpleSection token type
  | paramSection type => exact hentered.paramSection token type
  | xrefItem => exact hentered.xrefItem hsolid
  | verbatim type ending => exact hentered.verbatim _ _ type (Command.ending_unbroken hmeaning)
  | inclusion type => exact hentered.inclusion _ _ type
  | includeStep operator => exact hentered.includeStep _ _ operator
  | diagramFile type => exact hentered.diagramFile _ _ type
  | lineBreak => exact (hentered.appendLeaf rfl).read
  | sourceBreak => exact (hentered.appendLeaf rfl).read
  | anchor => exact hentered.anchor ..
  | indexEntry => exact hentered.indexEntry
  | listItem => exact hentered.simpleList token
  | internal => exact hentered.internal ..
  | endInternal => exact hback _
  | parBlock =>
      dsimp only
      rw [hopener]
      exact (hentered.push (Construct.alike_crlf (.parBlock token))).read
  | endParBlock => exact hback _
  | refList =>
      dsimp only
      rw [hopener]
      exact (hentered.push (Construct.alike_crlf (.refList token))).readSolid
  | reference isSubPage => exact hentered.reference _ _ isSubPage
  | link => exact hentered.link hsolid
  | citation => exact hentered.citation ..
  | internalReference => exact hentered.internalReference ..
  | copy brief details => exact hentered.copy _ _ brief details
  | image => exact hentered.image ..
  | formula => exact hentered.formula hsolid
  | ignored => exact hentered.read
  | unmatched => exact Shadows.read (hentered.report ..)
  | unknown => exact Shadows.read (Shadows.appendLeaf (hentered.report ..) rfl)

theorem takeInParagraph (hlist : m.scanner.breaksListEnd = false) (token : Token) :
    Shadows t (m.takeInParagraph token) (m'.takeInParagraph (token.crlf (crlfOffset t))) := by
  have hsolid {kind : TokenKind} (hkind : token.kind = kind) := Token.isBlank_of_kind hkind
  unfold Machine.takeInParagraph
  rw [Token.kind_crlf]
  cases hkind : token.kind with
  | endOfText => exact h.closeParagraph .endOfText
  | newParagraph => exact h.closeParagraph (.newParagraph token)
  | whiteSpace =>
      have hspace : (Content.whiteSpace (token.crlf (crlfOffset t)).text).dropReturns =
          (Content.whiteSpace token.text).dropReturns := by
        simp only [Content.dropReturns, Token.dropReturns_text_crlf]
      dsimp only
      rw [h.insidePre, h.onlySynthetic]
      split
      · refine Shadows.read (h.append ?_)
        rw [Node.dropReturns_asPreformatted, Node.dropReturns_leaf, hspace,
          Node.dropReturns_asPreformatted, Node.dropReturns_leaf]
      · split
        · exact h.read
        · exact (h.appendLeaf hspace).read
  | word => exact (h.addInWord (hsolid hkind (by decide))).read
  | symbol => exact (h.addInWord (hsolid hkind (by decide))).read
  | url => exact (h.addInWord (hsolid hkind (by decide))).read
  | listItem => exact h.listMarker (hsolid hkind (by decide))
  | endList =>
      dsimp only
      rw [h.nearestAutoList?]
      split
      · exact h.closeParagraph (.handBack token)
      · exact Shadows.read (h.report ..)
  | command => exact h.command hlist hkind
  | startTag => exact h.startTag (hsolid hkind (by decide))
  | endTag => exact h.endTag (hsolid hkind (by decide))
  | keyword => exact h.keyword hkind
  | unknown => exact h.read

theorem openSection (token token' : Token) (level : Nat) :
    Shadows t (m.openSection token level) (m'.openSection token' level) := by
  unfold Machine.openSection
  obtain ⟨_ | label, x, x', hx, hx', hlabel⟩ := h.argument
  · rw [hx, hx']
    have hreported := hlabel.report token token' (.missingSectionLabel token.value)
      (.missingSectionLabel token'.value)
    have hfile := hreported.outputFile
    dsimp only [Option.isSome_none, Bool.false_eq_true, if_false]
    simp only [Bool.false_eq_true, if_false, hfile]
    exact (hreported.push (Construct.alike_crlf (.sect _))).read
  · rw [hx, hx']
    obtain ⟨title, y, y', hy, hy', htitle⟩ := hlabel.restOfLine
    dsimp only [Option.isSome_some]
    simp only [if_true, hy, hy', htitle.outputFile]
    exact (htitle.push (Construct.alike_crlf (.sect _))).read

/-- A token goes to the innermost construct of either machine. -/
theorem dispatch (hlist : m.scanner.breaksListEnd = false) (token : Token) :
    Shadows t (m.dispatch token) (m'.dispatch (token.crlf (crlfOffset t))) := by
  have hopened := h.openParagraph.take token
  unfold Machine.dispatch
  rw [sectionLevel?_crlf]
  rcases h.stack_cases with ⟨hm, hm'⟩ | ⟨f, f', outer, outer', hm, hm', hf, -⟩
  · rw [hm, hm']
    exact { h.finished with stack := .nil }
  · rw [hm, hm']
    have hconstruct := hf.construct
    obtain ⟨heads, hf', hheads⟩ := hf.construct
    dsimp only
    revert hconstruct
    rw [hf']
    cases hc : f.construct <;> intro hconstruct
    case root singleLine =>
      dsimp only [Construct.crlf, Construct.withHeads]
      split
      · exact Shadows.openSection (h.report_if ..) ..
      · exact hopened
    case sect sect =>
      dsimp only [Construct.crlf, Construct.withHeads]
      split
      · split
        · exact h.close (.handBack token)
        · exact h.openSection ..
      · exact hopened
    case paragraph attributes styles => exact h.takeInParagraph hlist token
    case refList opener => exact h.takeInRefList _ _ token
    case list list next opener => exact h.takeInList _ _ token
    case descList attributes opener => exact h.takeInDescList _ _ token
    case table attributes given opener =>
      rw [hc] at hheads
      refine h.takeInTable ?_ _ _ token
      have hhead := congrArg List.head? hheads
      rw [List.head?_map, List.head?_map] at hhead
      rw [← Option.isSome_map (f := Node.dropReturns), hhead, Option.isSome_map]
      cases given <;> rfl
    case row attributes => exact h.takeInRow token
    case descTitle attributes => exact h.takeInline hlist hconstruct token
    case caption attributes kept => exact h.takeInline hlist hconstruct token
    case header header opener => exact h.takeInline hlist hconstruct token
    case hyperlink link opener => exact h.takeInline hlist hconstruct token
    case link link resolved opener => exact h.takeInline hlist hconstruct token
    all_goals exact hopened

theorem sectionPartEnded (outcome : Outcome) (unexpected : Text → Problem) :
    Shadows t (m.sectionPartEnded outcome unexpected)
      (m'.sectionPartEnded (outcome.crlf (crlfOffset t)) unexpected) := by
  unfold Machine.sectionPartEnded
  cases outcome with
  | complete => exact h.read
  | endOfText => exact h.read
  | newParagraph token => exact h.read
  | handBack token =>
      dsimp only [Outcome.crlf]
      rw [sectionLevel?_crlf]
      split
      · exact h.take token
      · exact Shadows.read (h.report ..)

theorem blockParagraphEnded (outcome : Outcome) {isEnd : Token → Bool}
    (hend : ∀ token : Token, isEnd (token.crlf (crlfOffset t)) = isEnd token) :
    Shadows t (m.blockParagraphEnded outcome isEnd)
      (m'.blockParagraphEnded (outcome.crlf (crlfOffset t)) isEnd) := by
  unfold Machine.blockParagraphEnded
  cases outcome with
  | complete => exact h.close .complete
  | endOfText => exact h.close .endOfText
  | newParagraph token => exact h.read
  | handBack token =>
      dsimp only [Outcome.crlf]
      rw [hend]
      split
      · exact h.close .complete
      · exact h.close (.handBack token)

/-- Either machine goes on in the construct around one that has ended. -/
theorem resume (outcome : Outcome) :
    Shadows t (m.resume outcome) (m'.resume (outcome.crlf (crlfOffset t))) := by
  have hclosed := h.close outcome
  unfold Machine.resume
  rcases h.stack_cases with ⟨hm, hm'⟩ | ⟨f, f', outer, outer', hm, hm', hf, houter⟩
  · rw [hm, hm']
    exact { h.finished with stack := .nil }
  · rw [hm, hm']
    obtain ⟨heads, hf', -⟩ := hf.construct
    dsimp only
    rw [hf', Outcome.crlf_beq_endOfText]
    cases f.construct
    case root singleLine =>
      dsimp only [Construct.crlf, Construct.withHeads]
      split
      · exact { h.finished with stack := .cons hf houter }
      · exact h.sectionPartEnded outcome _
    case sect sect =>
      dsimp only [Construct.crlf, Construct.withHeads]
      split
      · exact hclosed
      · exact h.sectionPartEnded outcome _
    case paragraph attributes styles =>
      cases outcome with
      | complete => exact h.read
      | endOfText => exact h.closeParagraph .endOfText
      | newParagraph token => exact h.closeParagraph (.newParagraph token)
      | handBack token => exact h.take token
    case autoListItem item =>
      cases outcome with
      | complete => exact hclosed
      | endOfText => exact hclosed
      | newParagraph token =>
          dsimp only [Construct.crlf, Construct.withHeads, Outcome.crlf]
          rw [Token.kind_crlf]
          show Shadows t _ (if item.indent < token.indent || token.kind == .startTag then _ else _)
          split
          · exact h.read
          · exact hclosed
      | handBack token => exact hclosed
    case autoList list next => exact h.itemEnded list next outcome
    case simpleList =>
      cases outcome with
      | complete => exact hclosed
      | endOfText => exact hclosed
      | newParagraph token => exact hclosed
      | handBack token =>
          dsimp only [Construct.crlf, Construct.withHeads, Outcome.crlf]
          rw [Token.isCommand_crlf]
          split
          · exact (h.push (Construct.alike_crlf .simpleListItem)).read
          · exact hclosed
    case internal => exact h.blockParagraphEnded outcome fun _ => Token.isCommand_crlf _
    case parBlock opener =>
      exact Shadows.blockParagraphEnded (h.report_if ..) outcome fun _ => Token.isCommand_crlf _
    case listItem item => exact h.blockParagraphEnded outcome fun _ => Token.isEndTag_crlf _
    case descData attributes => exact h.blockParagraphEnded outcome fun _ => Token.isEndTag_crlf _
    case blockQuote attributes opener =>
      exact Shadows.blockParagraphEnded (h.report_if ..) outcome fun _ => Token.isEndTag_crlf _
    case cell attributes isHeading =>
      cases outcome with
      | complete => exact hclosed
      | endOfText => exact hclosed
      | newParagraph token => exact h.read
      | handBack token =>
          dsimp only [Construct.crlf, Construct.withHeads, Outcome.crlf]
          rw [Token.isEndTag_crlf]
          split
          · exact h.read
          · exact hclosed
    case list list next opener => exact h.partEnded _ _ outcome
    case descList attributes opener => exact h.partEnded _ _ outcome
    case table attributes given opener => exact h.partEnded _ _ outcome
    case row attributes => exact h.cellEnded outcome
    all_goals exact hclosed

/-! ### Runs -/

/-- One step of either machine. -/
theorem step (hlist : m.scanner.breaksListEnd = false) : Shadows t m.step m'.step := by
  unfold Machine.step
  rw [h.phase]
  cases m.phase with
  | read =>
      obtain ⟨token, x, x', hx, hx', hnext⟩ := h.next hlist
      dsimp only [Phase.crlf]
      rw [hx, hx']
      exact hnext.take token
  | readSolid =>
      obtain ⟨token, x, x', hx, hx', hnext⟩ := h.next hlist
      dsimp only [Phase.crlf]
      rw [hx, hx']
      dsimp only
      rw [Token.isBlank_crlf]
      split
      · exact hnext.readSolid
      · exact hnext.take token
  | readWord style => exact h.continueWord hlist style
  | take token => exact h.dispatch hlist token
  | ended outcome => exact h.resume outcome
  | finished => exact h

/-- Runs of either machine, with as many steps. -/
theorem run (hlist : ∀ k, (m.run k).scanner.breaksListEnd = false) (n : Nat) :
    Shadows t (m.run n) (m'.run n) := by
  induction n generalizing m m' with
  | zero => exact h
  | succ n ih =>
      rw [Machine.run, Machine.run, h.isDone]
      split
      · exact h
      · next hdone =>
        refine ih (h.step (hlist 0)) fun k => ?_
        have hstep := hlist (k + 1)
        rwa [Machine.run, if_neg hdone] at hstep

end Shadows

end Machine

end Parser

end DocMarkup
