import DocMarkup.Parser.Resource
import DocMarkup.Proofs.Parser.Shadows.Inline
import DocMarkup.Proofs.Parser.Termination

/-!
Raw text, files and references in machines that read a text with and without carriage returns.
Blocks of raw text hold the carriage returns of their lines; what stands on one line holds none.
-/

namespace DocMarkup

open CodeUnit (lineFeed carriageReturn)
open Text (crlfOffset)

/-! ### Formulas and steps through files -/

/-- Formulas keep their numbers: texts that differ do so with carriage returns. -/
theorem Formula.register_crlf (formulas : List Text) (text : Text) :
    register (formulas.map Text.crlf) (Text.crlf text) =
      ((register formulas text).1, (register formulas text).2.map Text.crlf) := by
  have hfind : (formulas.map Text.crlf).findIdx? (· == Text.crlf text) =
      formulas.findIdx? (· == text) := by
    rw [List.findIdx?_map]
    congr 1
    funext known
    exact Bool.eq_iff_iff.2 (by
      simp only [Function.comp_apply, beq_iff_eq, Text.crlf_injective.eq_iff])
  unfold register
  rw [hfind]
  cases formulas.findIdx? (· == text) with
  | some id => rfl
  | none =>
      simp only [List.length_map, List.map_append, List.map_cons, List.map_nil]

theorem Content.includeStep_congr {content content' : Content}
    (h : content'.dropReturns = content.dropReturns) {step : IncludeStep} :
    content' = .includeStep step ↔ content = .includeStep step := by
  have hkept (c : Content) : c = .includeStep step ↔ c.dropReturns = .includeStep step := by
    cases c <;> simp [dropReturns]
  rw [hkept, h, ← hkept]

namespace Scanner

/-- A block is a part of the text. -/
theorem mem_of_readRaw {s : Scanner} {markers : List Text} {u : CodeUnit}
    (h : u ∈ (s.readRaw markers).1.text) : u ∈ s.text := by
  have hahead : u ∈ s.cursor.ahead := by
    unfold readRaw at h
    dsimp only at h
    split at h
    · exact List.mem_of_mem_take h
    · exact h
  exact List.mem_append_right _ hahead

end Scanner

namespace Command

theorem markers_unbroken {ending : Text} (h : ending.IsUnbroken) :
    ∀ marker ∈ markers ending, marker.IsUnbroken ∧ marker ≠ [] := by
  intro marker hmarker
  rcases List.mem_pair.1 hmarker with rfl | rfl
  · exact ⟨Text.isUnbroken_cons.2 ⟨rfl, h⟩, List.cons_ne_nil _ _⟩
  · exact ⟨Text.isUnbroken_cons.2 ⟨rfl, h⟩, List.cons_ne_nil _ _⟩

end Command

namespace Parser.Machine

/-! ### Children of a paragraph -/

theorem includeStep?_congr {n n' : Node} (h : n'.dropReturns = n.dropReturns) :
    includeStep? n' = includeStep? n := by
  have hcontent := Node.content_congr h
  unfold includeStep?
  split
  · next step hstep => rw [(Content.includeStep_congr hcontent).1 hstep]
  · next hother =>
    split
    · next step hstep => exact absurd ((Content.includeStep_congr hcontent).2 hstep) (hother _)
    · rfl

theorem beginsRun_congr {nodes nodes' : List Node}
    (h : nodes'.map Node.dropReturns = nodes.map Node.dropReturns) :
    beginsRun nodes' = beginsRun nodes := by
  rcases nodes with _ | ⟨n, _ | ⟨before, rest⟩⟩ <;> rcases nodes' with _ | ⟨n', _ | ⟨before', rest'⟩⟩ <;>
    simp only [List.map_cons, List.map_nil, List.cons.injEq, reduceCtorEq, and_false] at h
  · rfl
  · simp only [beginsRun, Node.isKind_congr h.1]
  · simp only [beginsRun, Node.isKind_congr h.1, Node.isKind_congr h.2.1]

theorem continueRun_congr {nodes nodes' : List Node}
    (h : nodes'.map Node.dropReturns = nodes.map Node.dropReturns) :
    (continueRun nodes').map Node.dropReturns = (continueRun nodes).map Node.dropReturns := by
  have hmark {n n' : Node} (hn : n'.dropReturns = n.dropReturns) (step : IncludeStep) :
      (n'.withContent (.includeStep step)).dropReturns =
        (n.withContent (.includeStep step)).dropReturns := by
    rw [Node.dropReturns_withContent, hn, Node.dropReturns_withContent]
  cases nodes with
  | nil =>
      rw [List.map_eq_nil_iff.1 h]
  | cons n rest =>
      obtain ⟨n', rest', rfl, hn, hrest⟩ := List.map_eq_cons_iff.1 h
      unfold continueRun
      dsimp only
      rw [includeStep?_congr hn, Node.isKind_congr hn]
      cases includeStep? n with
      | some step => exact congrArg₂ List.cons (hmark hn _) hrest
      | none =>
          dsimp only
          split
          · cases rest with
            | nil =>
                rw [List.map_eq_nil_iff.1 hrest]
                exact congrArg (fun n => [n]) hn
            | cons before rest =>
                obtain ⟨before', rest', rfl, hbefore, hmore⟩ := List.map_eq_cons_iff.1 hrest
                dsimp only
                rw [includeStep?_congr hbefore]
                cases includeStep? before with
                | some step =>
                    exact congrArg₂ List.cons hn (congrArg₂ List.cons (hmark hbefore _) hmore)
                | none => exact h
          · exact h

namespace Shadows

variable {t : Text} {m m' : Machine} (h : Shadows t m m')
include h

/-! ### Raw text -/

/-- The two read the same block up to the carriage returns in it. -/
theorem rawBlock {markers : List Text}
    (hmarkers : ∀ marker ∈ markers, marker.IsUnbroken ∧ marker ≠ []) :
    ∃ block x x', m.raw markers = (block, x) ∧
      m'.raw markers = ({ block with text := Text.crlf block.text }, x') ∧
      carriageReturn ∉ block.text ∧ Shadows t x x' := by
  obtain ⟨hblock, hraw⟩ := h.raw hmarkers
  refine ⟨_, _, _, rfl, Prod.ext hblock rfl, fun hmem => ?_, hraw⟩
  exact h.plainText (h.text ▸ Scanner.mem_of_readRaw hmem)

theorem attached_if (c : Bool) (opening closing : Char)
    (hopening : CodeUnit.isLineBreak (unit opening) = false)
    (hclosing : CodeUnit.isLineBreak (unit closing) = false) :
    ReadAlike t (if c then m.attached opening closing else (none, m))
      (if c then m'.attached opening closing else (none, m')) := by
  split
  · exact h.attached opening closing hopening hclosing
  · exact ⟨_, _, _, rfl, rfl, h⟩

theorem argument_if (c : Bool) :
    ReadAlike t (if c then m.argument else (none, m)) (if c then m'.argument else (none, m')) := by
  split
  · exact h.argument
  · exact ⟨_, _, _, rfl, rfl, h⟩

theorem plain_if (c : Bool) (written : Text) :
    ReadAlike t (if c then ([], m) else m.plain false written)
      (if c then ([], m') else m'.plain false written) := by
  split
  · exact ⟨_, _, _, rfl, rfl, h⟩
  · exact h.plain false written

theorem verbatim (token token' : Token) (type : VerbatimType) {ending : Text}
    (hending : ending.IsUnbroken) :
    Shadows t (m.verbatim token type ending) (m'.verbatim token' type ending) := by
  unfold Machine.verbatim
  obtain ⟨hint?, x, x', hx, hx', hhint⟩ :=
    h.attached_if (type == .code) '\x7b' '\x7d' rfl rfl
  rw [hx, hx']
  dsimp only
  obtain ⟨option?, y, y', hy, hy', hoption⟩ :=
    hhint.attached_if (type == .htmlOnly) '[' ']' rfl rfl
  rw [hy, hy']
  dsimp only
  obtain ⟨block, z, z', hz, hz', hplain, hblock⟩ :=
    hoption.rawBlock (Command.markers_unbroken hending)
  rw [hz, hz']
  dsimp only
  have hreported := hblock.report_unless block.terminated block.terminated token token'
    (.unterminatedVerbatim token.value ending) (.unterminatedVerbatim token'.value ending)
  revert hreported
  generalize (if block.terminated then z else _ : Machine) = w
  generalize (if block.terminated then z' else _ : Machine) = w'
  intro hreported
  have htext : (if type == .code || type == .verbatim then Text.trimBlock (Text.crlf block.text)
        else Text.crlf block.text) =
      Text.crlf (if type == .code || type == .verbatim then Text.trimBlock block.text
        else block.text) := by
    rw [Text.trimBlock_crlf hplain, ← apply_ite]
  rw [htext, hreported.origin]
  exact (hreported.appendLeaf (by simp only [Content.dropReturns, Text.dropReturns_crlf])).read

/-- Past a unit that ends no line. -/
theorem moveTo_next {u : CodeUnit} (hu : u ≠ lineFeed)
    (hahead : m.scanner.cursor.ahead.head? = some u) :
    Shadows t (m.moveTo (m.scanner.offset + 1)) (m'.moveTo (m'.scanner.offset + 1)) := by
  obtain ⟨rest, hrest⟩ := List.head?_eq_some_iff.1 hahead
  have hdrop : t.drop m.scanner.offset = u :: rest := by
    rw [← h.text, ← hrest]
    exact m.scanner.cursor.drop_offset
  have hlength := congrArg List.length hdrop
  rw [List.length_drop, List.length_cons] at hlength
  have hone : crlfOffset (u :: rest) 1 = 1 :=
    congrArg List.length (Text.crlf_cons hu [])
  have hoffset : crlfOffset t (m.scanner.offset + 1) = m'.scanner.offset + 1 := by
    rw [Text.crlfOffset_add, hdrop, hone, h.offset]
  rw [← hoffset]
  exact h.moveTo (by omega)

theorem formulaText {token : Token} (hsolid : token.isBlank = false) :
    ∃ text terminated x x', m.formulaText token = (text, terminated, x) ∧
      m'.formulaText (token.crlf (crlfOffset t)) = (Text.crlf text, terminated, x') ∧
      Shadows t x x' := by
  have hmarkers : ∀ marker ∈
      (if token.value == units "f$" then Command.markers (units "f$")
        else if token.value == units "f[" then Command.markers (units "f]")
        else [units "\x7d"]), marker.IsUnbroken ∧ marker ≠ [] := by
    split
    · decide +kernel
    · split <;> decide +kernel
  obtain ⟨block, x, x', hx, hx', -, hblock⟩ := h.rawBlock hmarkers
  unfold Machine.formulaText
  rw [Token.value_crlf hsolid, hx, hx']
  dsimp only
  split
  · refine ⟨_, _, _, _, rfl, ?_, hblock⟩
    rw [Text.crlf_append, Text.crlf_append]
    rfl
  · split
    · refine ⟨_, _, _, _, rfl, ?_, hblock⟩
      rw [Text.crlf_append, Text.crlf_append]
      rfl
    -- an environment is named in braces before its text
    · have hmoved : Shadows t
          (if x.scanner.cursor.ahead.head? == some (unit '\x7b') then
            x.moveTo (x.scanner.offset + 1) else x)
          (if x'.scanner.cursor.ahead.head? == some (unit '\x7b') then
            x'.moveTo (x'.scanner.offset + 1) else x') := by
        rw [hblock.scanner.ahead, Text.head?_crlf_eq (by decide) (by decide)]
        split
        · next hbrace => exact hblock.moveTo_next (by decide) (eq_of_beq hbrace)
        · exact hblock
      revert hmoved
      generalize (if x.scanner.cursor.ahead.head? == _ then _ else x : Machine) = y
      generalize (if x'.scanner.cursor.ahead.head? == _ then _ else x' : Machine) = y'
      intro hmoved
      have hending : Text.IsUnbroken (units "f\x7d") := by decide +kernel
      obtain ⟨body, z, z', hz, hz', -, hbody⟩ :=
        hmoved.rawBlock (Command.markers_unbroken hending)
      rw [hz, hz']
      refine ⟨_, _, _, _, rfl, ?_, hbody⟩
      dsimp only
      simp only [Text.crlf_append, Text.trim_crlf]
      rfl

theorem formula {token : Token} (hsolid : token.isBlank = false) :
    Shadows t (m.formula token) (m'.formula (token.crlf (crlfOffset t))) := by
  unfold Machine.formula
  obtain ⟨text, terminated, x, x', hx, hx', htext⟩ := h.formulaText hsolid
  rw [hx, hx']
  dsimp only
  have hreported := htext.report_unless terminated terminated token (token.crlf (crlfOffset t))
    (.unterminatedFormula token.value) (.unterminatedFormula (token.crlf (crlfOffset t)).value)
  revert hreported
  generalize (if terminated then x else _ : Machine) = y
  generalize (if terminated then x' else _ : Machine) = y'
  intro hreported
  rw [hreported.formulas, Formula.register_crlf, hreported.relPath]
  have hregistered : Shadows t { y with formulas := (Formula.register y.formulas text).2 }
      { y' with formulas := (Formula.register y.formulas text).2.map Text.crlf } :=
    { hreported with formulas := rfl }
  exact (hregistered.appendLeaf (by simp only [Content.dropReturns, Text.dropReturns_crlf])).read

/-! ### Files -/

theorem includedText (token token' : Token) (file block : Text) :
    ReadAlike t (m.includedText token file block) (m'.includedText token' file block) := by
  unfold Machine.includedText
  rw [h.options]
  split
  · exact ⟨_, _, _, rfl, rfl, h.report ..⟩
  · split
    · exact ⟨_, _, _, rfl, rfl, h⟩
    · split
      · exact ⟨_, _, _, rfl, rfl, h⟩
      · exact ⟨_, _, _, rfl, rfl, h.report ..⟩

theorem inclusion (token token' : Token) (type : IncludeType) :
    Shadows t (m.inclusion token type) (m'.inclusion token' type) := by
  unfold Machine.inclusion
  obtain ⟨_ | file, x, x', hx, hx', hfile⟩ := h.argument
  · rw [hx, hx']
    exact Shadows.read (hfile.report ..)
  · rw [hx, hx']
    dsimp only
    obtain ⟨block?, y, y', hy, hy', hblock⟩ := hfile.argument_if (type == .snippet)
    rw [hy, hy']
    dsimp only
    have hreported := hblock.report_if (type == .snippet && (block?.getD []).isEmpty)
      (type == .snippet && (block?.getD []).isEmpty) token token' (.missingBlockName file)
      (.missingBlockName file)
    revert hreported
    generalize (if type == .snippet && _ then _ else y : Machine) = z
    generalize (if type == .snippet && _ then _ else y' : Machine) = z'
    intro hreported
    obtain ⟨text, w, w', hw, hw', htext⟩ :=
      hreported.includedText token token' file (block?.getD [])
    rw [hw, hw']
    dsimp only
    split
    · have hincluded : Shadows t { w with included := some { text } }
          { w' with included := some { text } } := { htext with included := rfl }
      have horigin := hincluded.origin
      rw [horigin]
      exact (hincluded.appendLeaf rfl).read
    · rw [htext.origin]
      exact (htext.appendLeaf rfl).read

theorem includeStep (token token' : Token) (operator : IncludeOperator) :
    Shadows t (m.includeStep token operator) (m'.includeStep token' operator) := by
  unfold Machine.includeStep
  obtain ⟨pattern, x, x', hx, hx', hpattern⟩ := h.restOfLine
  rw [hx, hx']
  dsimp only
  have hreported := hpattern.report_if pattern.isEmpty pattern.isEmpty token token'
    (.missingPattern token.value) (.missingPattern token'.value)
  revert hreported
  generalize (if pattern.isEmpty then _ else x : Machine) = y
  generalize (if pattern.isEmpty then _ else x' : Machine) = y'
  intro hreported
  rw [hreported.included]
  have hstep {z z' : Machine} (hz : Shadows t z z') (text : Text) : Shadows t
      ((z.setChildren (continueRun z.children)).append (.leaf (.includeStep
        { operator, pattern, text, origin := (z.setChildren (continueRun z.children)).origin
          isFirst := beginsRun z.children, isLast := true }))).read
      ((z'.setChildren (continueRun z'.children)).append (.leaf (.includeStep
        { operator, pattern, text, origin := (z'.setChildren (continueRun z'.children)).origin
          isFirst := beginsRun z'.children, isLast := true }))).read := by
    have hcontinued := hz.setChildren (continueRun_congr hz.children)
    rw [hcontinued.origin, beginsRun_congr hz.children]
    exact (hcontinued.appendLeaf rfl).read
  cases y.included with
  | some buffer =>
      have happlied : Shadows t { y with included := some (buffer.apply operator pattern).2 }
          { y' with included := some (buffer.apply operator pattern).2 } :=
        { hreported with included := rfl }
      exact hstep happlied _
  | none => exact hstep (hreported.report ..) []

/-! ### Images and diagrams -/

theorem sizes (n : Nat) (size : Text × Text) : ReadAlike t (sizes n size m) (Machine.sizes n size m') := by
  induction n generalizing m m' size with
  | zero => exact ⟨_, _, _, rfl, rfl, h⟩
  | succ n ih =>
      have hle : m.scanner.offset ≤ t.length := h.text ▸ m.scanner.offset_le
      unfold Machine.sizes
      obtain ⟨_ | argument, x, x', hx, hx', hargument⟩ := h.argument
      · rw [hx, hx', h.offset]
        exact ⟨_, _, _, rfl, rfl, hargument.moveTo hle⟩
      · rw [hx, hx', h.offset]
        dsimp only
        split
        · exact ih hargument _
        · exact ih hargument _
        · exact ⟨_, _, _, rfl, rfl, hargument.moveTo hle⟩

theorem captionAndSize :
    ∃ caption size x x', m.captionAndSize = (caption, size, x) ∧
      m'.captionAndSize = (caption, size, x') ∧ Shadows t x x' := by
  unfold Machine.captionAndSize
  obtain ⟨caption?, x, x', hx, hx', hcaption⟩ := h.quoted
  rw [hx, hx']
  dsimp only
  have hlength : x.scanner.cursor.ahead.length < x'.scanner.cursor.ahead.length + 1 := by
    rw [hcaption.scanner.ahead]
    exact Nat.lt_succ_of_le (Text.length_le_crlf _)
  rw [← sizes_of_lt hlength]
  obtain ⟨size, y, y', hy, hy', hsize⟩ := hcaption.sizes (x'.scanner.cursor.ahead.length + 1) ([], [])
  rw [hy, hy']
  exact ⟨_, _, _, _, rfl, rfl, hsize⟩

theorem publishedName (token token' : Token) (file format : Text) :
    ReadAlike t (m.publishedName token file format) (m'.publishedName token' file format) := by
  unfold Machine.publishedName
  rw [h.options]
  split
  · exact ⟨_, _, _, rfl, rfl, h⟩
  · split
    · exact ⟨_, _, _, rfl, rfl, h⟩
    · exact ⟨_, _, _, rfl, rfl, h.report ..⟩

theorem image (token token' : Token) : Shadows t (m.image token) (m'.image token') := by
  unfold Machine.image
  obtain ⟨format?, x, x', hx, hx', hformat⟩ := h.argument
  rw [hx, hx']
  dsimp only
  obtain ⟨file?, y, y', hy, hy', hfile⟩ := hformat.argument_if format?.isSome
  rw [hy, hy']
  dsimp only
  cases format? with
  | none => exact Shadows.read (hfile.report ..)
  | some format =>
      cases file? with
      | none => exact Shadows.read (hfile.report ..)
      | some file =>
          dsimp only
          split
          · exact Shadows.read (hfile.report ..)
          · obtain ⟨caption, ⟨width, height⟩, z, z', hz, hz', hcaption⟩ := hfile.captionAndSize
            rw [hz, hz']
            dsimp only
            have hname : ReadAlike t
                (if Path.isAbsolute file then (file, z) else z.publishedName token file format)
                (if Path.isAbsolute file then (file, z') else z'.publishedName token' file format) := by
              split
              · exact ⟨_, _, _, rfl, rfl, hcaption⟩
              · exact hcaption.publishedName token token' file format
            obtain ⟨name, w, w', hw, hw', hnamed⟩ := hname
            rw [hw, hw']
            dsimp only
            obtain ⟨text, v, v', hv, hv', htext⟩ := hnamed.plain_if caption.isEmpty caption
            rw [hv, hv']
            dsimp only
            rw [htext.relPath]
            exact (htext.append rfl).read

theorem diagramFile (token token' : Token) (type : DiagramType) :
    Shadows t (m.diagramFile token type) (m'.diagramFile token' type) := by
  unfold Machine.diagramFile
  obtain ⟨_ | file, x, x', hx, hx', hfile⟩ := h.argument
  · rw [hx, hx']
    exact Shadows.read (hfile.report ..)
  · rw [hx, hx']
    dsimp only
    obtain ⟨caption, ⟨width, height⟩, y, y', hy, hy', hcaption⟩ := hfile.captionAndSize
    rw [hy, hy']
    dsimp only
    obtain ⟨text, z, z', hz, hz', htext⟩ := hcaption.plain_if caption.isEmpty caption
    rw [hz, hz']
    dsimp only
    rw [htext.relPath, htext.origin]
    exact (htext.append rfl).read

/-! ### References -/

theorem reference (token token' : Token) (isSubPage : Bool) :
    Shadows t (m.reference token isSubPage) (m'.reference token' isSubPage) := by
  unfold Machine.reference
  obtain ⟨_ | target, x, x', hx, hx', htarget⟩ := h.argument
  · rw [hx, hx']
    exact Shadows.read (htarget.report ..)
  · rw [hx, hx']
    dsimp only
    obtain ⟨text?, y, y', hy, hy', htext⟩ := htarget.quoted
    rw [hy, hy']
    dsimp only
    obtain ⟨_ | found, z, z', hz, hz', hfound⟩ := htext.resolve target
    · rw [hz, hz']
      dsimp only
      have hreported := hfound.report token token' (.unresolvedTarget target token.value)
        (.unresolvedTarget target token'.value)
      have hbegun := hreported.changeStyle_bare .italic true token.start token'.start
      exact (Shadows.changeStyle_bare (hbegun.appendLeaf rfl) .italic false ..).read
    · rw [hz, hz']
      dsimp only
      cases text? with
      | none =>
          dsimp only
          rw [hfound.relPath]
          exact (hfound.append rfl).read
      | some text =>
          dsimp only
          obtain ⟨nodes, w, w', hw, hw', hnodes⟩ := hfound.plain false text
          rw [hw, hw']
          dsimp only
          rw [hnodes.relPath]
          exact (hnodes.append rfl).read

theorem link {token : Token} (hsolid : token.isBlank = false) :
    Shadows t (m.link token) (m'.link (token.crlf (crlfOffset t))) := by
  unfold Machine.link
  obtain ⟨_ | target, x, x', hx, hx', htarget⟩ := h.argument
  · rw [hx, hx']
    exact Shadows.read (htarget.report ..)
  · rw [hx, hx']
    dsimp only
    obtain ⟨found?, y, y', hy, hy', hfound⟩ := htarget.resolve target
    rw [hy, hy']
    dsimp only
    rw [hfound.relPath, crlf_eq_opener hsolid]
    exact (hfound.push (Construct.alike_crlf (.link _ _ token))).read

theorem citation (token token' : Token) : Shadows t (m.citation token) (m'.citation token') := by
  unfold Machine.citation
  obtain ⟨_ | label, x, x', hx, hx', hlabel⟩ := h.argument
  · rw [hx, hx']
    exact Shadows.read (hlabel.report ..)
  · rw [hx, hx']
    dsimp only
    rw [hlabel.options]
    generalize x.setting.options.surroundings.citation? label = found?
    have hreported := hlabel.report_unless found?.isSome found?.isSome token token'
      (.unresolvedCitation label) (.unresolvedCitation label)
    revert hreported
    generalize (if found?.isSome then x else _ : Machine) = y
    generalize (if found?.isSome then x' else _ : Machine) = y'
    intro hreported
    rw [hreported.relPath]
    exact (hreported.appendLeaf rfl).read

theorem internalReference (token token' : Token) :
    Shadows t (m.internalReference token) (m'.internalReference token') := by
  unfold Machine.internalReference
  obtain ⟨_ | target, x, x', hx, hx', htarget⟩ := h.argument
  · rw [hx, hx']
    exact Shadows.read (htarget.report ..)
  · rw [hx, hx']
    dsimp only
    obtain ⟨text?, y, y', hy, hy', htext⟩ := htarget.quoted
    rw [hy, hy']
    dsimp only
    obtain ⟨nodes, z, z', hz, hz', hnodes⟩ := htext.plain false (text?.getD target)
    rw [hz, hz']
    dsimp only
    rw [hnodes.relPath]
    exact (hnodes.append rfl).read

theorem copy (token token' : Token) (brief details : Bool) :
    Shadows t (m.copy token brief details) (m'.copy token' brief details) := by
  unfold Machine.copy
  obtain ⟨_ | target, x, x', hx, hx', htarget⟩ := h.argument
  · rw [hx, hx']
    exact Shadows.read (htarget.report ..)
  · rw [hx, hx']
    exact (htarget.appendLeaf rfl).read

theorem anchor (token token' : Token) : Shadows t (m.anchor token) (m'.anchor token') := by
  unfold Machine.anchor
  obtain ⟨_ | name, x, x', hx, hx', hname⟩ := h.argument
  · rw [hx, hx']
    exact Shadows.read (hname.report ..)
  · rw [hx, hx']
    dsimp only
    rw [hname.outputFile]
    exact (hname.appendLeaf rfl).read

theorem indexEntry : Shadows t m.indexEntry m'.indexEntry := by
  unfold Machine.indexEntry
  obtain ⟨entry, x, x', hx, hx', hentry⟩ := h.restOfLine
  have hwords : x'.setting.comment.indexWords = x.setting.comment.indexWords := by
    rw [hentry.setting]
    rfl
  have hanchor : x'.setting.comment.memberAnchor = x.setting.comment.memberAnchor := by
    rw [hentry.setting]
    rfl
  rw [hx, hx']
  dsimp only
  rw [hwords, hanchor, hentry.origin]
  split
  · exact hentry.read
  · exact (hentry.appendLeaf rfl).read

end Shadows

end Parser.Machine

end DocMarkup
