import DocMarkup.Proofs.Parser.Paragraph

/-!
Commands for raw text, files, images and references.  Each reads its arguments and adds a node made
whole to the paragraph, or reports that something is missing; a link is begun.  What a command can
lead to is said once, by `Adds`; what that means for the constructs and for the styles follows from
its cases.
-/

namespace DocMarkup.Parser.Machine

variable {m m' : Machine} {ends : Outcome → Prop}

/-- The machine reads on, and may take note of an included text, an item or a formula. -/
inductive Notes (m : Machine) : Machine → Prop
  | intro {m' : Machine} (h : ReadsOn m m') (included : Option IncludeBuffer) (items : Nat)
      (formulas : List Text) : Notes m { m' with included, items, formulas }

theorem ReadsOn.notes (h : ReadsOn m m') : Notes m m' :=
  .intro h m'.included m'.items m'.formulas

theorem Notes.fills (h : Notes m m') : Fills m m' := by
  cases h with
  | intro h included items formulas => exact h.fills.memory included items formulas

/-- What a command leads to that names something outside the text of the paragraph. -/
inductive Adds (m : Machine) : Machine → Prop
  | nothing {m' : Machine} (h : ReadsOn m m') : Adds m m'.read
  | leaf {m' : Machine} {content : Content} (h : Notes m m') (hwhole : isWhole content)
      (hkind : content.kind.isParagraphPart) : Adds m (m'.append (.leaf content)).read
  | titled {m' : Machine} {content : Content} {text : List Node} (h : ReadsOn m m')
      (htext : IsPlainText text) (hcontent : isTitled content.kind)
      (hkind : content.kind.isParagraphPart) : Adds m (m'.append (.branch content text)).read
  /-- A step through an included text goes on with the run before it, or begins one. -/
  | step {m' : Machine} (h : Notes m m') (step : IncludeStep)
      (hfirst : step.isFirst = beginsRun m'.children) (hlast : step.isLast) :
      Adds m ((m'.setChildren (continueRun m'.children)).append (.leaf (.includeStep step))).read
  /-- A word between two changes of style stands for what was not found. -/
  | emphasized {m' : Machine} (h : ReadsOn m m') (position : Nat) (word : Text) :
      Adds m ((((m'.changeStyle .italic true position []).append (.leaf (.word word))).changeStyle
        .italic false position [])).read

theorem Adds.goes (h : Adds m m') (hm : m.InParagraph) : Goes m ends m' := by
  cases h with
  | nothing h => exact hm.read h.fills
  | leaf h hwhole hkind => exact hm.leaf h.fills hwhole hkind
  | titled h htext hcontent hkind => exact hm.titled h.fills htext hcontent hkind
  | step h step hfirst hlast => exact hm.read (h.fills.step hm.kind step hfirst hlast)
  | emphasized h position word =>
      have hopened := hm.changeStyle h.fills .italic true position []
      exact hm.read (hm.changeStyle (hopened.leaf rfl (hm.lists rfl)) ..)

/-! ### Raw text -/

theorem verbatim_adds (m : Machine) (token : Token) (type : VerbatimType) (ending : Text) :
    Adds m (m.verbatim token type ending) := by
  have hhint := readsOn_iteArgument (type == .code) none (readsOn_attached m '\x7b' '\x7d')
  have hoption := readsOn_iteArgument (type == .htmlOnly) none
    (readsOn_attached (if type == .code then m.attached '\x7b' '\x7d' else (none, m)).2 '[' ']')
  have hraw := (hhint.trans hoption).trans (readsOn_raw _ (Command.markers ending))
  exact .leaf (hraw.trans (readsOn_ite' _ (readsOn_report _ _ _ rfl))).notes rfl rfl

theorem formula_adds (m : Machine) (token : Token) : Adds m (m.formula token) := by
  have hreport := (readsOn_formulaText m token).trans (readsOn_ite' (m.formulaText token).2.1
    (readsOn_report _ token (.unterminatedFormula token.value) rfl))
  exact .leaf (.intro hreport _ _ _) rfl rfl

/-! ### Files -/

theorem inclusion_adds (m : Machine) (token : Token) (type : IncludeType) :
    Adds m (m.inclusion token type) := by
  have hargument := readsOn_argument m
  unfold inclusion
  split
  · next m' heq =>
    rw [heq] at hargument
    exact .nothing (hargument.trans (readsOn_report _ _ _ rfl))
  · next file m' heq =>
    rw [heq] at hargument
    have hblock := hargument.trans
      (readsOn_iteArgument (type == .snippet) none (readsOn_argument m'))
    dsimp only
    generalize (if type == .snippet then m'.argument else (none, m')) = found at hblock ⊢
    have hreport := hblock.trans (readsOn_ite (type == .snippet && (found.1.getD []).isEmpty)
      (readsOn_report _ token (.missingBlockName file) rfl))
    have htext := hreport.trans (readsOn_includedText _ token file (found.1.getD []))
    refine .leaf ?_ rfl rfl
    split
    · exact .intro htext _ _ _
    · exact htext.notes

theorem includeStep_adds (m : Machine) (token : Token) (operator : IncludeOperator) :
    Adds m (m.includeStep token operator) := by
  have hpattern := (readsOn_restOfLine m).trans (readsOn_ite m.restOfLine.1.isEmpty
    (readsOn_report _ token (.missingPattern token.value) rfl))
  unfold includeStep
  dsimp only
  generalize (if m.restOfLine.1.isEmpty then _ else m.restOfLine.2 : Machine) = m' at hpattern ⊢
  split
  · exact .step (.intro hpattern _ _ _) _ rfl rfl
  · exact .step (hpattern.trans (readsOn_report _ _ _ rfl)).notes _ rfl rfl

theorem readsOn_imageName (m : Machine) (token : Token) (isExternal : Bool) (file format : Text) :
    ReadsOn m (if isExternal then (file, m) else m.publishedName token file format).2 := by
  cases isExternal with
  | true => exact .refl m
  | false => exact readsOn_publishedName m token file format

/-- A caption is plain text, read apart from the comment if there is one. -/
theorem plain_caption (m : Machine) (caption : Text) :
    IsPlainText (if caption.isEmpty then ([], m) else m.plain false caption).1 ∧
      ReadsOn m (if caption.isEmpty then ([], m) else m.plain false caption).2 := by
  split
  · exact ⟨isPlainText_nil, .refl m⟩
  · exact ⟨isPlainText_plain _ _ _, readsOn_plain ..⟩

theorem image_adds (m : Machine) (token : Token) : Adds m (m.image token) := by
  have hformat := readsOn_argument m
  unfold image
  dsimp only
  generalize m.argument = format at hformat
  have hfile := hformat.trans
    (readsOn_iteArgument format.1.isSome none (readsOn_argument format.2))
  generalize (if format.1.isSome then format.2.argument else (none, format.2)) = file at hfile
  split
  · next name path hname hpath =>
    split
    · exact .nothing (hfile.trans (readsOn_report _ _ _ rfl))
    · have hsize := hfile.trans (readsOn_captionAndSize file.2)
      generalize file.2.captionAndSize = size at hsize
      have hpublished := hsize.trans
        (readsOn_imageName size.2.2 token (Path.isAbsolute path) path name)
      generalize (if Path.isAbsolute path then (path, size.2.2) else _) = published at hpublished
      obtain ⟨hplain, hcaption⟩ := plain_caption published.2 size.1
      exact .titled (hpublished.trans hcaption) hplain rfl rfl
  · exact .nothing (hfile.trans (readsOn_report _ _ _ rfl))

theorem diagramFile_adds (m : Machine) (token : Token) (type : DiagramType) :
    Adds m (m.diagramFile token type) := by
  have hargument := readsOn_argument m
  unfold diagramFile
  split
  · next m' heq =>
    rw [heq] at hargument
    exact .nothing (hargument.trans (readsOn_report _ _ _ rfl))
  · next file m' heq =>
    rw [heq] at hargument
    have hsize := hargument.trans (readsOn_captionAndSize m')
    obtain ⟨hplain, hcaption⟩ := plain_caption m'.captionAndSize.2.2 m'.captionAndSize.1
    exact .titled (hsize.trans hcaption) hplain rfl rfl

/-! ### References -/

theorem reference_adds (m : Machine) (token : Token) (isSubPage : Bool) :
    Adds m (m.reference token isSubPage) := by
  have hargument := readsOn_argument m
  unfold reference
  split
  · next m' heq =>
    rw [heq] at hargument
    exact .nothing (hargument.trans (readsOn_report _ _ _ rfl))
  · next target m' heq =>
    rw [heq] at hargument
    have hquoted := hargument.trans (readsOn_quoted m')
    have hresolve := hquoted.trans (readsOn_resolve m'.quoted.2 target)
    dsimp only
    split
    · next m'' heq =>
      rw [heq] at hresolve
      exact .emphasized (hresolve.trans (readsOn_report _ _ _ rfl)) token.start _
    · next found m'' heq =>
      rw [heq] at hresolve
      split
      · exact .titled (hresolve.trans (readsOn_plain ..)) (isPlainText_plain _ _ _) rfl rfl
      · exact .titled hresolve isPlainText_nil rfl rfl

theorem link_goes (hm : m.InParagraph) (token : Token) : Goes m ends (m.link token) := by
  have hargument := readsOn_argument m
  unfold link
  split
  · next m' heq =>
    rw [heq] at hargument
    exact hm.read (hargument.trans (readsOn_report _ _ _ rfl)).fills
  · next target m' heq =>
    rw [heq] at hargument
    exact hm.opens (hargument.trans (readsOn_resolve ..)).fills (by trivial) rfl rfl (by rintro ⟨⟩) rfl

theorem citation_adds (m : Machine) (token : Token) : Adds m (m.citation token) := by
  have hargument := readsOn_argument m
  unfold citation
  split
  · next m' heq =>
    rw [heq] at hargument
    exact .nothing (hargument.trans (readsOn_report _ _ _ rfl))
  · next label m' heq =>
    rw [heq] at hargument
    exact .leaf (hargument.trans (readsOn_ite' _ (readsOn_report _ _ _ rfl))).notes rfl rfl

theorem internalReference_adds (m : Machine) (token : Token) :
    Adds m (m.internalReference token) := by
  have hargument := readsOn_argument m
  unfold internalReference
  split
  · next m' heq =>
    rw [heq] at hargument
    exact .nothing (hargument.trans (readsOn_report _ _ _ rfl))
  · next target m' heq =>
    rw [heq] at hargument
    have hquoted := hargument.trans (readsOn_quoted m')
    have hplain := isPlainText_plain m'.quoted.2 false (m'.quoted.1.getD target)
    exact .titled (hquoted.trans (readsOn_plain ..)) hplain rfl rfl

theorem copy_adds (m : Machine) (token : Token) (brief details : Bool) :
    Adds m (m.copy token brief details) := by
  have hargument := readsOn_argument m
  unfold copy
  split
  · next m' heq =>
    rw [heq] at hargument
    exact .nothing (hargument.trans (readsOn_report _ _ _ rfl))
  · next target m' heq =>
    rw [heq] at hargument
    exact .leaf hargument.notes rfl rfl

theorem anchor_adds (m : Machine) (token : Token) : Adds m (m.anchor token) := by
  have hargument := readsOn_argument m
  unfold anchor
  split
  · next m' heq =>
    rw [heq] at hargument
    exact .nothing (hargument.trans (readsOn_report _ _ _ rfl))
  · next name m' heq =>
    rw [heq] at hargument
    exact .leaf hargument.notes rfl rfl

theorem indexEntry_adds (m : Machine) : Adds m m.indexEntry := by
  have hline := readsOn_restOfLine m
  unfold indexEntry
  dsimp only
  split
  · exact .nothing hline
  · exact .leaf hline.notes rfl rfl

end DocMarkup.Parser.Machine
