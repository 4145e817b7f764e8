import DocMarkup.Proofs.Html.Markup

/-!
A page that is written piece by piece, where nothing breaks out of the place it is written to.
-/

namespace DocMarkup.Html

theorem isElementName {tag : String} (h : tag ∈ elements ++ otherElements) :
    IsElementName (units tag) :=
  .inl ⟨tag, h, rfl⟩

theorem isElementName_headingTag (level : Number) : IsElementName (units (Page.headingTag level)) :=
  .inr ⟨level, rfl⟩

/-! ### Attributes -/

/-- An attribute that is written with its name. -/
theorem areAttributes_named {value : Text} (name : String) (before : Text)
    (hbefore : before = units " " ++ units name ++ units "=\"")
    (hname : IsAttributeName (units name)) (hvalue : IsValue value) :
    AreAttributes (before ++ value ++ units "\"") := by
  rw [hbefore]
  exact .single hname hvalue

/-- One more attribute behind others. -/
theorem AreAttributes.snoc {attributes value : Text} (h : AreAttributes attributes)
    (name : String) (before : Text) (hbefore : before = units " " ++ units name ++ units "=\"")
    (hname : IsAttributeName (units name)) (hvalue : IsValue value) :
    AreAttributes (attributes ++ before ++ value ++ units "\"") := by
  rw [List.append_assoc, List.append_assoc, ← List.append_assoc before]
  exact h.append (areAttributes_named name _ hbefore hname hvalue)

/-- An attribute that is written as a whole. -/
theorem areAttributes_whole {written : Text} (name value : String)
    (hwritten : written = units " " ++ units name ++ units "=\"" ++ units value ++ units "\"")
    (hname : IsAttributeName (units name)) (hvalue : IsValue (units value)) :
    AreAttributes written := by
  rw [hwritten]
  exact .single hname hvalue

theorem areAttributes_class {className : String} (h : IsValue (units className)) :
    AreAttributes (units (" class=\"" ++ className ++ "\"")) := by
  rw [units_append, units_append]
  exact areAttributes_named "class" _ (by decide) (by decide) h

theorem areAttributes_writeAttributes {attributes : Attributes}
    (h : ∀ name ∈ writtenNames attributes, IsAttributeName name) :
    AreAttributes (writeAttributes attributes) := by
  induction attributes with
  | nil => exact .nil
  | cons a attributes ih =>
      rw [writeAttributes, List.flatMap_cons, ← writeAttributes]
      cases hempty : a.value.isEmpty with
      | true =>
          refine ih fun name hname => h name ?_
          simpa [writtenNames, hempty] using hname
      | false =>
          have hnames : writtenNames (a :: attributes) = a.name :: writtenNames attributes := by
            simp [writtenNames, hempty]
          rw [hnames] at h
          obtain ⟨hname, hrest⟩ := List.forall_mem_cons.1 h
          exact .cons hname (isValue_escapeAttribute a.value) (ih hrest)

/-- What a page is told can stand in the value of an attribute. -/
structure PageOptions.AreValues (options : PageOptions) : Prop where
  fileExtension : IsValue options.fileExtension
  tagFiles : ∀ entry ∈ options.tagFiles, IsValue entry.2
  relPath : IsValue options.relPath

/-- The parts of a target that are written as they are; of its tooltip, quotes are escaped. -/
structure Page.LinkTarget.AreValues (target : Page.LinkTarget) : Prop where
  ref : IsValue target.ref
  file : IsValue target.file
  relPath : IsValue target.relPath
  anchor : IsValue target.anchor

namespace Page

theorem isValue_base {options : PageOptions} (h : options.AreValues) {relPath : Text}
    (hrelPath : IsValue relPath) (ref : Text) : IsValue (base options relPath ref) := by
  unfold base
  split
  · exact hrelPath
  · dsimp only
    generalize hfound : ((options.tagFiles.find? (·.1 == ref)).map (·.2)).getD [] = found
    have hvalue : IsValue found := by
      rw [← hfound]
      cases hentry : options.tagFiles.find? (·.1 == ref) with
      | none => exact isValue_nil
      | some entry => exact h.tagFiles entry (List.mem_of_find?_eq_some hentry)
    have hslash : IsValue (units "/") := by decide
    repeat' split
    all_goals simp [hvalue, hrelPath, hslash]

/-- Attributes with the space behind them that the next one needs. -/
def AreSpaced (t : Text) : Prop := ∃ attributes, AreAttributes attributes ∧ t = attributes ++ units " "

theorem AreSpaced.last {t value : Text} (h : AreSpaced t) (name : String) (before : Text)
    (hbefore : before = units name ++ units "=\"") (hname : IsAttributeName (units name))
    (hvalue : IsValue value) : AreAttributes (t ++ (before ++ value ++ units "\"")) := by
  obtain ⟨attributes, hattributes, rfl⟩ := h
  have hlast := AreAttributes.single hname hvalue
  rw [hbefore]
  simpa [List.append_assoc] using hattributes.append hlast

theorem AreSpaced.next {t value : Text} (h : AreSpaced t) (name : String) (before : Text)
    (hbefore : before = units name ++ units "=\"") (hname : IsAttributeName (units name))
    (hvalue : IsValue value) : AreSpaced (t ++ (before ++ value ++ units "\" ")) := by
  have hend : units "\" " = units "\"" ++ units " " := by decide
  refine ⟨_, h.last name _ hbefore hname hvalue, ?_⟩
  simp [hend]

theorem AreSpaced.external {options : PageOptions} (h : options.AreValues) {relPath ref t : Text}
    (hrelPath : IsValue relPath) (href : IsValue ref) (ht : AreSpaced t) :
    AreSpaced (t ++ externalAttributes options relPath ref) := by
  have hwindow : AreSpaced
      (t ++ if options.externalInWindow then units "target=\"_blank\" " else []) := by
    split
    · have htarget : units "target=\"_blank\" " =
          units "target=\"" ++ units "_blank" ++ units "\" " := by decide
      rw [htarget]
      exact ht.next "target" _ (by decide) (by decide) (by decide)
    · rwa [List.append_nil]
  unfold externalAttributes
  dsimp only
  split
  · exact hwindow
  · have hvalue : IsValue (ref ++ units ":" ++ base options relPath ref) := by
      simp [href, isValue_base h hrelPath, (by decide : IsValue (units ":"))]
    have htagFile := hwindow.next "data-tagfile" (units "data-tagfile=\"") (by decide)
      (by decide) hvalue
    simpa [List.append_assoc] using htagFile

theorem areAttributes_linkAttributes {options : PageOptions} (h : options.AreValues)
    {localClass externalClass : String} (hlocal : IsValue (units localClass))
    (hexternal : IsValue (units externalClass)) {escape : Text → Text} {target : LinkTarget}
    (htarget : target.AreValues) (htooltip : IsValue (escape target.tooltip)) :
    AreAttributes (linkAttributes options localClass externalClass escape target) := by
  have hclass (name : String) (hname : IsValue (units name)) :
      AreSpaced (units (" class=\"" ++ name ++ "\" ")) := by
    refine ⟨_, areAttributes_class hname, ?_⟩
    have hend : units "\" " = units "\"" ++ units " " := by decide
    simp [units_append, hend]
  have hstart : AreSpaced (if target.ref.isEmpty then units (" class=\"" ++ localClass ++ "\" ")
      else units (" class=\"" ++ externalClass ++ "\" ") ++
        externalAttributes options target.relPath target.ref) := by
    split
    · exact hclass localClass hlocal
    · exact (hclass externalClass hexternal).external h htarget.relPath htarget.ref
  have haddress : IsValue (base options target.relPath target.ref ++
      (if target.file.isEmpty then [] else target.file ++ options.fileExtension) ++
      (if target.anchor.isEmpty then [] else units "#" ++ target.anchor)) := by
    refine isValue_append.2 ⟨isValue_append.2 ⟨isValue_base h htarget.relPath _, ?_⟩, ?_⟩
    · split
      · exact isValue_nil
      · exact isValue_append.2 ⟨htarget.file, h.fileExtension⟩
    · split
      · exact isValue_nil
      · exact isValue_append.2 ⟨by decide, htarget.anchor⟩
  have htitle : AreAttributes (if target.tooltip.isEmpty then []
      else units " title=\"" ++ escape target.tooltip ++ units "\"") := by
    split
    · exact .nil
    · exact areAttributes_named "title" _ (by decide) (by decide) htooltip
  have hwhole := (hstart.last "href" (units "href=\"") (by decide) (by decide)
    haddress).append htitle
  unfold linkAttributes
  simpa only [List.append_assoc] using hwhole

/-! ### Pages -/

/-- Nothing breaks out of the pieces of a page. -/
structure IsSealed (p : Page) : Prop where
  options : p.options.AreValues
  pieces : ∀ piece ∈ p.pieces, piece.IsSealed

variable {p : Page}

theorem IsSealed.isMarkup (h : p.IsSealed) : IsMarkup p.contents :=
  isMarkup_flatMap fun piece hpiece => h.pieces piece (List.mem_reverse.1 hpiece)

theorem sealed_put (piece : Piece) (hpiece : piece.IsSealed) :
    (p.put piece).IsSealed ↔ p.IsSealed := by
  unfold put
  split
  · rfl
  · constructor
    · exact fun h => ⟨h.options, (List.forall_mem_cons.1 h.pieces).2⟩
    · exact fun h => ⟨h.options, List.forall_mem_cons.2 ⟨hpiece, h.pieces⟩⟩

@[simp]
theorem sealed_putOpening {tag : String} {attributes : Text} (htag : IsElementName (units tag))
    (hattributes : AreAttributes attributes) :
    (p.putOpening tag attributes).IsSealed ↔ p.IsSealed :=
  sealed_put (.opening tag attributes) ⟨htag, hattributes⟩

@[simp]
theorem sealed_putClosing {tag : String} (htag : IsElementName (units tag)) :
    (p.putClosing tag).IsSealed ↔ p.IsSealed :=
  sealed_put (.closing tag) htag

@[simp]
theorem sealed_put_text {t : Text} (ht : TagFree t) : (p.put (.text t)).IsSealed ↔ p.IsSealed :=
  sealed_put (.text t) (.inl ht)

@[simp]
theorem sealed_putText (t : Text) : (p.putText t).IsSealed ↔ p.IsSealed :=
  sealed_put_text (tagFree_escapeText t)

@[simp]
theorem sealed_putLayout {s : String} (hs : TagFree (units s)) :
    (p.putLayout s).IsSealed ↔ p.IsSealed :=
  sealed_put_text hs

@[simp]
theorem sealed_putRaw {t : Text} (ht : TagFree t) : (p.putRaw t).IsSealed ↔ p.IsSealed :=
  sealed_put (.raw t) ht

@[simp]
theorem sealed_put_single {tag : String} {attributes : Text} (htag : IsElementName (units tag))
    (hattributes : AreAttributes attributes) :
    (p.put (.single tag attributes)).IsSealed ↔ p.IsSealed :=
  sealed_put (.single tag attributes) (.inl ⟨htag, hattributes⟩)

@[simp]
theorem sealed_hide : p.hide.IsSealed ↔ p.IsSealed :=
  ⟨fun h => ⟨h.options, h.pieces⟩, fun h => ⟨h.options, h.pieces⟩⟩

@[simp]
theorem sealed_unhide : p.unhide.IsSealed ↔ p.IsSealed := by
  unfold unhide
  split <;> exact ⟨fun h => ⟨h.options, h.pieces⟩, fun h => ⟨h.options, h.pieces⟩⟩

@[simp]
theorem sealed_addIndexItem (item : IndexItem) : (p.addIndexItem item).IsSealed ↔ p.IsSealed :=
  ⟨fun h => ⟨h.options, h.pieces⟩, fun h => ⟨h.options, h.pieces⟩⟩

@[simp]
theorem sealed_column (column : Nat) : ({ p with column } : Page).IsSealed ↔ p.IsSealed :=
  ⟨fun h => ⟨h.options, h.pieces⟩, fun h => ⟨h.options, h.pieces⟩⟩

/-! ### Blocks and links -/

theorem IsSealed.startLink (h : p.IsSealed) {target : LinkTarget} (htarget : target.AreValues)
    (htooltip : TagFree target.tooltip) : (p.startLink target).IsSealed := by
  have hattributes := areAttributes_linkAttributes h.options (by decide : IsValue (units "el"))
    (by decide : IsValue (units "elRef")) htarget (isValue_escapeQuotes htooltip)
  exact (sealed_putOpening (isElementName (by decide)) hattributes).2 h

@[simp]
theorem sealed_endLink : p.endLink.IsSealed ↔ p.IsSealed :=
  sealed_putClosing (isElementName (by decide))

@[simp]
theorem sealed_startParagraph {attributes : Text} (hattributes : AreAttributes attributes) :
    (p.startParagraph attributes).IsSealed ↔ p.IsSealed :=
  sealed_putOpening (isElementName (by decide)) hattributes

@[simp]
theorem sealed_endParagraph : p.endParagraph.IsSealed ↔ p.IsSealed := by
  simp (disch := first | exact isElementName (by decide) | decide) [endParagraph]

/-- An anchor, which has nothing in it. -/
theorem sealed_anchor {attributes : Text} (hattributes : AreAttributes attributes) :
    ((p.putOpening "a" attributes).putClosing "a").IsSealed ↔ p.IsSealed := by
  rw [sealed_putClosing (isElementName (by decide)),
    sealed_putOpening (isElementName (by decide)) hattributes]

@[simp]
theorem sealed_writeAnchor {name : Text} (hname : IsValue name) :
    (p.writeAnchor name).IsSealed ↔ p.IsSealed := by
  have hclass : AreAttributes (units " class=\"anchor\"") :=
    areAttributes_whole "class" "anchor" (by decide) (by decide) (by decide)
  have hboth : units " class=\"anchor\" id=\"" = units " class=\"anchor\"" ++ units " id=\"" := by
    decide
  unfold writeAnchor
  rw [hboth]
  exact sealed_anchor (hclass.snoc "id" _ (by decide) (by decide) hname)

@[simp]
theorem sealed_writeNamedAnchor {name : Text} (hname : IsValue name) :
    (p.writeNamedAnchor name).IsSealed ↔ p.IsSealed :=
  sealed_anchor (areAttributes_named "name" _ (by decide) (by decide) hname)

@[simp]
theorem sealed_startSection {anchor : Text} (hanchor : IsValue anchor) (level : Number) :
    (p.startSection anchor level).IsSealed ↔ p.IsSealed := by
  rw [startSection, sealed_putLayout (by decide), sealed_writeAnchor hanchor,
    sealed_putOpening (isElementName_headingTag level) .nil]

@[simp]
theorem sealed_endSection (level : Number) : (p.endSection level).IsSealed ↔ p.IsSealed := by
  rw [endSection, sealed_putLayout (by decide), sealed_putClosing (isElementName_headingTag level)]

@[simp]
theorem sealed_lineBreak : p.lineBreak.IsSealed ↔ p.IsSealed := by
  rw [lineBreak, sealed_putLayout (by decide)]
  exact sealed_put (.single "br" (units " ")) (.inr ⟨rfl, rfl⟩)

@[simp]
theorem sealed_writeRuler : p.writeRuler.IsSealed ↔ p.IsSealed := by
  rw [writeRuler, sealed_putLayout (by decide), sealed_put_single (isElementName (by decide)) .nil]

/-! ### Code -/

@[simp]
theorem sealed_startCodeFragment : p.startCodeFragment.IsSealed ↔ p.IsSealed :=
  sealed_putOpening (isElementName (by decide))
    (areAttributes_whole "class" "fragment" (by decide) (by decide) (by decide))

@[simp]
theorem sealed_endCodeFragment : p.endCodeFragment.IsSealed ↔ p.IsSealed := by
  have hcomment (p : Page) : (p.putLayout "<!-- fragment -->").IsSealed ↔ p.IsSealed :=
    sealed_put (.text _) (.inr rfl)
  rw [endCodeFragment, hcomment, sealed_putClosing (isElementName (by decide))]

@[simp]
theorem sealed_startCodeLine : p.startCodeLine.IsSealed ↔ p.IsSealed := by
  have hclass : AreAttributes (units " class=\"line\"") :=
    areAttributes_whole "class" "line" (by decide) (by decide) (by decide)
  rw [startCodeLine, sealed_putOpening (isElementName (by decide)) hclass, sealed_column]

@[simp]
theorem sealed_endCodeLine : p.endCodeLine.IsSealed ↔ p.IsSealed := by
  rw [endCodeLine, sealed_putLayout (by decide), sealed_putClosing (isElementName (by decide))]

@[simp]
theorem sealed_writeLineNumber (number : Number) :
    (p.writeLineNumber number).IsSealed ↔ p.IsSealed := by
  have hnumber : TagFree (Text.padLeft 5 CodeUnit.space (units number.decimal)) := by
    refine tagFree_append.2 ⟨fun u hu => ?_, tagFree_decimal number⟩
    rw [List.eq_of_mem_replicate hu]
    decide
  have hclass : AreAttributes (units " class=\"lineno\"") :=
    areAttributes_whole "class" "lineno" (by decide) (by decide) (by decide)
  rw [writeLineNumber, sealed_putLayout (by decide), sealed_putClosing (isElementName (by decide)),
    sealed_put_text hnumber, sealed_putOpening (isElementName (by decide)) hclass]

@[simp]
theorem sealed_putCode (t : Text) : (p.putCode t).IsSealed ↔ p.IsSealed := by
  have hwritten := tagFree_writeCode p.options.tabSize p.column (Text.codePoints t)
  exact (sealed_put_text hwritten).trans (sealed_column _)

@[simp]
theorem sealed_startFontClass {name : Text} (hname : IsValue name) :
    (p.startFontClass name).IsSealed ↔ p.IsSealed :=
  sealed_putOpening (isElementName (by decide))
    (areAttributes_named "class" _ (by decide) (by decide) hname)

@[simp]
theorem sealed_endFontClass : p.endFontClass.IsSealed ↔ p.IsSealed :=
  sealed_putClosing (isElementName (by decide))

theorem IsSealed.writeCodeLink (h : p.IsSealed) {target : LinkTarget} (href : IsValue target.ref)
    (hfile : IsValue target.file) (hanchor : IsValue target.anchor) (name : Text) :
    (p.writeCodeLink target name).IsSealed := by
  have htarget : ({ target with relPath := p.options.relPath } : LinkTarget).AreValues :=
    ⟨href, hfile, h.options.relPath, hanchor⟩
  have hattributes := areAttributes_linkAttributes h.options (by decide : IsValue (units "code"))
    (by decide : IsValue (units "codeRef")) htarget (isValue_escapeQuoted target.tooltip)
  unfold Page.writeCodeLink
  rw [sealed_putClosing (isElementName (by decide)), sealed_putText]
  exact (sealed_putOpening (isElementName (by decide)) hattributes).2 h

end Page

end DocMarkup.Html
