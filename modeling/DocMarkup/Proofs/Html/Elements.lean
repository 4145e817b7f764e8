import DocMarkup.Proofs.Html.Escape

/-!
The structural elements that are open on a page while it is written.
-/

namespace DocMarkup.Html

instance : DecidablePred IsName := fun name =>
  decidable_of_iff (name ≠ [] ∧ name.all isNameUnit ∧ TagFree name)
    ⟨fun ⟨nonempty, units, tagFree⟩ => ⟨nonempty, List.all_eq_true.1 units, tagFree⟩,
      fun h => ⟨h.nonempty, List.all_eq_true.2 h.units, h.tagFree⟩⟩

theorem isAttributes_nil : IsAttributes [] := ⟨tagFree_nil, .inl rfl⟩

/-- Attributes that begin with what is written before them. -/
theorem isAttributes_append {s t : Text} (hs : s.head? = some CodeUnit.space) :
    IsAttributes (s ++ t) ↔ TagFree s ∧ TagFree t := by
  constructor
  · exact fun h => tagFree_append.1 h.tagFree
  · intro h
    refine ⟨tagFree_append.2 h, .inr ?_⟩
    rw [List.head?_append, hs]
    rfl

theorem isAttributes_of_head? {t : Text} (ht : t.head? = some CodeUnit.space) :
    IsAttributes t ↔ TagFree t :=
  ⟨fun h => h.tagFree, fun h => ⟨h, .inr ht⟩⟩

/-- Attributes that end with a quoted value. -/
theorem isAttributes_quoted {before t : Text} (hspace : before.head? = some CodeUnit.space)
    (hbefore : TagFree before) (ht : TagFree t) : IsAttributes (before ++ t ++ units "\"") := by
  rw [List.append_assoc, isAttributes_append hspace, tagFree_append]
  exact ⟨hbefore, ht, by decide⟩

theorem isElement_of_mem {tag : String} (h : tag ∈ elements) : isElement (units tag) :=
  List.any_eq_true.2 ⟨tag, h, beq_self_eq_true _⟩

theorem isName_of_mem {tag : String} (h : tag ∈ elements) : IsName (units tag) := by
  have hnames : ∀ tag ∈ elements, IsName (units tag) := by decide +kernel
  exact hnames tag h

/-- The other elements that a page is made of. -/
def otherElements : List String :=
  ["p", "a", "b", "em", "code", "center", "small", "sub", "sup", "pre", "span", "object", "img",
    "hr", "br"]

theorem isName_other {tag : String} (h : tag ∈ otherElements) :
    IsName (units tag) ∧ isElement (units tag) = false := by
  have hnames : ∀ tag ∈ otherElements, IsName (units tag) ∧ isElement (units tag) = false := by
    decide +kernel
  exact hnames tag h

/-- What a tag adds to the elements that are open. -/
def openedBy (tag : String) : List Text := if isElement (units tag) then [units tag] else []

theorem openedBy_element {tag : String} (h : tag ∈ elements) : openedBy tag = [units tag] :=
  if_pos (isElement_of_mem h)

theorem openedBy_other {tag : String} (h : tag ∈ otherElements) : openedBy tag = [] :=
  if_neg (by simp [isName_other h])

/-- Nothing that a page is told has a bracket in it. -/
structure PageOptions.IsTagFree (options : PageOptions) : Prop where
  fileExtension : TagFree options.fileExtension
  tagFiles : ∀ entry ∈ options.tagFiles, TagFree entry.2
  relPath : TagFree options.relPath

/-- What a piece does to the elements that are open, the innermost first. -/
def Piece.Leads (piece : Piece) (before after : List Text) : Prop :=
  match piece.structuralTag? with
  | none => before = after
  | some tag => tag.next before = some after

namespace Page

/-- Output is shown, the tags written so far can be read back, and they nest but for the elements
that are open, the innermost first. -/
structure Nests (p : Page) (opened : List Text) : Prop where
  shown : p.hidden = false
  options : p.options.IsTagFree
  clean : ∀ piece ∈ p.pieces, piece.IsClean
  tags : openElements (p.pieces.reverse.filterMap Piece.structuralTag?) = some opened

variable {p : Page} {opened : List Text}

theorem nests_put {piece : Piece} :
    (p.put piece).Nests opened ↔
      piece.IsClean ∧ ∃ before, p.Nests before ∧ piece.Leads before opened := by
  unfold put
  cases hhidden : p.hidden with
  | true =>
      rw [if_pos rfl]
      constructor
      · exact fun h => absurd (hhidden.symm.trans h.shown) nofun
      · rintro ⟨-, before, h, -⟩
        exact absurd (hhidden.symm.trans h.shown) nofun
  | false =>
      rw [if_neg (by simp)]
      have htags : openElements ((piece :: p.pieces).reverse.filterMap Piece.structuralTag?) =
          (openElements (p.pieces.reverse.filterMap Piece.structuralTag?)).bind fun before =>
            match piece.structuralTag? with
            | none => some before
            | some tag => tag.next before := by
        rw [List.reverse_cons, List.filterMap_append, openElements, List.foldlM_append]
        cases htag : piece.structuralTag? with
        | none => simp [openElements, htag]
        | some tag => simp [openElements, htag]
      constructor
      · rintro ⟨shown, options, clean, tags⟩
        obtain ⟨hpiece, hclean⟩ := List.forall_mem_cons.1 clean
        obtain ⟨before, hbefore, hleads⟩ := Option.bind_eq_some_iff.1 (htags.symm.trans tags)
        refine ⟨hpiece, before, ⟨hhidden, options, hclean, hbefore⟩, ?_⟩
        unfold Piece.Leads
        split <;> simp_all
      · rintro ⟨hpiece, before, ⟨-, options, clean, tags⟩, hleads⟩
        refine ⟨rfl, options, List.forall_mem_cons.2 ⟨hpiece, clean⟩, htags.trans ?_⟩
        rw [tags, Option.bind_some]
        unfold Piece.Leads at hleads
        split <;> simp_all

/-! ### Pieces -/

theorem nests_put_of_none {piece : Piece} (hpiece : piece.structuralTag? = none) :
    (p.put piece).Nests opened ↔ piece.IsClean ∧ p.Nests opened := by
  simp [nests_put, Piece.Leads, hpiece]

theorem nests_put_of_some {piece : Piece} {tag : Tag} (hpiece : piece.structuralTag? = some tag) :
    (p.put piece).Nests opened ↔
      piece.IsClean ∧ ∃ before, p.Nests before ∧ tag.next before = some opened := by
  simp [nests_put, Piece.Leads, hpiece]

theorem nests_putOpening {tag : String} (hname : IsName (units tag)) (attributes : Text) :
    (p.putOpening tag attributes).Nests (openedBy tag ++ opened) ↔
      IsAttributes attributes ∧ p.Nests opened := by
  have hclean : (Piece.opening tag attributes).IsClean ↔ IsAttributes attributes :=
    and_iff_right hname
  unfold putOpening openedBy
  split
  · next helement =>
    have htag : (Piece.opening tag attributes).structuralTag? =
        some { name := units tag, opens := true } := if_pos helement
    rw [nests_put_of_some htag, hclean]
    simp
  · next hother =>
    have htag : (Piece.opening tag attributes).structuralTag? = none := if_neg hother
    rw [nests_put_of_none htag, hclean, List.nil_append]

theorem nests_putClosing {tag : String} (hname : IsName (units tag)) :
    (p.putClosing tag).Nests opened ↔ p.Nests (openedBy tag ++ opened) := by
  have hclean : (Piece.closing tag).IsClean := hname
  unfold putClosing openedBy
  split
  · next helement =>
    have htag : (Piece.closing tag).structuralTag? = some { name := units tag, opens := false } :=
      if_pos helement
    rw [nests_put_of_some htag, and_iff_right hclean]
    simp
  · next hother =>
    have htag : (Piece.closing tag).structuralTag? = none := if_neg hother
    rw [nests_put_of_none htag, and_iff_right hclean, List.nil_append]

@[simp]
theorem nests_putOpening_element {tag : String} (htag : tag ∈ elements) (attributes : Text) :
    (p.putOpening tag attributes).Nests (units tag :: opened) ↔
      IsAttributes attributes ∧ p.Nests opened := by
  rw [← nests_putOpening (isName_of_mem htag), openedBy_element htag, List.singleton_append]

@[simp]
theorem nests_putOpening_other {tag : String} (htag : tag ∈ otherElements) (attributes : Text) :
    (p.putOpening tag attributes).Nests opened ↔ IsAttributes attributes ∧ p.Nests opened := by
  rw [← nests_putOpening (isName_other htag).1, openedBy_other htag, List.nil_append]

@[simp]
theorem nests_putClosing_element {tag : String} (htag : tag ∈ elements) :
    (p.putClosing tag).Nests opened ↔ p.Nests (units tag :: opened) := by
  rw [nests_putClosing (isName_of_mem htag), openedBy_element htag, List.singleton_append]

@[simp]
theorem nests_putClosing_other {tag : String} (htag : tag ∈ otherElements) :
    (p.putClosing tag).Nests opened ↔ p.Nests opened := by
  rw [nests_putClosing (isName_other htag).1, openedBy_other htag, List.nil_append]

theorem nests_put_text {t : Text} (ht : TagFree t) :
    (p.put (.text t)).Nests opened ↔ p.Nests opened :=
  (nests_put_of_none rfl).trans (and_iff_right (.inl ht))

@[simp]
theorem nests_putText (t : Text) : (p.putText t).Nests opened ↔ p.Nests opened :=
  nests_put_text (tagFree_escapeText t)

@[simp]
theorem nests_putLayout {s : String} (hs : TagFree (units s)) :
    (p.putLayout s).Nests opened ↔ p.Nests opened :=
  nests_put_text hs

theorem nests_put_raw {t : Text} (ht : TagFree t) :
    (p.put (.raw t)).Nests opened ↔ p.Nests opened :=
  (nests_put_of_none rfl).trans (and_iff_right ht)

@[simp]
theorem nests_putRaw (t : Text) : (p.putRaw t).Nests opened ↔ (p.put (.raw t)).Nests opened :=
  Iff.rfl

@[simp]
theorem nests_put_single {tag : String} (htag : tag ∈ otherElements) (attributes : Text) :
    (p.put (.single tag attributes)).Nests opened ↔ IsAttributes attributes ∧ p.Nests opened := by
  obtain ⟨hname, hother⟩ := isName_other htag
  rw [nests_put_of_none rfl]
  exact and_congr_left' ⟨fun h => h.2.2, fun h => ⟨hname, hother, h⟩⟩

/-! ### Links -/

theorem tagFree_base {options : PageOptions} (h : options.IsTagFree) {relPath : Text}
    (hrelPath : TagFree relPath) (ref : Text) : TagFree (base options relPath ref) := by
  unfold base
  split
  · exact hrelPath
  · dsimp only
    generalize hfound : ((options.tagFiles.find? (·.1 == ref)).map (·.2)).getD [] = found
    have hfree : TagFree found := by
      rw [← hfound]
      cases hentry : options.tagFiles.find? (·.1 == ref) with
      | none => exact tagFree_nil
      | some entry => exact h.tagFiles entry (List.mem_of_find?_eq_some hentry)
    split
    · exact tagFree_nil
    · generalize hwhole : (if !relPath.isEmpty && found.head? == some (unit '.') then
        relPath ++ found else found) = whole
      have hfree : TagFree whole := by
        rw [← hwhole]
        split
        · exact tagFree_append.2 ⟨hrelPath, hfree⟩
        · exact hfree
      split
      · exact hfree
      · exact tagFree_append.2 ⟨hfree, by decide⟩

theorem tagFree_externalAttributes {options : PageOptions} (h : options.IsTagFree)
    {relPath ref : Text} (hrelPath : TagFree relPath) (href : TagFree ref) :
    TagFree (externalAttributes options relPath ref) := by
  have hwindow : TagFree (if options.externalInWindow then units "target=\"_blank\" " else []) := by
    split
    · decide
    · exact tagFree_nil
  unfold externalAttributes
  dsimp only
  split
  · exact hwindow
  · have hliterals : TagFree (units "data-tagfile=\"") ∧ TagFree (units ":") ∧
        TagFree (units "\" ") := by
      decide
    simp [hwindow, href, tagFree_base h hrelPath, hliterals]

/-- The texts of a target that are written as they are, whatever becomes of its tooltip. -/
structure LinkTarget.IsTagFree (target : LinkTarget) : Prop where
  ref : TagFree target.ref
  file : TagFree target.file
  relPath : TagFree target.relPath
  anchor : TagFree target.anchor

theorem isAttributes_linkAttributes {options : PageOptions} (h : options.IsTagFree)
    {localClass externalClass : String} (hlocal : TagFree (units localClass))
    (hexternal : TagFree (units externalClass)) {escape : Text → Text} {target : LinkTarget}
    (htarget : target.IsTagFree) (htooltip : TagFree (escape target.tooltip)) :
    IsAttributes (linkAttributes options localClass externalClass escape target) := by
  have hliterals : TagFree (units " class=\"") ∧ TagFree (units "\" ") ∧ TagFree (units "href=\"") ∧
      TagFree (units "#") ∧ TagFree (units "\"") ∧ TagFree (units " title=\"") := by
    decide
  refine ⟨?_, .inr ?_⟩
  · unfold linkAttributes
    simp only [units_append, tagFree_append]
    refine ⟨⟨⟨⟨⟨⟨?_, hliterals.2.2.1⟩, tagFree_base h htarget.relPath _⟩, ?_⟩, ?_⟩,
      hliterals.2.2.2.2.1⟩, ?_⟩
    all_goals split
    · simp [hliterals, hlocal]
    · simp [hliterals, hexternal, tagFree_externalAttributes h htarget.relPath htarget.ref]
    · exact tagFree_nil
    · exact tagFree_append.2 ⟨htarget.file, h.fileExtension⟩
    · exact tagFree_nil
    · exact tagFree_append.2 ⟨hliterals.2.2.2.1, htarget.anchor⟩
    · exact tagFree_nil
    · simp [hliterals, htooltip]
  · unfold linkAttributes
    simp only [units_append, List.append_assoc]
    split
    · rfl
    · rfl

theorem Nests.startLink (h : p.Nests opened) {target : LinkTarget} (htarget : target.IsTagFree)
    (htooltip : TagFree target.tooltip) : (p.startLink target).Nests opened := by
  have hattributes := isAttributes_linkAttributes h.options (by decide : TagFree (units "el"))
    (by decide : TagFree (units "elRef")) htarget (tagFree_escapeQuotes htooltip)
  exact (nests_putOpening_other (by decide) _).2 ⟨hattributes, h⟩

@[simp]
theorem nests_endLink : p.endLink.Nests opened ↔ p.Nests opened :=
  nests_putClosing_other (by decide)

/-! ### Blocks -/

@[simp]
theorem nests_addIndexItem (item : IndexItem) :
    (p.addIndexItem item).Nests opened ↔ p.Nests opened :=
  ⟨fun h => ⟨h.shown, h.options, h.clean, h.tags⟩, fun h => ⟨h.shown, h.options, h.clean, h.tags⟩⟩

@[simp]
theorem nests_column (column : Nat) :
    ({ p with column } : Page).Nests opened ↔ p.Nests opened :=
  ⟨fun h => ⟨h.shown, h.options, h.clean, h.tags⟩, fun h => ⟨h.shown, h.options, h.clean, h.tags⟩⟩

@[simp]
theorem nests_endParagraph : p.endParagraph.Nests opened ↔ p.Nests opened := by
  simp (disch := decide) [endParagraph]

theorem Nests.startParagraph (h : p.Nests opened) {attributes : Text}
    (hattributes : IsAttributes attributes) : (p.startParagraph attributes).Nests opened :=
  (nests_putOpening_other (by decide) _).2 ⟨hattributes, h⟩

theorem Nests.writeAnchor (h : p.Nests opened) {name : Text} (hname : TagFree name) :
    (p.writeAnchor name).Nests opened := by
  have hattributes : IsAttributes (units " class=\"anchor\" id=\"" ++ name ++ units "\"") :=
    isAttributes_quoted (by decide) (by decide) hname
  refine (nests_putClosing_other (by decide)).2 ?_
  exact (nests_putOpening_other (by decide) _).2 ⟨hattributes, h⟩

theorem Nests.writeNamedAnchor (h : p.Nests opened) {name : Text} (hname : TagFree name) :
    (p.writeNamedAnchor name).Nests opened := by
  have hattributes : IsAttributes (units " name=\"" ++ name ++ units "\"") :=
    isAttributes_quoted (by decide) (by decide) hname
  refine (nests_putClosing_other (by decide)).2 ?_
  exact (nests_putOpening_other (by decide) _).2 ⟨hattributes, h⟩

theorem Nests.startSection (h : p.Nests opened) {anchor : Text} (hanchor : TagFree anchor)
    (level : Number) :
    (p.startSection anchor level).Nests (openedBy (headingTag level) ++ opened) := by
  refine (nests_putLayout (by decide)).2 (Nests.writeAnchor ?_ hanchor)
  exact (nests_putOpening (isName_headingTag level) []).2 ⟨isAttributes_nil, h⟩

@[simp]
theorem nests_endSection (level : Number) :
    (p.endSection level).Nests opened ↔ p.Nests (openedBy (headingTag level) ++ opened) := by
  rw [endSection, nests_putLayout (by decide), nests_putClosing (isName_headingTag level)]

@[simp]
theorem nests_lineBreak : p.lineBreak.Nests opened ↔ p.Nests opened := by
  have hattributes : IsAttributes (units " ") := (isAttributes_of_head? rfl).2 (by decide)
  simp (disch := decide) [lineBreak, hattributes]

@[simp]
theorem nests_writeRuler : p.writeRuler.Nests opened ↔ p.Nests opened := by
  simp (disch := decide) [writeRuler, isAttributes_nil]

/-! ### Code -/

@[simp]
theorem nests_startCodeFragment :
    p.startCodeFragment.Nests (units "div" :: opened) ↔ p.Nests opened := by
  have hattributes : IsAttributes (units " class=\"fragment\"") :=
    (isAttributes_of_head? (by decide)).2 (by decide)
  simp (disch := decide) [startCodeFragment, hattributes]

@[simp]
theorem nests_endCodeFragment :
    p.endCodeFragment.Nests opened ↔ p.Nests (units "div" :: opened) := by
  rw [← nests_putClosing_element (by decide : "div" ∈ elements)]
  exact (nests_put_of_none rfl).trans (and_iff_right (.inr rfl))

@[simp]
theorem nests_startCodeLine :
    p.startCodeLine.Nests (units "div" :: opened) ↔ p.Nests opened := by
  have hattributes : IsAttributes (units " class=\"line\"") :=
    (isAttributes_of_head? (by decide)).2 (by decide)
  simp (disch := decide) [startCodeLine, hattributes]

@[simp]
theorem nests_endCodeLine : p.endCodeLine.Nests opened ↔ p.Nests (units "div" :: opened) := by
  simp (disch := decide) [endCodeLine]

@[simp]
theorem nests_writeLineNumber (number : Number) :
    (p.writeLineNumber number).Nests opened ↔ p.Nests opened := by
  have hattributes : IsAttributes (units " class=\"lineno\"") :=
    (isAttributes_of_head? (by decide)).2 (by decide)
  have hnumber : TagFree (Text.padLeft 5 CodeUnit.space (units number.decimal)) := by
    refine tagFree_append.2 ⟨fun u hu => ?_, tagFree_decimal number⟩
    rw [List.eq_of_mem_replicate hu]
    decide
  simp (disch := decide) [writeLineNumber, hattributes, nests_put_text hnumber]

@[simp]
theorem nests_putCode (t : Text) : (p.putCode t).Nests opened ↔ p.Nests opened := by
  have hwritten := tagFree_writeCode p.options.tabSize p.column (Text.codePoints t)
  exact (nests_put_text hwritten).trans (nests_column _)

theorem Nests.startFontClass (h : p.Nests opened) {name : Text} (hname : TagFree name) :
    (p.startFontClass name).Nests opened := by
  have hattributes : IsAttributes (units " class=\"" ++ name ++ units "\"") :=
    isAttributes_quoted (by decide) (by decide) hname
  exact (nests_putOpening_other (by decide) _).2 ⟨hattributes, h⟩

@[simp]
theorem nests_endFontClass : p.endFontClass.Nests opened ↔ p.Nests opened :=
  nests_putClosing_other (by decide)

theorem Nests.writeCodeLink (h : p.Nests opened) {target : LinkTarget} (href : TagFree target.ref)
    (hfile : TagFree target.file) (hanchor : TagFree target.anchor) (name : Text) :
    (p.writeCodeLink target name).Nests opened := by
  have htarget : ({ target with relPath := p.options.relPath } : LinkTarget).IsTagFree :=
    ⟨href, hfile, h.options.relPath, hanchor⟩
  have hattributes := isAttributes_linkAttributes h.options (by decide : TagFree (units "code"))
    (by decide : TagFree (units "codeRef")) htarget (tagFree_escapeQuoted target.tooltip)
  simpa (disch := decide) [Page.writeCodeLink, hattributes] using h

end Page

end DocMarkup.Html
