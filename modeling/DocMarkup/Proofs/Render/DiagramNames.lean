import DocMarkup.Proofs.Html.Escape
import DocMarkup.Proofs.Render.Steps

/-!
The names of diagram images.  A diagram written in a comment gets the next number of the series of
its kind, one kept in a file the name of the file; the series and the names of files begin with
words of their own, so only files can share an image.
-/

namespace DocMarkup

/-! ### Numbers in names -/

/-- A string of the basic plane can be read back from its units. -/
theorem map_units {s : String} (hs : ∀ c ∈ s.toList, c.toNat < 0x10000) :
    (units s).map (fun u => Char.ofNat u.toNat) = s.toList := by
  unfold units
  generalize s.toList = cs at hs
  induction cs with
  | nil => rfl
  | cons c cs ih =>
      obtain ⟨hc, hrest⟩ := List.forall_mem_cons.1 hs
      have hunit : (c.toNat.toUInt16).toNat = c.toNat := Nat.mod_eq_of_lt hc
      rw [List.flatMap_cons, List.map_append, ih hrest, unitsOfCodePoint, if_pos hc,
        List.map_singleton, hunit, Char.ofNat_toNat]
      rfl

theorem unitsOfNat_injective {m n : Nat} (h : unitsOfNat m = unitsOfNat n) : m = n := by
  have hread (k : Nat) :
      (unitsOfNat k).map (fun u => Char.ofNat u.toNat) = Nat.toDigits 10 k := by
    rw [← Nat.toList_repr]
    refine map_units fun c hc => ?_
    rw [Nat.toList_repr] at hc
    have hdigit := Nat.isDigit_of_mem_toDigits (by decide) (by decide) hc
    have hle : c.toNat ≤ 57 := (Bool.and_eq_true_iff.1 hdigit).2 |> of_decide_eq_true
    omega
  calc m = Nat.ofDigitChars 10 (Nat.toDigits 10 m) 0 := Nat.ofDigitChars_ten_toDigits.symm
    _ = Nat.ofDigitChars 10 (Nat.toDigits 10 n) 0 := by rw [← hread m, ← hread n, h]
    _ = n := Nat.ofDigitChars_ten_toDigits

/-! ### Series of names -/

namespace DiagramCounts

/-- The last number that a series has given out. -/
def last (counts : DiagramCounts) (series : Text) : Nat :=
  ((counts.find? (·.1 == series)).map (·.2)).getD 0

theorem last_next (counts : DiagramCounts) (series other : Text) :
    (counts.next series).2.last other =
      if other = series then counts.last series + 1 else counts.last other := by
  unfold next
  dsimp only
  by_cases hother : other = series
  · subst hother
    rw [if_pos rfl, last, List.find?_cons_of_pos (by simp)]
    rfl
  · have hkept (entry : Text × Nat) : (entry.1 != series && entry.1 == other) = (entry.1 == other) := by
      by_cases hentry : entry.1 = other
      · simp [hentry, hother]
      · simp [hentry]
    rw [if_neg hother, last, List.find?_cons_of_neg (by simpa using Ne.symm hother),
      List.find?_filter]
    simp only [Bool.decide_and, Bool.decide_eq_true, hkept]
    rfl

theorem last_le_next (counts : DiagramCounts) (series other : Text) :
    counts.last other ≤ (counts.next series).2.last other := by
  rw [last_next]
  split
  · next hother => rw [hother]; exact Nat.le_succ _
  · exact Nat.le_refl _

end DiagramCounts

/-- The start of the names of diagrams that are written in comments. -/
def DiagramKind.series : DiagramKind → Text
  | .dot => units "inline_dotgraph_"
  | .msc => units "inline_mscgraph_"
  | .plantuml => units "inline_umlgraph_"
  | .dia => []

/-- The start of the names of diagrams that are kept in files. -/
def DiagramType.fileSeries (type : DiagramType) : Text := units type.drawing.2.1

theorem DiagramKind.length_series {kind : DiagramKind} (hkind : kind ≠ .dia) :
    kind.series.length = 16 := by
  cases kind with
  | dia => exact absurd rfl hkind
  | _ => decide

theorem DiagramKind.eq_of_numbered {a b : DiagramKind} (ha : a ≠ .dia) (hb : b ≠ .dia) {m n : Nat}
    (h : a.series ++ unitsOfNat m = b.series ++ unitsOfNat n) : a = b ∧ m = n := by
  obtain ⟨hseries, hnumber⟩ := List.append_inj h ((length_series ha).trans (length_series hb).symm)
  refine ⟨?_, unitsOfNat_injective hnumber⟩
  revert hseries
  cases a <;> cases b <;> decide

theorem DiagramType.length_fileSeries (type : DiagramType) : type.fileSeries.length = 4 := by
  cases type <;> decide

theorem DiagramType.eq_of_stem {a b : DiagramType} {s t : Text}
    (h : a.fileSeries ++ s = b.fileSeries ++ t) : a = b ∧ s = t := by
  obtain ⟨hseries, hstem⟩ :=
    List.append_inj h (a.length_fileSeries.trans b.length_fileSeries.symm)
  refine ⟨?_, hstem⟩
  revert hseries
  cases a <;> cases b <;> decide

/-- Names of the two ways differ in their first four units. -/
theorem DiagramKind.numbered_ne_stem {kind : DiagramKind} (hkind : kind ≠ .dia) (n : Nat)
    (type : DiagramType) (stem : Text) :
    kind.series ++ unitsOfNat n ≠ type.fileSeries ++ stem := by
  intro h
  have htake : kind.series.take 4 = type.fileSeries := by
    have hprefix := congrArg (List.take 4) h
    rwa [List.take_append_of_le_length (by rw [length_series hkind]; decide),
      List.take_left' type.length_fileSeries] at hprefix
  revert htake
  cases kind <;> cases type <;> decide

/-! ### What is asked for -/

/-- The counts of a rendering and its requests, the last first. -/
structure Asked where
  counts : DiagramCounts
  requests : List DiagramRequest

/-- A diagram is asked for: one written in the comment, which takes the next name of its series, or
one kept in a file. -/
inductive Asked.Step : Asked → Asked → Prop
  | numbered (a : Asked) (kind : DiagramKind) (hkind : kind ≠ .dia) (imageFormat : ImageFormat)
      (outputDirectory source : Text) :
    Step a
      { counts := (a.counts.next kind.series).2
        requests :=
          { kind, baseName := (a.counts.next kind.series).1, imageFormat, outputDirectory
            input := .source source } :: a.requests }
  | file (a : Asked) (type : DiagramType) (imageFormat : ImageFormat)
      (outputDirectory name : Text) :
    Step a
      { counts := a.counts
        requests :=
          { kind := type.drawing.1, baseName := type.fileSeries ++ Path.stem name, imageFormat
            outputDirectory, input := .file name } :: a.requests }

/-- Diagrams are asked for one after the other. -/
def Asked.Steps : Asked → Asked → Prop := Relation.ReflTransGen Asked.Step

namespace Rendering

/-- What a rendering has asked for. -/
def asked (r : Rendering) : Asked := ⟨r.diagramCounts, r.diagrams⟩

variable {r : Rendering} {context : RenderContext} {way : Way}

/-! Writing asks for nothing. -/

@[simp] theorem asked_onPage (f : Html.Page → Html.Page) : (r.onPage f).asked = r.asked := rfl

@[simp] theorem asked_opening (tag : String) (attributes : Text) :
    (r.opening tag attributes).asked = r.asked := rfl

@[simp] theorem asked_closing (tag : String) : (r.closing tag).asked = r.asked := rfl

@[simp] theorem asked_layout (s : String) : (r.layout s).asked = r.asked := rfl

@[simp] theorem asked_raw (t : Text) : (r.raw t).asked = r.asked := rfl

@[simp] theorem asked_text (t : Text) : (r.text t).asked = r.asked := rfl

@[simp] theorem asked_piece (piece : Html.Piece) : (r.piece piece).asked = r.asked := rfl

@[simp] theorem asked_insidePre (insidePre : Bool) :
    ({ r with insidePre } : Rendering).asked = r.asked := rfl

@[simp] theorem asked_report (problem : Problem) (subject : Option Text) :
    (r.report context problem subject).asked = r.asked := rfl

@[simp] theorem asked_writeCode (request : CodeRequest) :
    (r.writeCode context request).asked = r.asked := rfl

@[simp] theorem asked_ite (c : Prop) [Decidable c] (first second : Rendering) :
    (if c then first else second).asked = if c then first.asked else second.asked := by
  split <;> rfl

@[simp] theorem asked_closeParagraph : (r.closeParagraph way).asked = r.asked := by
  simp [closeParagraph]

@[simp] theorem asked_reopenParagraph : (r.reopenParagraph way).asked = r.asked := by
  simp [reopenParagraph]

@[simp] theorem asked_block (write : Rendering → Rendering) :
    (r.block way write).asked = (write (r.closeParagraph way)).asked := asked_reopenParagraph

@[simp] theorem asked_breakUnless (preformatted : Bool) :
    (r.breakUnless preformatted).asked = r.asked := by
  simp [breakUnless]

@[simp] theorem asked_tagged (tag : String) (attributes : Attributes) :
    (r.tagged tag attributes).asked = r.asked := rfl

@[simp] theorem asked_taggedOr (tag className : String) (attributes : Attributes) :
    (r.taggedOr tag className attributes).asked = r.asked := rfl

@[simp] theorem asked_codeFragment (request : CodeRequest) :
    (r.codeFragment context request).asked = r.asked := rfl

@[simp] theorem asked_fragment (t : Text) : (r.fragment t).asked = r.asked := rfl

@[simp] theorem asked_styleChange (change : StyleChange) :
    (r.styleChange way change).asked = r.asked := by
  simp [styleChange]

@[simp] theorem asked_inclusion (i : Inclusion) : (r.inclusion context way i).asked = r.asked := by
  unfold inclusion
  cases i.type <;> simp

@[simp] theorem asked_includeStep (step : IncludeStep) :
    (r.includeStep context step).asked = r.asked := by
  simp [includeStep]

@[simp] theorem asked_formulaBody (f : Formula) : (r.formulaBody context f).asked = r.asked := by
  simp [formulaBody]

@[simp] theorem asked_formula (f : Formula) : (r.formula context way f).asked = r.asked := by
  simp [formula]

@[simp] theorem asked_indexEntry (e : IndexEntry) : (r.indexEntry e).asked = r.asked := rfl

@[simp] theorem asked_xrefItemStart (x : XRefItem) :
    (r.xrefItemStart context x).asked = r.asked := by
  simp [xrefItemStart]

@[simp] theorem asked_imageTag (i : Image) : (r.imageTag i).asked = r.asked := by
  simp [imageTag]

@[simp] theorem asked_captionStart (hasCaption : Bool) :
    (r.captionStart hasCaption).asked = r.asked := by
  simp [captionStart]

@[simp] theorem asked_simpleSectionStart (type : SimpleSectionType) (hasTitle : Bool) :
    (r.simpleSectionStart context type hasTitle).asked = r.asked := by
  unfold simpleSectionStart
  cases Label.ofSimpleSection? type <;> simp

@[simp] theorem asked_paramSectionStart (type : ParamSectionType) :
    (r.paramSectionStart context type).asked = r.asked := rfl

/-! Diagrams are asked for one at a time. -/

theorem asked_writeDiagram (kind : DiagramKind) (name : Text) (input : DiagramInput)
    (relPath : Text) :
    (r.writeDiagram context kind name input relPath).asked =
      ⟨r.diagramCounts,
        { kind, baseName := name
          imageFormat := if kind == .dia then .png else context.settings.imageFormat
          outputDirectory := context.settings.outputDirectory, input } :: r.diagrams⟩ := by
  unfold writeDiagram
  dsimp only
  split
  · rfl
  · simp only [asked_ite, asked_layout, asked_closing, asked_opening, asked_piece, ite_self]
    rfl

theorem asked_inlineDiagram {kind : DiagramKind} (hkind : kind ≠ .dia) {series : String}
    (hseries : units series = kind.series) (className : String) (source : Text) :
    r.asked.Step (r.inlineDiagram context way kind series className source).asked := by
  unfold inlineDiagram
  rw [asked_block]
  dsimp only
  rw [asked_layout, asked_closing, asked_writeDiagram, hseries]
  have hclosed : r.asked = (r.closeParagraph way).asked := asked_closeParagraph.symm
  rw [hclosed]
  exact .numbered _ kind hkind _ _ _

theorem steps_of_asked_eq {r' : Rendering} (h : r'.asked = r.asked) : r.asked.Steps r'.asked := by
  rw [h]
  exact .refl

theorem asked_verbatim (v : Verbatim) : r.asked.Steps (r.verbatim context way v).asked := by
  have hdrawn {kind : DiagramKind} (hkind : kind ≠ .dia) {series : String}
      (hseries : units series = kind.series) (className : String) (source : Text) :
      r.asked.Steps (r.inlineDiagram context way kind series className source).asked :=
    .single (asked_inlineDiagram hkind hseries className source)
  unfold verbatim
  cases v.type with
  | dot => exact hdrawn (by decide) rfl _ _
  | msc => exact hdrawn (by decide) rfl _ _
  | plantUML => exact hdrawn (by decide) rfl _ _
  | _ => exact steps_of_asked_eq (by simp)

theorem asked_shownLeaf (content : Content) :
    r.asked.Steps (r.shownLeaf context way content).asked := by
  cases content with
  | verbatim v => exact asked_verbatim v
  | symbol name =>
      apply steps_of_asked_eq
      rw [shownLeaf]
      cases Symbol.find? name <;> rfl
  | _ => exact steps_of_asked_eq (by simp [shownLeaf])

theorem asked_leaf (content : Content) : r.asked.Steps (r.leaf context way content).asked := by
  unfold leaf
  split
  · exact .refl
  · exact asked_shownLeaf content

theorem asked_diagramStart (d : DiagramFile) :
    r.asked.Steps (r.diagramStart context d).asked := by
  unfold diagramStart
  dsimp only
  rw [asked_ite, asked_writeDiagram]
  split
  · exact .refl
  · exact .single (.file _ _ _ _ _)

theorem asked_nameCell (className separator : String) (names : List Node) :
    r.asked.Steps (r.nameCell context way className separator names).asked := by
  have hnames {step : Rendering → Node × Nat → Rendering}
      (hstep : ∀ (s : Rendering) named, s.asked.Steps (step s named).asked) (named : List (Node × Nat))
      (s : Rendering) : s.asked.Steps (named.foldl step s).asked := by
    induction named generalizing s with
    | nil => exact .refl
    | cons first rest ih => exact (hstep s first).trans (ih _)
  unfold nameCell
  dsimp only
  rw [asked_closing]
  show (r.opening "td" (units (" class=\"" ++ className ++ "\""))).asked.Steps _
  refine hnames (fun s named => ?_) names.zipIdx _
  have hseparated : (if 0 < named.2 then s.layout separator else s).asked = s.asked := by
    simp
  exact .trans (steps_of_asked_eq hseparated) (asked_leaf named.1.content)

theorem asked_paramListStart (list : ParamList) (types names : List Node) :
    r.asked.Steps (r.paramListStart context way list types names).asked := by
  have htypes {s : Rendering} (hs : s.asked = r.asked) (c : Prop) [Decidable c] :
      r.asked.Steps
        (if c then s.nameCell context way "paramtype" "&#160;|&#160;" types else s).asked := by
    split
    · exact .trans (steps_of_asked_eq hs) (asked_nameCell "paramtype" "&#160;|&#160;" types)
    · exact steps_of_asked_eq hs
  unfold paramListStart
  rw [asked_opening]
  refine .trans (htypes ?_ _) (asked_nameCell "paramname" "," names)
  simp

theorem asked_enter (n : Node) : r.asked.Steps (r.enter context way n).asked := by
  unfold enter
  cases n.content with
  | diagramFile d =>
      dsimp only
      have hclosed : (r.closeParagraph way).asked = r.asked := asked_closeParagraph
      rw [asked_captionStart, ← hclosed]
      exact asked_diagramStart d
  | paramList list => exact asked_paramListStart list n.types n.heads
  | _ => exact steps_of_asked_eq (by simp)

theorem asked_leave (n : Node) : (r.leave context way n).asked = r.asked := by
  unfold leave
  cases n.content <;> simp

/-- The diagrams of a tree are asked for one after the other. -/
theorem asked_node (n : Node) : r.asked.Steps (node context way r n).asked := by
  refine node_preserves (P := fun s => r.asked.Steps s.asked) (Q := fun _ => True) ?_ ?_ ?_
    (fun _ _ => trivial) way r .refl
  · intro way s n _ h
    exact h.trans (asked_leaf n.content)
  · intro way s n _ h
    exact h.trans (asked_enter n)
  · intro way s n _ h
    rwa [asked_leave]

end Rendering

/-! ### Names apart -/

/-- Two diagrams of one kind, kept in files whose names are the same behind the last slash and up
to the first dot. -/
def DiagramRequest.MayShare (q p : DiagramRequest) : Prop :=
  q.kind = p.kind ∧ ∃ f g, q.input = .file f ∧ p.input = .file g ∧ Path.stem f = Path.stem g

theorem DiagramRequest.MayShare.symm {q p : DiagramRequest} (h : q.MayShare p) : p.MayShare q := by
  obtain ⟨hkind, f, g, hf, hg, hstem⟩ := h
  exact ⟨hkind.symm, g, f, hg, hf, hstem.symm⟩

/-- How a request got its name. -/
inductive DiagramRequest.Named (counts : DiagramCounts) (q : DiagramRequest) : Prop
  | numbered (n : Nat) (hkind : q.kind ≠ .dia) (hn : n ≤ counts.last q.kind.series)
      (hname : q.baseName = q.kind.series ++ unitsOfNat n)
  | file (type : DiagramType) (name : Text) (hkind : q.kind = type.drawing.1)
      (hname : q.baseName = type.fileSeries ++ Path.stem name) (hinput : q.input = .file name)

namespace Asked

/-- No diagram has the name of another, unless both are kept in files that may share it. -/
structure Apart (a : Asked) : Prop where
  named : ∀ q ∈ a.requests, q.Named a.counts
  apart : a.requests.Pairwise fun q p => q.baseName = p.baseName → q.MayShare p

theorem Apart.step {a b : Asked} (h : a.Apart) (hstep : a.Step b) : b.Apart := by
  cases hstep with
  | numbered kind hkind imageFormat outputDirectory source =>
      refine ⟨List.forall_mem_cons.2 ⟨?_, fun q hq => ?_⟩, List.pairwise_cons.2 ⟨?_, h.apart⟩⟩
      · refine .numbered (a.counts.last kind.series + 1) hkind ?_ rfl
        rw [DiagramCounts.last_next, if_pos rfl]
      · cases h.named q hq with
        | numbered n hq hn hname => exact .numbered n hq (hn.trans (a.counts.last_le_next _ _)) hname
        | file type name hq hname hinput => exact .file type name hq hname hinput
      · intro q hq hshared
        exfalso
        change kind.series ++ unitsOfNat (a.counts.last kind.series + 1) = q.baseName at hshared
        cases h.named q hq with
        | numbered n hq hn hname =>
            obtain ⟨hsame, rfl⟩ := DiagramKind.eq_of_numbered hkind hq (hshared.trans hname)
            rw [← hsame] at hn
            exact Nat.not_succ_le_self _ hn
        | file type name _ hname _ =>
            exact DiagramKind.numbered_ne_stem hkind _ type _ (hshared.trans hname)
  | file type imageFormat outputDirectory name =>
      refine ⟨List.forall_mem_cons.2 ⟨.file type name rfl rfl rfl, h.named⟩,
        List.pairwise_cons.2 ⟨?_, h.apart⟩⟩
      intro q hq hshared
      change type.fileSeries ++ Path.stem name = q.baseName at hshared
      cases h.named q hq with
      | numbered n hkind _ hname =>
          exact absurd (hname.symm.trans hshared.symm) (DiagramKind.numbered_ne_stem hkind n type _)
      | file other otherName hkind hname hinput =>
          obtain ⟨rfl, hstem⟩ := DiagramType.eq_of_stem (hshared.trans hname)
          exact ⟨hkind.symm, name, otherName, rfl, hinput, hstem⟩

theorem Apart.steps {a b : Asked} (h : a.Apart) (hsteps : a.Steps b) : b.Apart := by
  induction hsteps with
  | refl => exact h
  | tail _ hstep ih => exact ih.step hstep

/-- Names are given without a look at earlier requests. -/
theorem Steps.append {counts counts' : DiagramCounts} {requests requests' : List DiagramRequest}
    (h : Steps ⟨counts, requests⟩ ⟨counts', requests'⟩) (earlier : List DiagramRequest) :
    Steps ⟨counts, requests ++ earlier⟩ ⟨counts', requests' ++ earlier⟩ := by
  refine h.lift (fun a : Asked => (⟨a.counts, a.requests ++ earlier⟩ : Asked)) ?_
  rintro a b (⟨kind, hkind, imageFormat, outputDirectory, source⟩ |
    ⟨type, imageFormat, outputDirectory, name⟩)
  · exact .numbered ⟨a.counts, a.requests ++ earlier⟩ kind hkind imageFormat outputDirectory source
  · exact .file ⟨a.counts, a.requests ++ earlier⟩ type imageFormat outputDirectory name

end Asked

end DocMarkup
