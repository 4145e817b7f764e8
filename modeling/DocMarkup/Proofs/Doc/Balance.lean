import Mathlib.Data.List.Basic
import Mathlib.Data.List.Induction
import Mathlib.Data.List.TakeWhile
import DocMarkup.Doc.Balance

/-!
The tags of a paragraph are balanced.  Each of the functions that place them looks at the children
of the paragraph on its own; that they agree is shown child by child, with the block styles that are
open so far as the state.
-/

namespace DocMarkup.Balance

/-! ### Block styles -/

/-- The block styles that are open behind a child, the last opened first.  A style is not opened
twice, and the last opened is closed first. -/
def changeStyle (opened : List Style) : Content → Option (List Style)
  | .styleChange change =>
    if !change.style.isBlock then some opened
    else if change.enable then
      if change.style ∈ opened then none else some (change.style :: opened)
    else if opened.head? = some change.style then some opened.tail
    else none
  | _ => some opened

/-- The block styles that are open behind some children, if they are well nested. -/
def openStyles (nodes : List Content) : Option (List Style) := nodes.foldlM changeStyle []

theorem openStyles_snoc (nodes : List Content) (c : Content) :
    openStyles (nodes ++ [c]) = (openStyles nodes).bind (changeStyle · c) := by
  unfold openStyles
  rw [List.foldlM_append]
  cases List.foldlM changeStyle [] nodes <;> simp [List.foldlM]

/-- Where styles are well nested, they are so up to every child. -/
theorem exists_openStyles {nodes more : List Content} {opened : List Style}
    (h : openStyles (nodes ++ more) = some opened) : ∃ before, openStyles nodes = some before := by
  unfold openStyles at h ⊢
  rw [List.foldlM_append] at h
  obtain ⟨before, hbefore, -⟩ := Option.bind_eq_some_iff.1 h
  exact ⟨before, hbefore⟩

theorem changeStyle_of_not_isBlock {c : Content} (h : c.isBlock = false) (opened : List Style) :
    changeStyle opened c = some opened := by
  unfold changeStyle
  split
  · next change =>
    have hstyle : change.style.isBlock = false := h
    simp [hstyle]
  · rfl

theorem openStyles_of_not_isBlock {nodes : List Content} {c : Content} (h : c.isBlock = false) :
    openStyles (nodes ++ [c]) = openStyles nodes := by
  rw [openStyles_snoc]
  simp [changeStyle_of_not_isBlock h]

/-- What a child does to the open block styles. -/
inductive Changes (opened : List Style) : Content → List Style → Prop
  | none {c : Content} (h : ∀ change, c = .styleChange change → change.style.isBlock = false) :
      Changes opened c opened
  | enters (change : StyleChange) (hblock : change.style.isBlock) (henable : change.enable = true)
      (hnew : change.style ∉ opened) : Changes opened (.styleChange change) (change.style :: opened)
  | leaves (change : StyleChange) (rest : List Style) (hblock : change.style.isBlock)
      (henable : change.enable = false) (hopened : opened = change.style :: rest) :
      Changes opened (.styleChange change) rest

theorem changes_of_changeStyle {opened opened' : List Style} {c : Content}
    (h : changeStyle opened c = some opened') : Changes opened c opened' := by
  unfold changeStyle at h
  split at h
  · next change =>
    split at h
    · next hblock =>
      cases h
      refine .none fun other hother => ?_
      cases hother
      simpa using hblock
    · next hblock =>
      have hblock : change.style.isBlock := by simpa using hblock
      split at h
      · next henable =>
        split at h
        · cases h
        · next hnew =>
          cases h
          exact .enters change hblock henable hnew
      · next henable =>
        split at h
        · next hhead =>
          cases h
          refine .leaves change opened.tail hblock (by simpa using henable) ?_
          exact List.eq_cons_of_mem_head? hhead
        · cases h
  · next hother =>
    cases h
    exact .none fun change hchange => absurd hchange (hother change)

theorem insideBlockStyle_cons {c : Content} (h : ∀ change, c = .styleChange change → False)
    (closed : List Style) (rest : List Content) :
    insideBlockStyle closed (c :: rest) = insideBlockStyle closed rest := by
  rw [insideBlockStyle]
  exact h

/-- The backward search finds an open block style exactly where one is open; what it has seen closed
does not count. -/
theorem insideBlockStyle_iff {nodes : List Content} {opened : List Style}
    (h : openStyles nodes = some opened) :
    opened.Nodup ∧ (∀ style ∈ opened, style.isBlock) ∧
      ∀ closed, insideBlockStyle closed nodes.reverse ↔ ∃ style ∈ opened, style ∉ closed := by
  -- the search goes back from the place, so the induction is on the last node
  induction nodes using List.reverseRecOn generalizing opened with
  | nil =>
      cases h
      exact ⟨.nil, nofun, fun closed => by simp [insideBlockStyle]⟩
  | append_singleton nodes c ih =>
      rw [openStyles_snoc] at h
      obtain ⟨before, hbefore, hchange⟩ := Option.bind_eq_some_iff.1 h
      obtain ⟨hnodup, hblocks, hinside⟩ := ih hbefore
      simp only [List.reverse_append, List.reverse_singleton, List.singleton_append]
      cases changes_of_changeStyle hchange with
      | none hother =>
          refine ⟨hnodup, hblocks, fun closed => ?_⟩
          by_cases hc : ∃ change, c = .styleChange change
          · obtain ⟨change, rfl⟩ := hc
            have hstyle := hother change rfl
            simp only [insideBlockStyle, hstyle, Bool.and_false, Bool.false_eq_true, if_false]
            split
            · rw [hinside]
              refine exists_congr fun style => and_congr_right fun hopen => ?_
              have hne : style ≠ change.style := by
                rintro rfl
                exact absurd (hstyle.symm.trans (hblocks _ hopen)) nofun
              simp [hne]
            · exact hinside closed
          · rw [insideBlockStyle_cons fun change hchange => hc ⟨change, hchange⟩]
            exact hinside closed
      | enters change hblock henable hnew =>
          refine ⟨List.nodup_cons.2 ⟨hnew, hnodup⟩, List.forall_mem_cons.2 ⟨hblock, hblocks⟩,
            fun closed => ?_⟩
          rw [insideBlockStyle, henable, hblock]
          by_cases hclosed : change.style ∈ closed
          · simp [hclosed, hinside]
          · simp [hclosed]
      | leaves change _ hblock henable hopened =>
          subst hopened
          obtain ⟨hleft, hnodup⟩ := List.nodup_cons.1 hnodup
          obtain ⟨-, hblocks⟩ := List.forall_mem_cons.1 hblocks
          refine ⟨hnodup, hblocks, fun closed => ?_⟩
          rw [insideBlockStyle, henable, Bool.not_false, if_pos rfl, hinside]
          constructor
          · rintro ⟨style, hopen, hclosed⟩
            obtain ⟨hne, hclosed⟩ := not_or.1 (fun h => hclosed (List.mem_cons.2 h))
            exact ⟨style, List.mem_of_ne_of_mem hne hopen, hclosed⟩
          · rintro ⟨style, hopen, hclosed⟩
            refine ⟨style, List.mem_cons_of_mem _ hopen, fun h => ?_⟩
            rcases List.mem_cons.1 h with rfl | h
            · exact hleft hopen
            · exact hclosed h

/-- No block style is open exactly where the search finds none. -/
theorem insideBlockStyle_eq {nodes : List Content} {opened : List Style}
    (h : openStyles nodes = some opened) :
    insideBlockStyle [] nodes.reverse = !opened.isEmpty := by
  obtain ⟨-, -, hinside⟩ := insideBlockStyle_iff h
  rw [Bool.eq_iff_iff, hinside]
  cases opened <;> simp

/-! ### What is written -/

/-- A tag of a paragraph. -/
inductive Tag where
  | opening
  | closing
  deriving DecidableEq

/-- What is written for a paragraph, one thing after another. -/
inductive Written where
  | tag (tag : Tag)
  | child (c : Content)

namespace Written

def tag? : Written → Option Tag
  | tag t => some t
  | child _ => none

def child? : Written → Option Content
  | tag _ => none
  | child c => some c

end Written

def tags (written : List Written) : List Tag := written.filterMap Written.tag?

def contents (written : List Written) : List Content := written.filterMap Written.child?

def tagIf (condition : Bool) (tag : Tag) : List Written := if condition then [.tag tag] else []

/-- Whether a child changes to a style, and whether it changes back from one. -/
def enables : Content → Bool
  | .styleChange change => change.enable
  | _ => false

def disables : Content → Bool
  | .styleChange change => !change.enable
  | _ => false

/-- A child with the tags around it.  A change to a style never opens the paragraph, and a change
back never closes it. -/
def writeChild (way : Way) (c : Content) : List Written :=
  tagIf (c.isBlock && !disables c && closesBefore way) .closing ++
    .child c :: tagIf (c.isBlock && !enables c && reopensAfter way) .opening

def writeFrom (wayTo : Nat → Way) (index : Nat) : List Content → List Written
  | [] => []
  | c :: rest => writeChild (wayTo index) c ++ writeFrom wayTo (index + 1) rest

/-- The way from a child of a paragraph. -/
def wayTo (paragraph : Paragraph) (way : Way) (children : List Content) (index : Nat) : Way :=
  { above := .paragraph paragraph, siblings := children, index := some index } :: way

/-- A paragraph with its tags. -/
def write (paragraph : Paragraph) (way : Way) (children : List Content) : List Written :=
  tagIf (needsTag children way .start) .opening ++
    writeFrom (wayTo paragraph way children) 0 children ++
    tagIf (needsTag children way .stop) .closing

/-! ### Alternation -/

/-- Tags alternate, the first opening the paragraph. -/
def Alternates (isOpen : Bool) (tags : List Tag) : Prop :=
  ∃ n, tags = (List.replicate n [.opening, .closing]).flatten ++ if isOpen then [.opening] else []

namespace Alternates

theorem nil : Alternates false [] := ⟨0, rfl⟩

theorem opening {tags : List Tag} (h : Alternates false tags) :
    Alternates true (tags ++ [.opening]) := by
  obtain ⟨n, rfl⟩ := h
  exact ⟨n, by simp⟩

theorem closing {tags : List Tag} (h : Alternates true tags) :
    Alternates false (tags ++ [.closing]) := by
  obtain ⟨n, rfl⟩ := h
  exact ⟨n + 1, by simp [List.replicate_succ']⟩

theorem getLast? {isOpen : Bool} {tags : List Tag} (h : Alternates isOpen tags) :
    tags.getLast? = some .opening ↔ isOpen := by
  obtain ⟨n, rfl⟩ := h
  cases isOpen with
  | true => simp
  | false =>
      cases n with
      | zero => simp
      | succ n => simp [List.replicate_succ']

/-- The tag behind an open end is a closing one, and behind no other end. -/
theorem head? {isOpen : Bool} {tags more : List Tag} (h : Alternates isOpen tags)
    (hmore : Alternates false (tags ++ more)) : more.head? = some .closing ↔ isOpen := by
  obtain ⟨n, rfl⟩ := h
  obtain ⟨k, hk⟩ := hmore
  induction n generalizing k with
  | zero =>
      cases isOpen with
      | true =>
          cases k with
          | zero => simp at hk
          | succ k =>
              have hk : more = .closing :: (List.replicate k [.opening, .closing]).flatten := by
                simpa [List.replicate_succ] using hk
              simp [hk]
      | false =>
          have hk : more = (List.replicate k [.opening, .closing]).flatten := by simpa using hk
          cases k with
          | zero => simp [hk]
          | succ k => simp [hk, List.replicate_succ]
  | succ n ih =>
      cases k with
      | zero => simp [List.replicate_succ] at hk
      | succ k =>
          refine ih k ?_
          simpa [List.replicate_succ] using hk

end Alternates

/-! ### The children -/

theorem not_isBlock_of_isSpace {c : Content} (h : c.isSpace) : c.isBlock = false := by
  cases c <;> first
    | rfl
    | cases h

theorem openStyles_append {nodes more : List Content} (h : ∀ c ∈ more, c.isBlock = false) :
    openStyles (nodes ++ more) = openStyles nodes := by
  induction more using List.reverseRecOn with
  | nil => rw [List.append_nil]
  | append_singleton more c ih =>
      obtain ⟨hmore, hc⟩ := List.forall_mem_append.1 h
      rw [← List.append_assoc, openStyles_snoc, ih hmore]
      simp [changeStyle_of_not_isBlock (hc c (List.mem_singleton_self c))]

/-- The first child that is not white space. -/
def firstSolid (nodes : List Content) : Option Content := nodes.find? (!·.isSpace)

/-- Whether the paragraph is open between two parts of its children. -/
def isOpenBetween (before after : List Content) : Bool :=
  openStyles before == some [] &&
    match firstSolid before.reverse with
    | some last => !last.isBlock || (firstSolid after).any (!·.isBlock)
    | none => !(firstSolid after).any Content.isBlock

theorem firstSolid_eq_none {nodes : List Content} (h : nodes.dropWhile Content.isSpace = []) :
    firstSolid nodes = none := by
  rw [List.dropWhile_eq_nil_iff] at h
  rw [firstSolid, List.find?_eq_none]
  simpa using h

theorem firstSolid_eq_some {nodes rest : List Content} {c : Content}
    (h : nodes.dropWhile Content.isSpace = c :: rest) : firstSolid nodes = some c := by
  induction nodes with
  | nil => cases h
  | cons n nodes ih =>
      rw [List.dropWhile_cons] at h
      rw [firstSolid, List.find?_cons]
      split at h
      · next hspace =>
        rw [hspace]
        exact ih h
      · next hspace =>
        cases h
        simp [hspace]

theorem firstSolid_cons {c : Content} (hc : c.isBlock) (rest : List Content) :
    firstSolid (c :: rest) = some c := by
  refine List.find?_cons_of_pos ?_
  by_contra hspace
  rw [not_isBlock_of_isSpace (by simpa using hspace)] at hc
  cases hc

/-- White space and a child that is no block leave the block styles as they are. -/
theorem openStyles_before {nodes earlier : List Content} {last : Content}
    (h : nodes.reverse.dropWhile Content.isSpace = last :: earlier) (hlast : last.isBlock = false) :
    openStyles nodes = openStyles earlier.reverse := by
  have hsplit := List.takeWhile_append_dropWhile (p := Content.isSpace) (l := nodes.reverse)
  rw [h] at hsplit
  have hnodes : nodes =
      earlier.reverse ++ ([last] ++ (nodes.reverse.takeWhile Content.isSpace).reverse) := by
    simpa using (congrArg List.reverse hsplit).symm
  rw [hnodes]
  refine openStyles_append (List.forall_mem_append.2 ⟨?_, fun c hc => ?_⟩)
  · exact List.forall_mem_singleton.2 hlast
  · exact not_isBlock_of_isSpace (List.mem_takeWhile_imp (List.mem_reverse.1 hc))

section Child

variable {paragraph : Paragraph} {way : Way} {before after : List Content} {c : Content}
  {opened : List Style}

/-- Before a block the paragraph is closed if it is open. -/
theorem closesBefore_eq (honly : ((position way).isFirst && (position way).isLast) = false)
    (hopened : openStyles before = some opened) (hc : c.isBlock) :
    closesBefore (wayTo paragraph way (before ++ c :: after) before.length) =
      isOpenBetween before (c :: after) := by
  have htake : (before ++ c :: after).take before.length = before := by simp
  have hsolid := firstSolid_cons hc after
  simp only [closesBefore, wayTo, paragraph?, Option.getD_some, htake, isOpenBetween, hsolid,
    Option.any_some, hc, Bool.not_true, Bool.or_false, honly]
  cases hdrop : before.reverse.dropWhile Content.isSpace with
  | nil => simp [firstSolid_eq_none hdrop]
  | cons last earlier =>
      simp only [firstSolid_eq_some hdrop]
      cases hlast : last.isBlock with
      | true => simp
      | false =>
          have hearlier := openStyles_before hdrop hlast
          have hinside := insideBlockStyle_eq (hearlier.symm.trans hopened)
          rw [List.reverse_reverse] at hinside
          rw [hopened, hinside]
          cases opened <;> rfl

/-- Behind a block it is opened again if it is to be open there. -/
theorem reopensAfter_eq (honly : ((position way).isFirst && (position way).isLast) = false)
    (hopened : openStyles (before ++ [c]) = some opened) (hc : c.isBlock) :
    reopensAfter (wayTo paragraph way (before ++ c :: after) before.length) =
      isOpenBetween (before ++ [c]) after := by
  have htake : (before ++ c :: after).take (before.length + 1) = before ++ [c] := by
    rw [List.append_cons]
    exact List.take_left' (by simp)
  have hdrop : (before ++ c :: after).drop (before.length + 1) = after := by
    rw [List.append_cons]
    exact List.drop_left' (by simp)
  have hsolid : firstSolid (before ++ [c]).reverse = some c := by
    rw [List.reverse_append, List.reverse_singleton]
    exact firstSolid_cons hc _
  simp only [reopensAfter, wayTo, paragraph?, Option.map_some, Option.getD_some, hdrop,
    insideBlockStyleAfter, htake, isOpenBetween, hsolid, hc, Bool.not_true, Bool.false_or, honly,
    Bool.not_false, Bool.and_true]
  have hinside := insideBlockStyle_eq hopened
  rw [hopened, hinside]
  cases hnext : after.dropWhile Content.isSpace with
  | nil => simp [firstSolid_eq_none hnext]
  | cons next rest =>
      simp only [firstSolid_eq_some hnext]
      cases opened <;> simp

end Child

/-! ### Paragraphs -/

/-- The place of a child in what is written: a block stands outside the tags, and other children but
white space stand between them unless a block style is open. -/
structure IsPlaced (written : List Written) (c : Content) : Prop where
  outside : c.isBlock → Alternates false (tags written)
  inside : c.isSpace = false → c.isBlock = false → openStyles (contents written) = some [] →
    Alternates true (tags written)

/-- Every child is in its place. -/
def ArePlaced (written : List Written) : Prop :=
  ∀ before c after, written = before ++ .child c :: after → IsPlaced before c

/-- Some children have been written, and others are to follow. -/
structure Upto (before after : List Content) (written : List Written) : Prop where
  contents : contents written = before
  alternates : Alternates (isOpenBetween before after) (tags written)
  placed : ArePlaced written

theorem tags_append (written more : List Written) :
    tags (written ++ more) = tags written ++ tags more := List.filterMap_append

theorem contents_append (written more : List Written) :
    contents (written ++ more) = contents written ++ contents more := List.filterMap_append

theorem tags_tagIf (condition : Bool) (t : Tag) :
    tags (tagIf condition t) = if condition then [t] else [] := by
  cases condition <;> rfl

theorem contents_tagIf (condition : Bool) (t : Tag) : contents (tagIf condition t) = [] := by
  cases condition <;> rfl

theorem written_children (nodes : List Content) :
    contents (nodes.map .child) = nodes ∧ tags (nodes.map .child) = [] := by
  induction nodes with
  | nil => exact ⟨rfl, rfl⟩
  | cons c nodes ih => exact ⟨congrArg (c :: ·) ih.1, ih.2⟩

theorem ArePlaced.snoc {written : List Written} (h : ArePlaced written) {last : Written}
    (hlast : ∀ c, last = .child c → IsPlaced written c) : ArePlaced (written ++ [last]) := by
  intro before c after hsplit
  rcases List.eq_nil_or_concat after with rfl | ⟨after, other, rfl⟩
  · obtain ⟨rfl, hchild⟩ := List.append_inj' hsplit rfl
    exact hlast c (List.cons.inj hchild).1
  · have hsplit : written ++ [last] = (before ++ .child c :: after) ++ [other] := by
      simpa using hsplit
    exact h before c after (List.append_inj' hsplit rfl).1

theorem ArePlaced.tagIf {written : List Written} (h : ArePlaced written) (condition : Bool)
    (t : Tag) : ArePlaced (written ++ tagIf condition t) := by
  unfold Balance.tagIf
  split
  · exact h.snoc nofun
  · rwa [List.append_nil]

theorem Alternates.tagIf_closing {written : List Written} {isOpen : Bool}
    (h : Alternates isOpen (tags written)) :
    Alternates false (tags (written ++ tagIf isOpen .closing)) := by
  rw [tags_append, tags_tagIf]
  cases isOpen with
  | false => rwa [if_neg nofun, List.append_nil]
  | true => exact h.closing

theorem Alternates.tagIf_opening {written : List Written} (isOpen : Bool)
    (h : Alternates false (tags written)) :
    Alternates isOpen (tags (written ++ tagIf isOpen .opening)) := by
  rw [tags_append, tags_tagIf]
  cases isOpen with
  | false => rwa [if_neg nofun, List.append_nil]
  | true => exact h.opening

section Paragraph

variable {paragraph : Paragraph} {way : Way} {before after : List Content} {c : Content}
  {written : List Written} {opened : List Style}

theorem isOpenBetween_space (hc : c.isSpace) :
    isOpenBetween (before ++ [c]) after = isOpenBetween before (c :: after) := by
  unfold isOpenBetween
  rw [openStyles_of_not_isBlock (not_isBlock_of_isSpace hc), List.reverse_append,
    List.reverse_singleton]
  simp [firstSolid, hc]

/-- On both sides of text the paragraph is open, unless a block style is. -/
theorem isOpenBetween_inline (before after : List Content) (hspace : c.isSpace = false)
    (hc : c.isBlock = false) :
    isOpenBetween before (c :: after) = (openStyles before == some []) ∧
      isOpenBetween (before ++ [c]) after = (openStyles before == some []) := by
  unfold isOpenBetween
  rw [openStyles_of_not_isBlock hc, List.reverse_append, List.reverse_singleton]
  refine ⟨?_, by simp [firstSolid, hspace, hc]⟩
  cases firstSolid before.reverse <;> simp [firstSolid, hspace, hc]

/-- A child that is no block leaves the paragraph open or closed. -/
theorem isOpenBetween_snoc (before after : List Content) (hc : c.isBlock = false) :
    isOpenBetween (before ++ [c]) after = isOpenBetween before (c :: after) := by
  cases hspace : c.isSpace with
  | true => exact isOpenBetween_space hspace
  | false =>
      obtain ⟨hbefore, hafter⟩ := isOpenBetween_inline before after hspace hc
      rw [hbefore, hafter]

/-- A child that is no block is written as it is. -/
theorem Upto.inline (h : Upto before (c :: after) written) (hc : c.isBlock = false) :
    Upto (before ++ [c]) after (written ++ [.child c]) := by
  refine ⟨?_, ?_, h.placed.snoc fun _ hchild => ?_⟩
  · rw [contents_append, h.contents]
    rfl
  · rw [isOpenBetween_snoc before after hc, tags_append]
    exact (List.append_nil (tags written)).symm ▸ h.alternates
  · cases hchild
    refine ⟨fun hblock => absurd (hc.symm.trans hblock) nofun, fun hspace _ hstyles => ?_⟩
    have hopen : isOpenBetween before (c :: after) = true := by
      rw [h.contents] at hstyles
      rw [(isOpenBetween_inline _ _ hspace hc).1, hstyles]
      rfl
    exact hopen ▸ h.alternates

/-- Before a change back from a block style and behind a change to one the paragraph is closed. -/
theorem isOpenBetween_change (after : List Content) (hopened : openStyles (before ++ [c]) = some opened)
    (hc : c.isBlock) :
    (disables c → isOpenBetween before (c :: after) = false) ∧
      (enables c → isOpenBetween (before ++ [c]) after = false) := by
  have hsnoc := openStyles_snoc before c
  rw [hopened] at hsnoc
  obtain ⟨styles, hstyles, hchange⟩ := Option.bind_eq_some_iff.1 hsnoc.symm
  unfold isOpenBetween
  rw [hopened, hstyles]
  cases changes_of_changeStyle hchange with
  | none hother =>
      have hinline : ∀ change, c ≠ .styleChange change := by
        rintro change rfl
        exact absurd ((hother change rfl).symm.trans hc) nofun
      refine ⟨fun hdisables => ?_, fun henables => ?_⟩
      · unfold disables at hdisables
        split at hdisables
        · exact absurd rfl (hinline _)
        · cases hdisables
      · unfold enables at henables
        split at henables
        · exact absurd rfl (hinline _)
        · cases henables
  | enters change hblock henable hnew =>
      refine ⟨fun hdisables => ?_, fun _ => by simp⟩
      simp [disables, henable] at hdisables
  | leaves change rest hblock henable hstyles =>
      subst hstyles
      refine ⟨fun _ => by simp, fun henables => ?_⟩
      exact absurd (henable.symm.trans henables) nofun

/-- Whether the paragraph is closed before a block, and whether it is opened again behind it. -/
theorem closes_and_reopens_eq (paragraph : Paragraph) (after : List Content)
    (honly : ((position way).isFirst && (position way).isLast) = false)
    (hopened : openStyles (before ++ [c]) = some opened) (hc : c.isBlock) :
    (!disables c &&
        closesBefore (wayTo paragraph way (before ++ c :: after) before.length)) =
        isOpenBetween before (c :: after) ∧
      (!enables c &&
        reopensAfter (wayTo paragraph way (before ++ c :: after) before.length)) =
        isOpenBetween (before ++ [c]) after := by
  obtain ⟨styles, hstyles⟩ := exists_openStyles hopened
  obtain ⟨hdisables, henables⟩ := isOpenBetween_change after hopened hc
  rw [closesBefore_eq honly hstyles hc, reopensAfter_eq honly hopened hc]
  constructor
  · cases hchange : disables c with
    | false => simp
    | true => simp [hdisables hchange]
  · cases hchange : enables c with
    | false => simp
    | true => simp [henables hchange]

/-- A block is written between the tags that close the paragraph before it and open it again. -/
theorem Upto.block (h : Upto before (c :: after) written)
    (honly : ((position way).isFirst && (position way).isLast) = false)
    (hopened : openStyles (before ++ [c]) = some opened) (hc : c.isBlock) :
    Upto (before ++ [c]) after
      (written ++ writeChild (wayTo paragraph way (before ++ c :: after) before.length) c) := by
  obtain ⟨hcloses, hreopens⟩ := closes_and_reopens_eq paragraph after honly hopened hc
  have hwritten :
      written ++ writeChild (wayTo paragraph way (before ++ c :: after) before.length) c =
      written ++ tagIf (isOpenBetween before (c :: after)) .closing ++ [.child c] ++
        tagIf (isOpenBetween (before ++ [c]) after) .opening := by
    simp [writeChild, hc, hcloses, hreopens]
  have hclosed := h.alternates.tagIf_closing
  rw [hwritten]
  refine ⟨?_, ?_, ((h.placed.tagIf _ _).snoc fun _ hchild => ?_).tagIf _ _⟩
  · simp only [contents_append, contents_tagIf, h.contents, List.append_nil]
    rfl
  · refine Alternates.tagIf_opening _ ?_
    rw [tags_append]
    exact (List.append_nil (tags (written ++ _))).symm ▸ hclosed
  · cases hchild
    exact ⟨fun _ => hclosed, fun _ hblock => absurd (hblock.symm.trans hc) nofun⟩

theorem Upto.children (paragraph : Paragraph) (h : Upto before after written)
    (honly : ((position way).isFirst && (position way).isLast) = false)
    (hopened : openStyles (before ++ after) = some opened) :
    Upto (before ++ after) []
      (written ++ writeFrom (wayTo paragraph way (before ++ after)) before.length after) := by
  induction after generalizing before written with
  | nil =>
      rw [List.append_nil]
      exact (List.append_nil written).symm ▸ h
  | cons c after ih =>
      rw [List.append_cons] at hopened ⊢
      obtain ⟨styles, hstyles⟩ := exists_openStyles hopened
      have hchild : Upto (before ++ [c]) after (written ++
          writeChild (wayTo paragraph way (before ++ [c] ++ after) before.length) c) := by
        rw [← List.append_cons]
        cases hc : c.isBlock with
        | true => exact h.block honly hstyles hc
        | false =>
            have hwrites : writeChild (wayTo paragraph way (before ++ c :: after) before.length) c =
                [.child c] := by
              simp [writeChild, hc, tagIf]
            rw [hwrites]
            exact h.inline hc
      have hrest := ih hchild hopened
      rw [List.append_assoc written, List.length_append, List.length_singleton] at hrest
      exact hrest

/-- A paragraph has a tag at each side where it is open. -/
theorem needsTag_eq {place : Place} {outer : Way} {children : List Content}
    (htagged : tagsParagraphs place.above)
    (honly : ((position (place :: outer)).isFirst && (position (place :: outer)).isLast) = false)
    (hnested : openStyles children = some []) :
    needsTag children (place :: outer) .start = isOpenBetween [] children ∧
      needsTag children (place :: outer) .stop = isOpenBetween children [] := by
  constructor
  · simp [needsTag, isOpenBetween, htagged, honly, atSide, firstSolid, openStyles]
  · simp only [needsTag, isOpenBetween, htagged, honly, atSide, hnested, firstSolid]
    cases children.reverse.find? (!·.isSpace) <;> simp

/-- A paragraph that is not the only one of the node above gets its tags. -/
theorem write_placed (paragraph : Paragraph) {place : Place} {outer : Way} {children : List Content}
    (htagged : tagsParagraphs place.above)
    (honly : ((position (place :: outer)).isFirst && (position (place :: outer)).isLast) = false)
    (hnested : openStyles children = some []) :
    contents (write paragraph (place :: outer) children) = children ∧
      Alternates false (tags (write paragraph (place :: outer) children)) ∧
      ArePlaced (write paragraph (place :: outer) children) := by
  obtain ⟨hstart, hstop⟩ := needsTag_eq htagged honly hnested
  have hbegun : Upto [] children (tagIf (isOpenBetween [] children) .opening) := by
    have hnone : Alternates false (tags []) := .nil
    have hplaced : ArePlaced [] := fun before c after hsplit => by simp at hsplit
    exact ⟨contents_tagIf .., hnone.tagIf_opening _, hplaced.tagIf _ _⟩
  have hwritten := hbegun.children paragraph honly hnested
  unfold write
  rw [hstart, hstop]
  refine ⟨?_, hwritten.alternates.tagIf_closing, hwritten.placed.tagIf _ _⟩
  rw [contents_append, contents_tagIf, List.append_nil]
  exact hwritten.contents

/-- Around the children of a paragraph that is the only one no tags are written. -/
theorem closesBefore_only (honly : ((position way).isFirst && (position way).isLast) = true)
    (children : List Content) (index : Nat) :
    closesBefore (wayTo paragraph way children index) = false := by
  simp only [closesBefore, wayTo, paragraph?, honly, Bool.not_true, Bool.and_false]
  split <;> rfl

theorem reopensAfter_only (honly : ((position way).isFirst && (position way).isLast) = true)
    (children : List Content) (index : Nat) :
    reopensAfter (wayTo paragraph way children index) = false := by
  simp only [reopensAfter, wayTo, paragraph?, honly, Bool.not_true, Bool.and_false]
  split <;> simp

theorem writeFrom_only (honly : ((position way).isFirst && (position way).isLast) = true)
    (children nodes : List Content) (index : Nat) :
    writeFrom (wayTo paragraph way children) index nodes = nodes.map .child := by
  induction nodes generalizing index with
  | nil => rfl
  | cons c nodes ih =>
      simp [writeFrom, writeChild, closesBefore_only honly, reopensAfter_only honly, ih, tagIf]

theorem write_only {place : Place} {outer : Way} {children : List Content}
    (honly : ((position (place :: outer)).isFirst && (position (place :: outer)).isLast) = true) :
    write paragraph (place :: outer) children = children.map .child := by
  simp [write, needsTag, honly, tagIf, writeFrom_only honly]

end Paragraph

/-- The tags of every paragraph are balanced: the first opens it, they alternate, and the last
closes it.  Blocks stand outside them.  The only paragraph of a node has no tags; in any other they
enclose every child that is neither white space nor a block and that no block style is open for. -/
theorem write_balanced (paragraph : Paragraph) (place : Place) (outer : Way)
    (children : List Content) (htagged : tagsParagraphs place.above)
    (hnested : openStyles children = some []) :
    let way := place :: outer
    let written := write paragraph way children
    contents written = children ∧
      (∃ n, tags written = (List.replicate n [.opening, .closing]).flatten) ∧
      ((position way).isFirst ∧ (position way).isLast → tags written = []) ∧
      ∀ before c after, written = before ++ .child c :: after →
        (c.isBlock → (tags before).getLast? ≠ some .opening ∧
          (tags after).head? ≠ some .closing) ∧
        (¬((position way).isFirst ∧ (position way).isLast) → c.isSpace = false →
          c.isBlock = false → openStyles (contents before) = some [] →
          (tags before).getLast? = some .opening ∧ (tags after).head? = some .closing) := by
  intro way written
  have hbehind : ∀ before c after, written = before ++ .child c :: after →
      tags written = tags before ++ tags after := by
    rintro before c after hsplit
    rw [hsplit, tags_append]
    rfl
  -- a paragraph that is alone in its place is written without tags
  by_cases honly : (position way).isFirst ∧ (position way).isLast
  · have hwritten : written = children.map .child := write_only (Bool.and_eq_true_iff.2 honly)
    have hparts := written_children children
    rw [← hwritten] at hparts
    obtain ⟨hcontents, htags⟩ := hparts
    refine ⟨hcontents, ⟨0, htags⟩, fun _ => htags, fun before c after hsplit =>
      ⟨fun _ => ?_, fun h => absurd honly h⟩⟩
    have hnil := hbehind before c after hsplit
    rw [htags] at hnil
    obtain ⟨hbefore, hafter⟩ := List.append_eq_nil_iff.1 hnil.symm
    rw [hbefore, hafter]
    exact ⟨nofun, nofun⟩
  · have hfalse : ((position way).isFirst && (position way).isLast) = false := by
      rw [← Bool.and_eq_true_iff] at honly
      exact Bool.eq_false_iff.2 honly
    obtain ⟨hcontents, halternates, hplaced⟩ :=
      write_placed paragraph htagged hfalse hnested
    refine ⟨hcontents, ?_, fun h => absurd h honly, fun before c after hsplit => ?_⟩
    · obtain ⟨n, hn⟩ := halternates
      exact ⟨n, hn.trans (List.append_nil _)⟩
    · have htags := hbehind before c after hsplit
      rw [show tags written = _ from htags] at halternates
      obtain ⟨houtside, hinside⟩ := hplaced before c after hsplit
      refine ⟨fun hblock => ?_, fun _ hspace hblock hstyles => ?_⟩
      · have hbefore := houtside hblock
        rw [ne_eq, ne_eq, hbefore.getLast?, hbefore.head? halternates]
        exact ⟨nofun, nofun⟩
      · have hbefore := hinside hspace hblock hstyles
        rw [hbefore.getLast?, hbefore.head? halternates]
        exact ⟨rfl, rfl⟩

/-- A rule between two words, and behind them a centred word. -/
theorem write_balanced_around_rule :
    let place : Place := { above := .root false, siblings := [.paragraph {}], index := some 0 }
    let children : List Content :=
      [.word (units "a"), .ruler, .word (units "b"),
        .styleChange { style := .center, enable := true, position := 0 }, .word (units "c"),
        .styleChange { style := .center, enable := false, position := 0 }]
    tags (write {} [place] children) = [.opening, .closing, .opening, .closing] ∧
      contents (write {} [place] children) = children := by
  intro place children
  have htagged : tagsParagraphs place.above := rfl
  have hnested : openStyles children = some [] := by decide
  exact ⟨by decide, (write_balanced {} place [] children htagged hnested).1⟩

end DocMarkup.Balance
