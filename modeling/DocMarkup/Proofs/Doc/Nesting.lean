import DocMarkup.Doc.Node

/-!
Changes of style that nest: every style that begins ends again, the last one first.
-/

namespace DocMarkup

/-- A change of style: which one, and whether it begins. -/
abbrev StyleMark := Style × Bool

namespace Node

/-- The change of style that a node is. -/
def styleMark? (n : Node) : Option StyleMark :=
  match n.content with
  | .styleChange change => some (change.style, change.enable)
  | _ => none

/-- The changes of style among the children of a node. -/
def styleMarks (n : Node) : List StyleMark := n.children.filterMap styleMark?

theorem styleMark?_eq_none {n : Node} (h : n.kind ≠ .styleChange) : n.styleMark? = none := by
  unfold styleMark?
  split
  · next change hcontent => exact absurd (congrArg Content.kind hcontent) h
  · rfl

end Node

/-- Between the beginning and the end of a style, and behind its end, changes of style nest. -/
inductive Nested : List StyleMark → Prop
  | nil : Nested []
  | span (style : Style) (inner rest : List StyleMark) (hinner : Nested inner)
      (hrest : Nested rest) : Nested ((style, true) :: (inner ++ (style, false) :: rest))

/-- The styles that stand open behind some changes of style; both have the last first. -/
inductive StandsOpen : List StyleMark → List Style → Prop
  | nil : StandsOpen [] []
  | begins {marks : List StyleMark} {styles : List Style} (style : Style)
      (h : StandsOpen marks styles) : StandsOpen ((style, true) :: marks) (style :: styles)
  | ends {marks : List StyleMark} {styles : List Style} (style : Style)
      (h : StandsOpen marks (style :: styles)) : StandsOpen ((style, false) :: marks) styles

theorem Nested.append {marks more : List StyleMark} (h : Nested marks) (hmore : Nested more) :
    Nested (marks ++ more) := by
  induction h with
  | nil => exact hmore
  | span style inner rest hinner _ _ ih =>
      rw [List.cons_append, List.append_assoc, List.cons_append]
      exact .span style inner _ hinner ih

/-- Changes of style that nest but for the styles that stand open, the last of them first. -/
def NestedBut : List Style → List StyleMark → Prop
  | [], marks => Nested marks
  | style :: styles, marks =>
    ∃ before inner, marks = before ++ (style, true) :: inner ∧ NestedBut styles before ∧
      Nested inner

theorem NestedBut.append {styles : List Style} {marks more : List StyleMark}
    (h : NestedBut styles marks) (hmore : Nested more) : NestedBut styles (marks ++ more) := by
  cases styles with
  | nil => exact Nested.append h hmore
  | cons style styles =>
      obtain ⟨before, inner, rfl, hbefore, hinner⟩ := h
      exact ⟨before, inner ++ more, by simp, hbefore, hinner.append hmore⟩

theorem StandsOpen.nestedBut {marks : List StyleMark} {styles : List Style}
    (h : StandsOpen marks styles) : NestedBut styles marks.reverse := by
  induction h with
  | nil => exact .nil
  | begins style _ ih => exact ⟨_, [], List.reverse_cons, ih, .nil⟩
  | ends style _ ih =>
      -- what stood between the style and its end is put together with what was before it
      obtain ⟨before, inner, heq, hbefore, hinner⟩ := ih
      rw [List.reverse_cons, heq, List.append_assoc]
      exact hbefore.append (.span style inner [] hinner .nil)

/-- Changes of style nest when none stands open behind them. -/
theorem StandsOpen.nested {marks : List StyleMark} (h : StandsOpen marks []) :
    Nested marks.reverse :=
  h.nestedBut

theorem Nested.standsOpen {marks : List StyleMark} (h : Nested marks) {before : List StyleMark}
    {styles : List Style} (hbefore : StandsOpen before styles) :
    StandsOpen (marks.reverse ++ before) styles := by
  induction h generalizing before styles with
  | nil => exact hbefore
  | span style inner rest _ _ ihInner ihRest =>
      have hspan := ihRest (.ends style (ihInner (hbefore.begins style)))
      simpa using hspan

/-- Changes of style nest exactly when none stands open behind them. -/
theorem nested_iff_standsOpen {marks : List StyleMark} :
    Nested marks ↔ StandsOpen marks.reverse [] := by
  constructor
  · intro h
    simpa using h.standsOpen .nil
  · intro h
    simpa using h.nested

theorem standsOpen_begins {marks : List StyleMark} {style : Style} {styles : List Style} :
    StandsOpen ((style, true) :: marks) styles ↔
      ∃ outer, styles = style :: outer ∧ StandsOpen marks outer := by
  constructor
  · rintro ⟨⟩
    exact ⟨_, rfl, ‹_›⟩
  · rintro ⟨outer, rfl, h⟩
    exact .begins style h

theorem standsOpen_ends {marks : List StyleMark} {style : Style} {styles : List Style} :
    StandsOpen ((style, false) :: marks) styles ↔ StandsOpen marks (style :: styles) := by
  constructor
  · rintro ⟨⟩
    assumption
  · exact .ends style

/-- Changes of style with others put in between: a style that begins and ends at once. -/
inductive WithPairs : List StyleMark → List StyleMark → Prop
  | nil : WithPairs [] []
  | mark (mark : StyleMark) {marks more : List StyleMark} (h : WithPairs marks more) :
      WithPairs (mark :: marks) (mark :: more)
  | pair (style : Style) {marks more : List StyleMark} (h : WithPairs marks more) :
      WithPairs marks ((style, true) :: (style, false) :: more)

namespace WithPairs

theorem append {marks more marks' more' : List StyleMark} (h : WithPairs marks more)
    (h' : WithPairs marks' more') : WithPairs (marks ++ marks') (more ++ more') := by
  induction h with
  | nil => exact h'
  | mark mark _ ih => exact .mark mark ih
  | pair style _ ih => exact .pair style ih

/-- Behind such changes the same styles stand open. -/
theorem standsOpen_iff {marks more : List StyleMark} (h : WithPairs marks more)
    {before before' : List StyleMark}
    (hbefore : ∀ styles, StandsOpen before styles ↔ StandsOpen before' styles)
    (styles : List Style) :
    StandsOpen (marks.reverse ++ before) styles ↔ StandsOpen (more.reverse ++ before') styles := by
  induction h generalizing before before' with
  | nil => exact hbefore styles
  | mark mark _ ih =>
      rw [List.reverse_cons, List.reverse_cons, List.append_assoc, List.append_assoc]
      refine ih fun styles => ?_
      obtain ⟨style, begins⟩ := mark
      cases begins with
      | false =>
          rw [List.singleton_append, List.singleton_append, standsOpen_ends, standsOpen_ends]
          exact hbefore _
      | true =>
          rw [List.singleton_append, List.singleton_append, standsOpen_begins, standsOpen_begins]
          simp only [hbefore]
  | pair style _ ih =>
      have hpair : ∀ styles, StandsOpen before styles ↔
          StandsOpen ((style, false) :: (style, true) :: before') styles := by
        intro styles
        rw [standsOpen_ends, standsOpen_begins, hbefore]
        simp
      simpa using ih hpair

theorem nested_iff {marks more : List StyleMark} (h : WithPairs marks more) :
    Nested marks ↔ Nested more := by
  rw [nested_iff_standsOpen, nested_iff_standsOpen]
  simpa using h.standsOpen_iff (fun styles => Iff.refl (StandsOpen [] styles)) []

end WithPairs

/-- Which styles stand open behind some changes of style, when only some styles count. -/
def StandsOpenOf (counts : Style → Bool) (marks : List StyleMark) (styles : List Style) : Prop :=
  StandsOpen (marks.filter fun mark => counts mark.1) (styles.filter counts)

namespace StandsOpenOf

variable {counts : Style → Bool} {marks : List StyleMark} {styles : List Style}

theorem nil : StandsOpenOf counts [] [] := StandsOpen.nil

theorem begins (style : Style) (h : StandsOpenOf counts marks styles) :
    StandsOpenOf counts ((style, true) :: marks) (style :: styles) := by
  unfold StandsOpenOf at h ⊢
  cases hcounts : counts style with
  | false => simpa [hcounts] using h
  | true => simpa [hcounts] using StandsOpen.begins style h

theorem ends (style : Style) (h : StandsOpenOf counts marks (style :: styles)) :
    StandsOpenOf counts ((style, false) :: marks) styles := by
  unfold StandsOpenOf at h ⊢
  cases hcounts : counts style with
  | false => simpa [hcounts] using h
  | true =>
      rw [List.filter_cons_of_pos hcounts] at h
      simpa [hcounts] using StandsOpen.ends style h

/-- Changes of styles that do not count make no difference. -/
theorem skips {more : List StyleMark} (hmore : ∀ mark ∈ more, counts mark.1 = false)
    (h : StandsOpenOf counts marks styles) : StandsOpenOf counts (more ++ marks) styles := by
  have hnone : more.filter (fun mark => counts mark.1) = [] := by simpa using hmore
  unfold StandsOpenOf at h ⊢
  rwa [List.filter_append, hnone, List.nil_append]

/-- Every style that stands open is ended, the last one first. -/
theorem closed (h : StandsOpenOf counts marks styles) :
    StandsOpenOf counts (styles.foldl (fun marks style => (style, false) :: marks) marks) [] := by
  induction styles generalizing marks with
  | nil => exact h
  | cons style styles ih => exact ih (h.ends style)

theorem nested (h : StandsOpenOf counts marks []) :
    Nested (marks.reverse.filter fun mark => counts mark.1) := by
  rw [List.filter_reverse]
  exact StandsOpen.nested h

end StandsOpenOf

end DocMarkup
