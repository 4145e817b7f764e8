import DocMarkup.Proofs.Parser.Inline

/-!
Markup tags: the structures they begin, the parts of these, and what else they do in a paragraph.
-/

namespace DocMarkup.Parser

/-- Structures whose parts begin with tags of their own. -/
def holdsParts : Kind → Bool
  | .list | .descList | .table | .row | .refList => true
  | _ => false

namespace Machine

variable {m m' : Machine} {ends : Outcome → Prop}

/-! ### Structures -/

/-- The innermost construct is a structure of the given kind. -/
structure InStructure (m : Machine) (k : Kind) : Prop where
  stacked : Stacked m.stack
  kind : m.innermost = k
  holdsParts : holdsParts k := by rfl

namespace InStructure

variable {k : Kind}

theorem not_isFilled (hm : m.InStructure k) : m.innermost.isFilled = false := by
  have hk := hm.holdsParts
  rw [hm.kind]
  cases k <;> first | rfl | cases hk

theorem readSolid (hm : m.InStructure k) (h : Fills m m') : Goes m ends m'.readSolid :=
  .readSolid h hm.not_isFilled

theorem closes (hm : m.InStructure k) (h : Fills m m') {outcome : Outcome} (hends : ends outcome)
    (hrow : k = .row → ∀ token, outcome = .handBack token →
      token.isStartTag ["td", "th"] = false) : Goes m ends (m'.close outcome) := by
  have hk := hm.holdsParts
  have hm' := h.stacked hm.stacked
  refine .leaves outcome h (leaves_close hm' ?_ ?_ ?_ outcome) (phase_close hm' outcome) hends
    (hm.kind ▸ hrow)
  all_goals
    rw [h.innermost, hm.kind]
    rintro rfl
    cases hk

theorem opens (hm : m.InStructure k) (h : Fills m m') {c : Construct}
    (hc : c.IsFresh) (hkind : mayHold k c.kind) (hfilled : c.kind.isFilled = false)
    (hinternal : c.kind ≠ .internal) {phase : Phase}
    (hphase : phase.readsAnew) : Goes m ends { m'.push c with phase } := by
  have hm' := h.stacked hm.stacked
  rw [← hm.kind, ← h.innermost] at hkind
  exact .opens h (begins_push hc hkind hm' fun h => absurd h hinternal)
    ((Fills.refl _).phase phase) hfilled hphase rfl

end InStructure

/-- The next item of a list is begun. -/
theorem listItem_goes (hm : m.InStructure .list) (token : Token) : Goes m ends (m.listItem token) := by
  obtain ⟨frame, outer, rest, hstack, hframe, -⟩ :=
    exists_around hm.stacked (by rw [hm.kind]; rintro ⟨⟩)
  rw [hm.kind] at hframe
  unfold listItem
  rw [hstack]
  dsimp only
  cases hconstruct : frame.construct with
  | list list next opener =>
      dsimp only
      generalize (Whole.read? _).getD next = number
      have hfills : Fills m { m with stack :=
          { frame with construct := .list list (number + 1) opener } :: outer :: rest } := by
        refine ⟨rfl, rfl, le_rfl, rfl, .refl _ _, ?_⟩
        rw [hstack]
        exact .cons frame _ _ (.single (.construct _ (hconstruct ▸ .list list next _ opener)
          fun _ => .inl (by rw [hconstruct]; rfl)))
      exact hm.opens hfills (by trivial) rfl rfl (by rintro ⟨⟩) rfl
  | _ =>
      rw [hconstruct] at hframe
      cases hframe

theorem takeInList_goes (hm : m.InStructure .list) (opener : Token) {token : Token}
    (hend : token.kind ≠ .endOfText) : Goes m (endsWith token) (m.takeInList opener token) := by
  unfold takeInList
  split
  · exact listItem_goes hm token
  · split
    · exact hm.closes (readsOn_ite' _ (readsOn_report _ _ _ rfl)).fills (.inl rfl) nofun
    · split
      · next htoken => exact absurd (by simpa using htoken) hend
      · split
        · exact hm.closes (readsOn_report _ _ _ rfl).fills (.inr (.inr rfl)) nofun
        · exact hm.readSolid (readsOn_report _ _ _ rfl).fills

theorem takeInDescList_goes (hm : m.InStructure .descList) (opener : Token) {token : Token}
    (hend : token.kind ≠ .endOfText) : Goes m (endsWith token) (m.takeInDescList opener token) := by
  unfold takeInDescList
  split
  · exact hm.opens (.refl m) (by trivial) rfl rfl (by rintro ⟨⟩) rfl
  · split
    · exact hm.opens (.refl m) (by trivial) rfl rfl (by rintro ⟨⟩) rfl
    · split
      · exact hm.closes (.refl m) (.inl rfl) nofun
      · split
        · next htoken => exact absurd (by simpa using htoken) hend
        · split
          · exact hm.closes (readsOn_report _ _ _ rfl).fills (.inr (.inr rfl)) nofun
          · exact hm.readSolid (readsOn_report _ _ _ rfl).fills

theorem takeInTable_goes (hm : m.InStructure .table) (caption : Option Node) (opener : Token)
    {token : Token} (hend : token.kind ≠ .endOfText)
    (hcell : token.isStartTag ["td", "th"] = false) :
    Goes m (endsWith token) (m.takeInTable caption opener token) := by
  unfold takeInTable
  rw [hcell]
  split
  · exact hm.opens (readsOn_ite _ (readsOn_report _ _ _ rfl)).fills (by trivial) rfl rfl (by rintro ⟨⟩) rfl
  · split
    · exact hm.opens (.refl m) (by trivial) rfl rfl (by rintro ⟨⟩) rfl
    · rw [if_neg Bool.false_ne_true]
      split
      · exact hm.closes (.refl m) (.inl rfl) nofun
      · split
        · next htoken => exact absurd (by simpa using htoken) hend
        · split
          · exact hm.readSolid (.refl m)
          · split
            · exact hm.closes (readsOn_report _ _ _ rfl).fills (.inr (.inr rfl)) nofun
            · exact hm.readSolid (readsOn_report _ _ _ rfl).fills

/-- A cell outside a row begins one. -/
theorem takeInTable_cell (caption : Option Node) (opener : Token) {token : Token}
    (hcell : token.isStartTag ["td", "th"]) :
    m.takeInTable caption opener token =
      ((m.report token (.expectedRow (units "<" ++ token.value ++ units ">"))).push
        (.row [])).take token := by
  have hname : token.value = units "td" ∨ token.value = units "th" := by
    have hnames := (Bool.and_eq_true_iff.1 hcell).2
    simp only [List.any_cons, List.any_nil, Bool.or_false, Bool.or_eq_true, beq_iff_eq] at hnames
    exact hnames.imp Eq.symm Eq.symm
  have hother : token.isStartTag ["caption"] = false ∧ token.isStartTag ["tr"] = false := by
    unfold Token.isStartTag
    rcases hname with hname | hname <;> rw [hname] <;>
      exact ⟨Bool.and_eq_false_iff.2 (.inr (by decide)), Bool.and_eq_false_iff.2 (.inr (by decide))⟩
  unfold takeInTable
  rw [hother.1, hother.2, hcell]
  rfl

theorem takeInRow_goes (hm : m.InStructure .row) {token : Token} (hend : token.kind ≠ .endOfText) :
    Goes m (endsWith token) (m.takeInRow token) := by
  unfold takeInRow
  split
  · exact hm.opens (.refl m) (by trivial) rfl rfl (by rintro ⟨⟩) rfl
  · next hcell =>
    have hback : Goes m (endsWith token) (m.close (.handBack token)) := by
      refine hm.closes (.refl m) (.inr (.inr rfl)) fun _ other hother => ?_
      cases hother
      exact Bool.eq_false_iff.2 hcell
    split
    · exact hm.closes (.refl m) (.inl rfl) fun _ _ => nofun
    · split
      · next htoken => exact absurd (by simpa using htoken) hend
      · split
        · exact hback
        · split
          · exact hm.readSolid (.refl m)
          · split
            · exact hback
            · exact hm.readSolid (readsOn_report _ _ _ rfl).fills

/-! ### Tags in a paragraph -/

theorem anchorTag_goes (hm : m.InParagraph) (token : Token) :
    Goes m ends (m.anchorTag token) := by
  unfold anchorTag
  dsimp only
  split
  · split
    · exact hm.leaf (.refl m) rfl rfl
    · exact hm.opens (.refl m) (by trivial) rfl rfl (by rintro ⟨⟩) rfl
  · split
    · exact hm.leaf (.refl m) rfl rfl
    · exact hm.read (readsOn_report _ _ _ rfl).fills

theorem imageTag_goes (hm : m.InParagraph) (token : Token) : Goes m ends (m.imageTag token) := by
  unfold imageTag
  dsimp only
  split
  · exact hm.read (readsOn_report _ _ _ rfl).fills
  · exact hm.leaf (.refl m) rfl rfl

theorem paragraphTag_goes (hm : m.InParagraph) (token : Token) :
    Goes m (endsWith token) (m.paragraphTag token) := by
  unfold paragraphTag
  split
  · exact hm.read ((Fills.refl m).attributes token.attributes)
  · exact hm.closes (.refl m) (.inr (.inl rfl))

theorem startTag_goes (hm : m.InParagraph) (token : Token) :
    Goes m (endsWith token) (m.startTag token) := by
  unfold startTag
  split
  · exact styleStart_goes hm token _
  · exact hm.opens (.refl m) (by trivial) rfl rfl (by rintro ⟨⟩) rfl
  · split
    · exact paragraphTag_goes hm token
    · exact hm.leaf (.refl m) rfl rfl
    · exact hm.leaf (.refl m) rfl rfl
    · exact hm.opens (.refl m) (by trivial) rfl rfl (by rintro ⟨⟩) rfl
    · exact hm.opens (.refl m) (by trivial) rfl rfl (by rintro ⟨⟩) rfl
    · refine hm.opens (c := .table token.attributes none token) (.refl m) ?_ rfl rfl ?_ rfl
      · trivial
      · rintro ⟨⟩
    · exact hm.opens (.refl m) (by trivial) rfl rfl (by rintro ⟨⟩) rfl
    · exact anchorTag_goes hm token
    · exact imageTag_goes hm token
    · split
      · exact hm.closes (.refl m) (.inr (.inr rfl))
      · exact hm.read (readsOn_report _ _ _ rfl).fills
    · exact hm.read (readsOn_report _ _ _ rfl).fills

theorem endTag_goes (hm : m.InParagraph) (token : Token) :
    Goes m (endsWith token) (m.endTag token) := by
  unfold endTag
  split
  · exact styleEnd_goes hm token _
  · split
    · exact hm.read (.refl m)
    · dsimp only
      split
      · exact hm.closes (.refl m) (.inr (.inr rfl))
      · exact hm.read (readsOn_report _ _ _ rfl).fills

end Machine

end DocMarkup.Parser
