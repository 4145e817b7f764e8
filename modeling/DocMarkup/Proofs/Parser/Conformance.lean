import DocMarkup.Proofs.Parser.Soundness
import DocMarkup.Proofs.Parser.Termination

/-!
The tree of a comment keeps to the grammar.  The invariant is about the open constructs: what they
hold is proper, and inside an internal block, of which no more than one is open, it is free of
others.
-/

namespace DocMarkup.Parser

/-! ### Stacks -/

/-- An internal block is open. -/
def IsInside (stack : List Frame) : Prop := ∃ f ∈ stack, f.construct.kind = .internal

/-- Everything that has been read into the open constructs keeps to the grammar. -/
inductive SoundStack : List Frame → Prop
  | nil : SoundStack []
  | cons (f : Frame) (outer : List Frame) (hf : f.Sound)
      (hfree : IsInside (f :: outer) → f.InternalFree)
      (honce : f.construct.kind = .internal → ¬ IsInside outer) (h : SoundStack outer) :
      SoundStack (f :: outer)

theorem SoundStack.frame {stack : List Frame} (h : SoundStack stack) {f : Frame}
    (hf : f ∈ stack) : f.Sound := by
  induction h with
  | nil => cases hf
  | cons _ _ hsound _ _ _ ih =>
      rcases List.mem_cons.1 hf with rfl | hf
      · exact hsound
      · exact ih hf

theorem isInside_cons (f : Frame) (outer : List Frame) :
    IsInside (f :: outer) ↔ f.construct.kind = .internal ∨ IsInside outer := by
  simp [IsInside]

theorem FillsTop.sound {stack stack' : List Frame} (h : FillsTop stack stack')
    (hs : SoundStack stack) : SoundStack stack' := by
  cases h with
  | nil => exact hs
  | cons f g outer h =>
      cases hs with
      | cons _ _ hf hfree honce houter =>
          have hkind := h.keeps.1
          refine .cons g outer (h.sound hf) (fun hinside => h.internalFree (hfree ?_)) ?_ houter
          · rw [isInside_cons] at hinside ⊢
            rwa [hkind] at hinside
          · rwa [hkind]

theorem BeginsTop.sound {stack stack' : List Frame} (h : BeginsTop stack stack')
    (hs : SoundStack stack) : SoundStack stack' := by
  cases h with
  | intro parent parent' outer c children id h hinternal =>
      cases hs with
      | cons _ _ hf hfree honce houter =>
          have hconstruct := h.keeps.2.1
          have hinside : IsInside (parent' :: outer) ↔ IsInside (parent :: outer) := by
            rw [isInside_cons, isInside_cons, hconstruct]
          obtain ⟨hparent, hchild⟩ := h.sound hf id (some parent.id)
          refine .cons _ _ hchild (fun hopen => ?_) (fun hkind => ?_) (.cons _ _ hparent ?_ ?_ houter)
          · rcases (isInside_cons _ _).1 hopen with hkind | hopen
            · cases h with
              | fresh _ hc _ => exact (Frame.sound_fresh hc id _).2
              | sectionAfter | parametersAfter => cases hkind
            · exact (h.internalFree (hfree (hinside.1 hopen)) id _).2
          · rw [hinside]
            rintro ⟨f, hf, hinner⟩
            exact hinternal hkind f hf hinner
          · exact fun hopen => (h.internalFree (hfree (hinside.1 hopen)) id (some parent.id)).1
          · rwa [hconstruct]

/-- The innermost construct is no list that is still empty. -/
def IsFilled : List Frame → Prop
  | [] => True
  | f :: _ => f.construct.kind.isFilled → f.children ≠ []

/-- A construct ends; a list must not be empty by then. -/
theorem LeavesTop.sound {stack stack' : List Frame} (h : LeavesTop stack stack')
    (hs : SoundStack stack) (hfilled : IsFilled stack) : SoundStack stack' := by
  cases h with
  | intro inner outer outer' rest h =>
      cases hs with
      | cons _ _ hinner hfree honce hs =>
          cases hs with
          | cons _ _ houter hfreeOuter honceOuter hrest =>
              have hkind := h.keeps.1
              have hnode := hinner.toNode hfilled
                fun hinternal => hfree ((isInside_cons _ _).2 (.inl hinternal))
              refine .cons outer' rest (h.sound houter hinner hnode) (fun hopen => ?_) ?_ hrest
              · rw [isInside_cons, hkind, ← isInside_cons] at hopen
                have hinnerFree := hfree ((isInside_cons _ _).2 (.inr hopen))
                refine h.internalFree (hfreeOuter hopen) hinnerFree ?_
                exact hinner.internalFree_toNode hinnerFree fun hinternal => honce hinternal hopen
              · rwa [hkind]

/-- A list that goes on when an item of it has ended is not empty. -/
theorem Frame.Receives.filled {outer inner outer' : Frame} (h : outer.Receives inner outer')
    (hholds : mayHold outer.construct.kind inner.construct.kind)
    (hfilled : outer'.construct.kind.isFilled) : outer'.children ≠ [] := by
  rw [h.keeps.1] at hfilled
  have hlist : ∀ kind : Kind, kind.isFilled → mayHold kind .paragraph = false ∧
      mayHold kind .caption = false ∧ kind ≠ .paragraph := by
    intro kind hkind
    cases kind <;> first
      | (cases hkind; done)
      | exact ⟨rfl, rfl, nofun⟩
  obtain ⟨hparagraph, hcaption, hne⟩ := hlist _ hfilled
  cases h with
  | node => exact List.cons_ne_nil _ _
  | nothing hkind =>
      rw [hkind, hparagraph] at hholds
      cases hholds
  | caption attributes caption opener hkind hconstruct =>
      rw [hkind, hcaption] at hholds
      cases hholds
  | secondCaption hkind =>
      rw [hkind, hcaption] at hholds
      cases hholds
  | text before after hkind hparagraph => exact absurd hparagraph hne

/-! ### Machines -/

namespace Machine

/-- What has been read keeps to the grammar, and a list that may end now is not empty. -/
structure Conforms (m : Machine) : Prop where
  sound : SoundStack m.stack
  filled : IsFilled m.stack

variable {m m' m'' : Machine} {ends : Outcome → Prop}

theorem isFilled_of_innermost (h : m.innermost.isFilled = false) : IsFilled m.stack := by
  unfold innermost at h
  generalize m.stack = stack at h
  cases stack with
  | nil => trivial
  | cons f outer => exact fun hkind => absurd (h.symm.trans hkind) nofun

theorem Fills.conforms (h : Fills m m') (hm : m.Conforms) : m'.Conforms := by
  refine ⟨h.stack.sound hm.sound, ?_⟩
  obtain ⟨hsound, hfilled⟩ := hm
  have hstack := h.stack
  generalize m.stack = stack, m'.stack = stack' at hstack hsound hfilled
  cases hstack with
  | nil => trivial
  | cons f g outer h =>
      cases hsound with
      | cons _ _ hf _ _ _ =>
          intro hkind
          rw [h.keeps.1] at hkind
          exact h.filled hf hkind (hfilled hkind)

theorem Leaves.conforms (h : Leaves m m') (hstacked : Stacked m.stack) (hm : m.Conforms) :
    m'.Conforms := by
  refine ⟨h.stack.sound hm.sound hm.filled, ?_⟩
  have hstack := h.stack
  generalize m.stack = stack, m'.stack = stack' at hstack hstacked
  cases hstack with
  | intro inner outer outer' rest h =>
      cases hstacked with
      | cons _ _ _ _ hkind _ => exact h.filled hkind

theorem Goes.conforms (h : Goes m ends m') (hstacked : Stacked m.stack) (hm : m.Conforms) :
    m'.Conforms := by
  cases h with
  | reads h hkind hphase hword => exact h.conforms hm
  | scans token h hkind hphase htoken => exact h.conforms hm
  | opens h₁ h₂ h hkind hphase =>
      exact ⟨h.stack.sound (h₂.stack.sound (h₁.stack.sound hm.sound)), isFilled_of_innermost hkind⟩
  | opensTwo h₁ h₂ h₃ h₄ h hkind hphase =>
      have hsound := h₃.stack.sound (h₂.stack.sound (h₁.stack.sound hm.sound))
      exact ⟨h.stack.sound (h₄.stack.sound hsound), isFilled_of_innermost hkind⟩
  | leaves outcome h₁ h hphase hends hrow => exact h.conforms (h₁.stacked hstacked) (h₁.conforms hm)

/-- Every turn keeps to the grammar. -/
theorem Turn.conforms (h : Turn m m') (hstacked : Stacked m.stack) (hm : m.Conforms) :
    m'.Conforms := by
  cases h with
  | scans token hphase h => exact h.conforms hm
  | reads hphase h => exact h.conforms hm
  | takes token hphase htoken h => exact h.conforms hstacked hm
  | opensFor token hphase h₁ h₂ h hphase' hkind =>
      exact ⟨h.stack.sound (h₂.stack.sound (h₁.stack.sound hm.sound)),
        isFilled_of_innermost (not_isFilled_of_opensFor hkind)⟩
  | resumes outcome hphase houtcome h => exact h.conforms hstacked hm
  | retakes token hphase h => exact h.conforms hm
  | closes hphase h₁ h => exact h.conforms (h₁.stacked hstacked) (h₁.conforms hm)
  | finishes hphase hkind => exact ⟨hm.sound, hm.filled⟩

theorem run_conforms (hm : m.Ready) (h : m.Conforms) (n : Nat) : (run n m).Conforms :=
  (run_keeps (fun _ _ hm h hturn => hturn.conforms hm.stacked h) hm h n).2

/-- When a comment has been read, nothing but its root is open. -/
theorem Ready.stack_of_finished (hm : m.Ready) (h : m.phase = .finished) :
    ∃ f, m.stack = [f] ∧ f.construct.kind = .root := by
  have hroot := hm.finished h
  have hstacked := hm.stacked
  unfold innermost at hroot
  generalize m.stack = stack at hroot hstacked
  cases hstacked with
  | root f hkind => exact ⟨f, rfl, hkind⟩
  | cons inner outer rest hmade hkind _ =>
      have hinner : inner.construct.kind = .root := hroot
      rw [hinner] at hkind
      cases houter : outer.construct.kind <;> simp [houter, mayHold, Kind.lists, Kind.isParagraphPart,
        Kind.isInline, Kind.isPlain] at hkind

end Machine

theorem start_conforms (p : Parser) (setting : Setting) : (p.start setting).Conforms := by
  have hfresh : (Construct.root setting.comment.singleLine).IsFresh := trivial
  obtain ⟨hsound, hfree⟩ := Frame.sound_fresh hfresh 0 none
  exact ⟨.cons _ [] hsound (fun _ => hfree) nofun .nil, nofun⟩

/-! ### Comments -/

theorem after_conforms (p : Parser) (comment : Comment) (n : Nat) :
    (p.after comment n).Conforms :=
  Machine.run_conforms (start_ready p _) (start_conforms p _) n

theorem final_conforms (p : Parser) (comment : Comment) : (p.final comment).Conforms :=
  p.after_conforms comment _

theorem parse_proper (p : Parser) (comment : Comment) :
    (p.parse comment).1.root.kind = .root ∧ (p.parse comment).1.root.Everywhere Node.Proper := by
  obtain ⟨f, hstack, hkind⟩ :=
    (final_ready p comment).stack_of_finished (final_finished p comment)
  have hroot := parse_root p comment
  rw [hstack] at hroot
  have hsound := (p.final_conforms comment).sound
  rw [hstack] at hsound
  cases hsound with
  | cons _ _ hf _ _ _ =>
      rw [hroot]
      refine ⟨f.kind_toNode.trans hkind, hf.toNode ?_ ?_⟩
      · exact fun hfilled => absurd (hkind ▸ hfilled) nofun
      · exact fun hinternal => absurd (hkind.symm.trans hinternal) nofun

/-- The tree of every comment keeps to the grammar. -/
theorem parse_conforms (p : Parser) (comment : Comment) :
    (p.parse comment).1.root.kind = .root ∧
      ∀ n, (p.parse comment).1.root.Reaches n → n.Conforms := by
  obtain ⟨hkind, hproper⟩ := parse_proper p comment
  exact ⟨hkind, fun n hn => (hproper n hn).toConforms⟩

end DocMarkup.Parser
