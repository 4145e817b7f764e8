import DocMarkup.Proofs.Parser.Conformance

/-!
Properties of all nodes of a document.  What holds of every node made whole, and of every construct
while it is open, holds of the whole tree.
-/

namespace DocMarkup.Parser

/-- A property that holds everywhere in what steps make by themselves. -/
structure OfSteps (P : Node → Prop) : Prop where
  made : ∀ {n}, Made n → n.Everywhere P
  bare : ∀ content flags, content.kind.isBare → (Node.node content flags [] [] []).Everywhere P
  title : ∀ {text}, IsPlainText text → (Node.branch .title text).Everywhere P

/-- A property that does not depend on marks and holds of every node that a step makes whole. -/
structure OfMade (P : Node → Prop) : Prop where
  ignores : Node.IgnoresMarks P
  bare : ∀ content flags, P (.node content flags [] [] [])
  text : ∀ content text, IsPlainText text → P (.branch content text)
  keyword : ∀ title body, IsPlainText title → IsPlainText body →
    P (.node (.simpleSection .keyword) {} [] [.branch .title title]
      (if body.isEmpty then [] else [.branch (.paragraph {}) body]))

namespace OfMade

variable {P : Node → Prop} (hP : OfMade P)
include hP

theorem bareEverywhere (content : Content) (flags : NodeFlags) :
    (Node.node content flags [] [] []).Everywhere P :=
  Node.everywhere_iff.2 ⟨hP.bare content flags, nofun⟩

theorem textEverywhere (content : Content) {text : List Node} (htext : IsPlainText text) :
    (Node.branch content text).Everywhere P := by
  refine Node.everywhere_iff.2 ⟨hP.text content text htext, fun part hpart => ?_⟩
  obtain ⟨content, rfl, -⟩ := htext part hpart
  exact hP.bareEverywhere content {}

theorem made {n : Node} (h : Made n) : n.Everywhere P := by
  cases h with
  | leaf content flags => exact hP.bareEverywhere content flags
  | titled content text _ htext => exact hP.textEverywhere content htext
  | keyword title body htitle hbody =>
      have hmarks := forall₂_markParagraphs
        (if body.isEmpty then [] else [.branch (.paragraph {}) body])
      refine Node.everywhere_iff.2 ⟨?_, fun part hpart => ?_⟩
      · have hmatches := hmarks.imp fun _ _ => Node.Keeps.toMatches
        exact hP.ignores (.node _ _ _ _ (if body.isEmpty then [] else _)) _ ⟨rfl, .inl rfl⟩ rfl rfl
          hmatches (hP.keyword title body htitle hbody)
      · rcases List.mem_cons.1 hpart with rfl | hpart
        · exact hP.textEverywhere _ htitle
        · obtain ⟨before, hbefore, hkeeps⟩ := Node.exists_of_mem_right hmarks hpart
          refine hkeeps.ignored P hP.ignores ?_
          split at hbefore
          · cases hbefore
          · rw [List.mem_singleton.1 hbefore]
            exact hP.textEverywhere _ hbody

theorem ofSteps : OfSteps P :=
  ⟨hP.made, fun content flags _ => hP.bareEverywhere content flags, hP.textEverywhere .title⟩

end OfMade

theorem OfSteps.separator {P : Node → Prop} (hP : OfSteps P) :
    (Node.leaf .separator).Everywhere P :=
  hP.made (.leaf .separator {} rfl rfl)

/-- Nothing stands below an include step. -/
theorem eq_bare_of_step {n : Node} (h : n.Conforms) (hn : n.kind = .includeStep) :
    n = .node n.content n.flags [] [] [] := by
  have hparts : n.parts = [] := h.parts_eq_nil (by rw [hn]; rfl)
  obtain ⟨content, flags, types, heads, children⟩ := n
  rw [Node.parts, List.append_eq_nil_iff, List.append_eq_nil_iff] at hparts
  obtain ⟨⟨rfl, rfl⟩, rfl⟩ := hparts
  rfl

namespace Frame

variable {P : Node → Prop}

/-- A property holds everywhere in what has been read into a construct. -/
def Shows (P : Node → Prop) (f : Frame) : Prop :=
  ∀ n ∈ f.construct.types ++ f.construct.heads ++ f.children, n.Everywhere P

theorem Shows.child {f : Frame} (h : f.Shows P) {n : Node} (hn : n ∈ f.children) :
    n.Everywhere P :=
  h n (List.mem_append_right _ hn)

theorem shows_fresh (hP : OfSteps P) {c : Construct} (h : c.IsFresh) (id : Nat)
    (madeFor : Option Nat) : (Frame.mk c [] id madeFor).Shows P := by
  unfold Shows
  rw [List.append_nil]
  cases c with
  | simpleSection type heads =>
      intro head hhead
      obtain ⟨text, rfl, htext⟩ := h.title hhead
      exact hP.title htext
  | paramList list types names =>
      intro n hn
      obtain ⟨content, rfl, hname⟩ := h n hn
      exact hP.bare content {} (Kind.isBare_of_isName hname)
  | table attributes given opener =>
      obtain rfl : given = none := h
      exact nofun
  | _ => exact nofun

theorem shows_continueRun (hP : OfSteps P) {children : List Node}
    (hproper : ∀ n ∈ children, n.Everywhere Node.Proper)
    (h : ∀ n ∈ children, n.Everywhere P) :
    ∀ n ∈ Machine.continueRun children, n.Everywhere P := by
  intro n hn
  rcases Machine.mem_continueRun hn with hmem | hkind
  · exact h n hmem
  · obtain ⟨before, hbefore, halike⟩ :=
      Node.exists_of_mem_right (Machine.forall₂_continueRun children) hn
    rw [eq_bare_of_step (halike.proper (hproper before hbefore)).here.toConforms hkind]
    exact hP.bare _ _ (show n.kind.isBare by rw [hkind]; rfl)

/-! ### Moves -/

theorem Changes.shows (hP : OfSteps P) {f g : Frame} (h : f.Changes g) (hsound : f.Sound)
    (hf : f.Shows P) : g.Shows P := by
  obtain ⟨hparts, hchildren⟩ := List.forall_mem_append.1 hf
  refine List.forall_mem_append.2 ?_
  cases h with
  | construct c h =>
      obtain ⟨htypes, hheads⟩ := h.parts
      rw [← htypes, ← hheads] at hparts
      exact ⟨hparts, hchildren⟩
  | adds n hn hkind => exact ⟨hparts, List.forall_mem_cons.2 ⟨hP.made hn, hchildren⟩⟩
  | marks change flags hkind hstyle =>
      exact ⟨hparts, List.forall_mem_cons.2 ⟨hP.bare _ _ rfl, hchildren⟩⟩
  | steps step hkind hfirst hlast =>
      refine ⟨hparts, List.forall_mem_cons.2 ⟨hP.bare _ _ rfl, ?_⟩⟩
      exact shows_continueRun hP (fun n hn => (hsound.held.children n hn).2) hchildren
  | trims => exact ⟨hparts, fun n hn => hchildren n ((List.dropWhile_sublist _).subset hn)⟩

theorem Begins.shows (hP : OfSteps P) {parent parent' : Frame} {c : Construct}
    {children : List Node} (h : parent.Begins parent' c children) (hparent : parent.Shows P)
    (id : Nat) (madeFor : Option Nat) :
    parent'.Shows P ∧ (Frame.mk c children id madeFor).Shows P := by
  obtain ⟨hparts, hbefore⟩ := List.forall_mem_append.1 hparent
  cases h with
  | fresh _ hc hkind => exact ⟨hparent, shows_fresh hP hc id madeFor⟩
  | sectionAfter n before type hkind hchildren hn =>
      rw [hchildren] at hbefore
      obtain ⟨hn, hbefore⟩ := List.forall_mem_cons.1 hbefore
      refine ⟨List.forall_mem_append.2 ⟨hparts, hbefore⟩, List.forall_mem_append.2 ⟨?_, ?_⟩⟩
      · exact fun head hhead => hn.head hhead
      · refine List.forall_mem_cons.2 ⟨hP.separator, fun child hchild => ?_⟩
        exact hn.child (List.mem_reverse.1 hchild)
  | parametersAfter n before sect sect' hkind hchildren hn =>
      rw [hchildren] at hbefore
      obtain ⟨hn, hbefore⟩ := List.forall_mem_cons.1 hbefore
      refine ⟨List.forall_mem_append.2 ⟨hparts, hbefore⟩, fun child hchild => ?_⟩
      exact hn.child (List.mem_reverse.1 hchild)

theorem Receives.shows (hP : OfSteps P) {outer inner outer' : Frame}
    (h : outer.Receives inner outer') (houter : outer.Shows P) (hinner : inner.Shows P)
    (hnode : inner.MayEnd → inner.toNode.Everywhere P) : outer'.Shows P := by
  obtain ⟨hparts, hchildren⟩ := List.forall_mem_append.1 houter
  cases h with
  | node hkind hend =>
      exact List.forall_mem_append.2 ⟨hparts, List.forall_mem_cons.2 ⟨hnode hend, hchildren⟩⟩
  | nothing | secondCaption => exact houter
  | caption attributes caption opener hkind hconstruct =>
      have hwhole := hnode fun hparagraph => absurd (hkind.symm.trans hparagraph) (by rintro ⟨⟩)
      exact List.forall_mem_append.2 ⟨List.forall_mem_singleton.2 hwhole, hchildren⟩
  | text before after hkind hparagraph =>
      refine List.forall_mem_append.2 ⟨hparts, List.forall_mem_cons.2
        ⟨hP.bare _ _ rfl, List.forall_mem_append.2 ⟨fun n hn => hinner.child hn, ?_⟩⟩⟩
      exact List.forall_mem_cons.2 ⟨hP.bare _ _ rfl, hchildren⟩

theorem Fills.shows (hP : OfSteps P) {f g : Frame} (h : f.Fills g) (hsound : f.Sound)
    (hf : f.Shows P) : g.Shows P := by
  induction h with
  | refl => exact hf
  | tail hbefore hlast ih => exact hlast.shows hP (Fills.sound hbefore hsound) ih

/-- What holds everywhere in a construct and of its node holds everywhere in its node. -/
theorem Shows.toNode (hP : OfMade P) {f : Frame} (h : f.Shows P) (hsound : f.Sound)
    (hnode : P f.toNode) : f.toNode.Everywhere P := by
  refine Node.everywhere_iff.2 ⟨hnode, fun part hpart => ?_⟩
  rw [Node.parts, f.types_toNode, f.heads_toNode] at hpart
  rcases List.mem_append.1 hpart with hpart | hchild
  · exact h part (List.mem_append_left _ hpart)
  · obtain ⟨before, hbefore, hkeeps⟩ :=
      Node.exists_of_mem_right (f.forall₂_toNode hsound.rows) hchild
    exact hkeeps.ignored P hP.ignores (h.child (List.mem_reverse.1 hbefore))

/-- Children get marks when their construct ends; what ignores marks can be shown without them. -/
theorem of_toNode_withChildren (hP : Node.IgnoresMarks P) {f : Frame} (hsound : f.Sound)
    (h : P (f.toNode.withChildren f.children.reverse)) : P f.toNode :=
  hP (f.toNode.withChildren f.children.reverse) f.toNode ⟨rfl, .inl rfl⟩ rfl rfl
    ((f.forall₂_toNode hsound.rows).imp fun _ _ => Node.Keeps.toMatches) h

end Frame

/-! ### Stacks -/

section
variable {P : Node → Prop} {stack stack' : List Frame}

theorem FillsTop.shows (hP : OfSteps P) (h : FillsTop stack stack') (hsound : SoundStack stack)
    (hs : ∀ f ∈ stack, f.Shows P) : ∀ f ∈ stack', f.Shows P := by
  cases h with
  | nil => exact hs
  | cons f g outer h =>
      obtain ⟨hf, houter⟩ := List.forall_mem_cons.1 hs
      cases hsound with
      | cons _ _ hsound => exact List.forall_mem_cons.2 ⟨h.shows hP hsound hf, houter⟩

theorem BeginsTop.shows (hP : OfSteps P) (h : BeginsTop stack stack')
    (hs : ∀ f ∈ stack, f.Shows P) : ∀ f ∈ stack', f.Shows P := by
  cases h with
  | intro parent parent' outer c children id h =>
      obtain ⟨hf, houter⟩ := List.forall_mem_cons.1 hs
      obtain ⟨hparent, hchild⟩ := h.shows hP hf id (some parent.id)
      exact List.forall_mem_cons.2 ⟨hchild, List.forall_mem_cons.2 ⟨hparent, houter⟩⟩

/-- A construct ends; the property must hold everywhere in the node that it becomes. -/
theorem LeavesTop.shows_of_closed (hP : OfSteps P) (h : LeavesTop stack stack')
    (hnode : ∀ f ∈ stack.head?, f.MayEnd → f.toNode.Everywhere P)
    (hs : ∀ f ∈ stack, f.Shows P) : ∀ f ∈ stack', f.Shows P := by
  cases h with
  | intro inner outer outer' rest h =>
      obtain ⟨hinner, hs⟩ := List.forall_mem_cons.1 hs
      obtain ⟨houter, hrest⟩ := List.forall_mem_cons.1 hs
      exact List.forall_mem_cons.2 ⟨h.shows hP houter hinner (hnode inner rfl), hrest⟩

/-- A construct ends; the property must hold of the node that it becomes. -/
theorem LeavesTop.shows (hP : OfMade P) (h : LeavesTop stack stack') (hsound : SoundStack stack)
    (hnode : ∀ f ∈ stack.head?, P f.toNode) (hs : ∀ f ∈ stack, f.Shows P) :
    ∀ f ∈ stack', f.Shows P := by
  refine h.shows_of_closed hP.ofSteps (fun f hf _ => ?_) hs
  have hmem := List.mem_of_mem_head? hf
  exact (hs f hmem).toNode hP (hsound.frame hmem) (hnode f hf)

end

/-! ### Constructs by themselves -/

/-- Whatever is done to a construct, `Q` holds of it while it is open and `P` of the nodes in it. -/
structure Lasts (Q : Frame → Prop) (P : Node → Prop) : Prop where
  fresh : ∀ {c : Construct}, c.IsFresh → ∀ id madeFor, Q ⟨c, [], id, madeFor⟩
  changes : ∀ {f g : Frame}, f.Changes g → f.Sound → Q f → Q g
  begins : ∀ {parent parent' : Frame} {c : Construct} {children : List Node},
    parent.Begins parent' c children → parent.Sound → Q parent → (∀ n ∈ parent.children, P n) →
      ∀ id madeFor, Q parent' ∧ Q ⟨c, children, id, madeFor⟩
  receives : ∀ {outer inner outer' : Frame}, outer.Receives inner outer' → outer.Sound →
    inner.Sound → Q outer → Q inner → Q outer'

/-- Of the node that such a construct becomes `P` holds everywhere. -/
structure Upholds (Q : Frame → Prop) (P : Node → Prop) : Prop extends OfSteps P, Lasts Q P where
  node : ∀ {f : Frame}, f.Sound → Q f → f.Shows P → f.MayEnd → f.toNode.Everywhere P

/-- Of the node that such a construct becomes `P` holds, and `P` does not depend on marks. -/
structure Grows (Q : Frame → Prop) (P : Node → Prop) : Prop extends OfMade P, Lasts Q P where
  node : ∀ {f : Frame}, f.Sound → Q f → P f.toNode

namespace Grows

variable {Q : Frame → Prop} {P : Node → Prop}

/-- Both properties hold so far. -/
def SoFar (Q : Frame → Prop) (P : Node → Prop) (stack : List Frame) : Prop :=
  ∀ f ∈ stack, Q f ∧ f.Shows P

variable {stack : List Frame}

theorem SoFar.holds (hs : SoFar Q P stack) : ∀ f ∈ stack, Q f := fun f hf => (hs f hf).1

theorem SoFar.shows (hs : SoFar Q P stack) : ∀ f ∈ stack, f.Shows P := fun f hf => (hs f hf).2

theorem SoFar.intro (hholds : ∀ f ∈ stack, Q f) (hshows : ∀ f ∈ stack, f.Shows P) :
    SoFar Q P stack := fun f hf => ⟨hholds f hf, hshows f hf⟩

theorem upholds (h : Grows Q P) : Upholds Q P where
  toOfSteps := h.toOfMade.ofSteps
  toLasts := h.toLasts
  node hsound hq hshows _ := hshows.toNode h.toOfMade hsound (h.node hsound hq)

end Grows

namespace Upholds

open Grows (SoFar)

variable {Q : Frame → Prop} {P : Node → Prop} (h : Upholds Q P)
variable {stack stack' : List Frame}
include h

theorem fills (hfills : FillsTop stack stack') (hsound : SoundStack stack)
    (hs : SoFar Q P stack) : SoFar Q P stack' := by
  refine .intro ?_ (hfills.shows h.toOfSteps hsound hs.shows)
  cases hfills with
  | nil => exact hs.holds
  | cons f g outer hfills =>
      obtain ⟨hq, houter⟩ := List.forall_mem_cons.1 hs.holds
      have hf := hsound.frame List.mem_cons_self
      refine List.forall_mem_cons.2 ⟨?_, houter⟩
      clear hs hsound
      induction hfills with
      | refl => exact hq
      | tail hbefore hlast ih => exact h.changes hlast (Frame.Fills.sound hbefore hf) ih

theorem beginsTop (hbegins : BeginsTop stack stack') (hsound : SoundStack stack)
    (hs : SoFar Q P stack) : SoFar Q P stack' := by
  refine .intro ?_ (hbegins.shows h.toOfSteps hs.shows)
  cases hbegins with
  | intro parent parent' outer c children id hbegins =>
      obtain ⟨hq, houter⟩ := List.forall_mem_cons.1 hs.holds
      have hshows := hs.shows parent List.mem_cons_self
      obtain ⟨hparent, hchild⟩ := h.begins hbegins (hsound.frame List.mem_cons_self) hq
        (fun n hn => (hshows.child hn).here) id (some parent.id)
      exact List.forall_mem_cons.2 ⟨hchild, List.forall_mem_cons.2 ⟨hparent, houter⟩⟩

theorem leaves (hleaves : LeavesTop stack stack') (hsound : SoundStack stack)
    (hs : SoFar Q P stack) : SoFar Q P stack' := by
  refine .intro ?_ (hleaves.shows_of_closed h.toOfSteps (fun f hf => ?_) hs.shows)
  · cases hleaves with
    | intro inner outer outer' rest hreceives =>
        obtain ⟨hinner, hholds⟩ := List.forall_mem_cons.1 hs.holds
        obtain ⟨houter, hrest⟩ := List.forall_mem_cons.1 hholds
        have hsoundOuter := hsound.frame (List.mem_cons_of_mem _ List.mem_cons_self)
        have hsoundInner := hsound.frame List.mem_cons_self
        exact List.forall_mem_cons.2
          ⟨h.receives hreceives hsoundOuter hsoundInner houter hinner, hrest⟩
  · have hf := List.mem_of_mem_head? hf
    exact h.node (hsound.frame hf) (hs.holds f hf) (hs.shows f hf)

theorem goes {m m' : Machine} {ends : Outcome → Prop} (hgoes : m.Goes ends m')
    (hm : m.Conforms) (hs : SoFar Q P m.stack) : SoFar Q P m'.stack := by
  have hsound := hm.sound
  cases hgoes with
  | reads h₁ => exact h.fills h₁.stack hsound hs
  | scans token h₁ => exact h.fills h₁.stack hsound hs
  | opens h₁ h₂ h₃ =>
      have hsound₁ := h₁.stack.sound hsound
      have hsound₂ := h₂.stack.sound hsound₁
      exact h.fills h₃.stack hsound₂
        (h.beginsTop h₂.stack hsound₁ (h.fills h₁.stack hsound hs))
  | opensTwo h₁ h₂ h₃ h₄ h₅ =>
      have hsound₁ := h₁.stack.sound hsound
      have hsound₂ := h₂.stack.sound hsound₁
      have hsound₃ := h₃.stack.sound hsound₂
      have hsound₄ := h₄.stack.sound hsound₃
      have hinner := h.fills h₃.stack hsound₂
        (h.beginsTop h₂.stack hsound₁ (h.fills h₁.stack hsound hs))
      exact h.fills h₅.stack hsound₄ (h.beginsTop h₄.stack hsound₃ hinner)
  | leaves outcome h₁ h₂ =>
      exact h.leaves h₂.stack (h₁.stack.sound hsound) (h.fills h₁.stack hsound hs)

theorem turn {m m' : Machine} (hturn : m.Turn m') (hm : m.Conforms) (hs : SoFar Q P m.stack) :
    SoFar Q P m'.stack := by
  have hsound := hm.sound
  cases hturn with
  | scans token hphase h₁ => exact h.fills h₁.stack hsound hs
  | reads hphase h₁ => exact h.fills h₁.stack hsound hs
  | takes token hphase htoken h₁ => exact h.goes h₁ hm hs
  | opensFor token hphase h₁ h₂ h₃ =>
      have hsound₁ := h₁.stack.sound hsound
      exact h.fills h₃.stack (h₂.stack.sound hsound₁)
        (h.beginsTop h₂.stack hsound₁ (h.fills h₁.stack hsound hs))
  | resumes outcome hphase houtcome h₁ => exact h.goes h₁ hm hs
  | retakes token hphase h₁ => exact h.fills h₁.stack hsound hs
  | closes hphase h₁ h₂ =>
      exact h.leaves h₂.stack (h₁.stack.sound hsound) (h.fills h₁.stack hsound hs)
  | finishes hphase hkind => exact hs

theorem run {m : Machine} (hm : m.Ready) (hconforms : m.Conforms) (hs : SoFar Q P m.stack)
    (n : Nat) : SoFar Q P (m.run n).stack := by
  refine (Machine.run_keeps (P := fun m => m.Conforms ∧ SoFar Q P m.stack) ?_ hm
    ⟨hconforms, hs⟩ n).2.2
  intro m m' hm hs hturn
  exact ⟨hturn.conforms hm.stacked hs.1, h.turn hturn hs.1 hs.2⟩

theorem after (p : Parser) (comment : Comment) (n : Nat) :
    SoFar Q P (p.after comment n).stack := by
  refine h.run (start_ready p _) (start_conforms p _) (List.forall_mem_singleton.2 ?_) n
  have hroot : (Construct.root (settingOf p.options comment
    (expandAliases p.options comment).1).comment.singleLine).IsFresh := trivial
  exact ⟨h.fresh hroot 0 none, Frame.shows_fresh h.toOfSteps hroot 0 none⟩

/-- The property holds of every node of a comment. -/
theorem parse (p : Parser) (comment : Comment) : (p.parse comment).1.root.Everywhere P := by
  obtain ⟨f, hstack, hkind⟩ :=
    (final_ready p comment).stack_of_finished (final_finished p comment)
  have hfinal : SoFar Q P (p.final comment).stack := h.after p comment _
  have hsound := (p.final_conforms comment).sound
  rw [hstack] at hsound hfinal
  obtain ⟨hq, hshows⟩ := hfinal f (List.mem_singleton_self f)
  rw [parse_root, hstack]
  cases hsound with
  | cons _ _ hf =>
      refine h.node hf hq hshows fun hparagraph => ?_
      exact absurd (hkind.symm.trans hparagraph) (by rintro ⟨⟩)

end Upholds

namespace Grows

variable {Q : Frame → Prop} {P : Node → Prop}

theorem after (h : Grows Q P) (p : Parser) (comment : Comment) (n : Nat) :
    SoFar Q P (p.after comment n).stack :=
  h.upholds.after p comment n

/-- The property holds of every node of a comment. -/
theorem parse (h : Grows Q P) (p : Parser) (comment : Comment) :
    (p.parse comment).1.root.Everywhere P :=
  h.upholds.parse p comment

end Grows

end DocMarkup.Parser
