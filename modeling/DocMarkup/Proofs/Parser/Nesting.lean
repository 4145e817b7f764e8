import DocMarkup.Proofs.Parser.Conformance
import DocMarkup.Proofs.Parser.StyleTurns

/-!
In every paragraph of a document the changes of style nest.  While a paragraph is open, the styles
entered in it are those that stand open behind the changes of style among its nodes; when it ends,
they are ended too, the last one first.
-/

namespace DocMarkup.Parser

/-! ### Open paragraphs -/

/-- The styles entered in a paragraph stand open behind its changes of style, so far as they
count. -/
def OpenParagraph.Agrees (counts : Style → Bool) (p : OpenParagraph) : Prop :=
  StandsOpenOf counts p.marks (p.styles.map (·.style))

/-- A link whose target was not found. -/
def Construct.isUnresolvedLink : Construct → Bool
  | .link _ resolved _ => !resolved
  | _ => false

/-- No style that counts changes in a link whose target was not found. -/
def Frame.SpillsNone (counts : Style → Bool) (f : Frame) : Prop :=
  f.construct.isUnresolvedLink → counts .italic = false ∧
    ∀ mark ∈ f.children.filterMap Node.styleMark?, counts mark.1 = false

/-- Styles that begin all stand open. -/
theorem standsOpenOf_begun (counts : Style → Bool) (styles : List OpenStyle) :
    StandsOpenOf counts (styles.map fun entered => (entered.style, true))
      (styles.map (·.style)) := by
  induction styles with
  | nil => exact .nil
  | cons entered styles ih => exact .begins entered.style ih

namespace Machine

variable {m m' : Machine} {move : StyleMove} {ends : Outcome → Prop} {counts : Style → Bool}

theorem StyleStep.agrees (h : StyleStep m m' move) (hlinks : ∀ f ∈ m.stack, f.SpillsNone counts)
    (hm : ∀ p ∈ m.spans.paragraphs, p.Agrees counts) :
    ∀ p ∈ m'.settled.spans.paragraphs, p.Agrees counts := by
  cases h with
  | quiet h => rwa [h]
  | brackets style hwithin h =>
      rw [hwithin.paragraphs] at hm
      rw [h]
      obtain ⟨hp, hrest⟩ := List.forall_mem_cons.1 hm
      exact List.forall_mem_cons.2 ⟨(hp.begins style).ends style, hrest⟩
  | enters entered hwithin h =>
      rw [hwithin.paragraphs] at hm
      rw [h]
      obtain ⟨hp, hrest⟩ := List.forall_mem_cons.1 hm
      exact List.forall_mem_cons.2 ⟨hp.begins entered.style, hrest⟩
  | leaves entered styles hwithin hstyles h =>
      rw [hwithin.paragraphs] at hm
      rw [h]
      obtain ⟨hp, hrest⟩ := List.forall_mem_cons.1 hm
      rw [OpenParagraph.Agrees, hstyles] at hp
      exact List.forall_mem_cons.2 ⟨hp.ends entered.style, hrest⟩
  | opens h =>
      rw [h]
      refine List.forall_mem_cons.2 ⟨?_, hm⟩
      rw [OpenParagraph.Agrees, ← List.map_reverse]
      exact standsOpenOf_begun counts m.reopening.reverse
  | closes outcome hkind h₁ h =>
      obtain ⟨p, rest, hwithin⟩ := exists_within hkind
      rw [h, settled_closeParagraph, (spans_closeParagraph (hwithin.reads h₁) outcome).1]
      rw [hwithin.paragraphs] at hm
      exact (List.forall_mem_cons.1 hm).2
  | @spills f outer link opener p rest spilled hstack hlink hparagraphs hspilled h =>
      obtain ⟨hitalic, hnone⟩ := hlinks f (by rw [hstack]; exact List.mem_cons_self) (by rw [hlink]; rfl)
      rw [hparagraphs] at hm
      rw [h]
      obtain ⟨hp, hrest⟩ := List.forall_mem_cons.1 hm
      refine List.forall_mem_cons.2 ⟨StandsOpenOf.skips (fun mark hmark => ?_) hp, hrest⟩
      rcases hspilled mark hmark with heq | hmark
      · rw [heq, hitalic]
      · exact hnone mark hmark

/-! ### Nodes that have been read -/

/-- In paragraphs changes of style nest, so far as styles count. -/
def NestsIn (counts : Style → Bool) (kind : Kind) (marks : List StyleMark) : Prop :=
  kind = .paragraph → Nested (marks.filter fun mark => counts mark.1)

theorem nestsIn_nil (kind : Kind) (_ : kind ≠ .internal) : NestsIn counts kind [] := fun _ => .nil

/-- Wherever a paragraph has been read, its changes of style nest. -/
def Nests (counts : Style → Bool) (stack : List Frame) : Prop :=
  ∀ f ∈ stack, f.Holds (NestsIn counts)

/-- How many paragraphs are open. -/
def paragraphs (stack : List Frame) : Nat := stack.countP (·.construct.kind == .paragraph)

theorem length_paragraphs (m : Machine) : m.spans.paragraphs.length = paragraphs m.stack := by
  rw [spans, List.length_filterMap_eq_countP, paragraphs]
  congr 1
  funext f
  unfold Frame.paragraph?
  cases f.construct <;> rfl

end Machine

variable {counts : Style → Bool}

theorem FillsTop.nests {stack stack' : List Frame} (h : FillsTop stack stack')
    (hs : Machine.Nests counts stack) :
    Machine.Nests counts stack' ∧ Machine.paragraphs stack' = Machine.paragraphs stack := by
  cases h with
  | nil => exact ⟨hs, rfl⟩
  | cons f g outer h =>
      obtain ⟨hf, houter⟩ := List.forall_mem_cons.1 hs
      refine ⟨List.forall_mem_cons.2 ⟨h.holds Machine.nestsIn_nil hf, houter⟩, ?_⟩
      rw [Machine.paragraphs, Machine.paragraphs, List.countP_cons, List.countP_cons, h.keeps.1]

theorem BeginsTop.nests {stack stack' : List Frame} (h : BeginsTop stack stack')
    (hs : Machine.Nests counts stack) : Machine.Nests counts stack' := by
  cases h with
  | intro parent parent' outer c children id h =>
      obtain ⟨hf, houter⟩ := List.forall_mem_cons.1 hs
      obtain ⟨hparent, hchild⟩ := h.holds Machine.nestsIn_nil hf id (some parent.id)
      exact List.forall_mem_cons.2 ⟨hchild, List.forall_mem_cons.2 ⟨hparent, houter⟩⟩

/-- A construct ends.  Unless fewer paragraphs are open then, it was no paragraph. -/
theorem LeavesTop.nests {stack stack' : List Frame} (h : LeavesTop stack stack')
    (hsound : SoundStack stack) (hs : Machine.Nests counts stack)
    (hcount : Machine.paragraphs stack ≤ Machine.paragraphs stack') :
    Machine.Nests counts stack' := by
  cases h with
  | intro inner outer outer' rest h =>
      have hkind : inner.construct.kind ≠ .paragraph := by
        intro hkind
        simp only [Machine.paragraphs, List.countP_cons, hkind, h.keeps.1, beq_self_eq_true,
          if_true] at hcount
        omega
      obtain ⟨hinner, hs⟩ := List.forall_mem_cons.1 hs
      obtain ⟨houter, hrest⟩ := List.forall_mem_cons.1 hs
      cases hsound with
      | cons _ _ hsound =>
          have hnode := hinner.toNode hsound.rows fun hparagraph => absurd hparagraph hkind
          exact List.forall_mem_cons.2
            ⟨h.holds Machine.nestsIn_nil houter hinner hnode, hrest⟩

namespace Machine

variable {m m' : Machine} {move : StyleMove} {ends : Outcome → Prop}

theorem Goes.nests (h : Goes m ends m') (hsound : SoundStack m.stack) (hm : Nests counts m.stack)
    (hcount : paragraphs m.stack ≤ paragraphs m'.stack) : Nests counts m'.stack := by
  cases h with
  | reads h => exact (h.stack.nests hm).1
  | scans token h => exact (h.stack.nests hm).1
  | opens h₁ h₂ h => exact (h.stack.nests (h₂.stack.nests (h₁.stack.nests hm).1)).1
  | opensTwo h₁ h₂ h₃ h₄ h =>
      have hinner := (h₃.stack.nests (h₂.stack.nests (h₁.stack.nests hm).1)).1
      exact (h.stack.nests (h₄.stack.nests hinner)).1
  | leaves outcome h₁ h =>
      obtain ⟨hm₁, hsame⟩ := h₁.stack.nests hm
      exact h.stack.nests (h₁.stack.sound hsound) hm₁ (hsame ▸ hcount)

/-- A turn that ends no paragraph keeps what nests. -/
theorem Turn.nests (h : Turn m m') (hsound : SoundStack m.stack) (hm : Nests counts m.stack)
    (hcount : paragraphs m.stack ≤ paragraphs m'.stack) : Nests counts m'.stack := by
  cases h with
  | scans token hphase h => exact (h.stack.nests hm).1
  | reads hphase h => exact (h.stack.nests hm).1
  | takes token hphase htoken h => exact h.nests hsound hm hcount
  | opensFor token hphase h₁ h₂ h => exact (h.stack.nests (h₂.stack.nests (h₁.stack.nests hm).1)).1
  | resumes outcome hphase houtcome h => exact h.nests hsound hm hcount
  | retakes token hphase h => exact (h.stack.nests hm).1
  | closes hphase h₁ h =>
      obtain ⟨hm₁, hsame⟩ := h₁.stack.nests hm
      exact h.stack.nests (h₁.stack.sound hsound) hm₁ (hsame ▸ hcount)
  | finishes hphase hkind => exact hm

/-! ### Paragraphs that end -/

theorem styleMarks_closed (styles : List OpenStyle) (position : Nat) (children : List Node) :
    (styles.foldl (fun children entered =>
      syntheticChange entered.style false position [] :: children) children).filterMap
        Node.styleMark? =
      (styles.map (·.style)).foldl (fun marks style => (style, false) :: marks)
        (children.filterMap Node.styleMark?) := by
  induction styles generalizing children with
  | nil => rfl
  | cons entered styles ih => exact ih (syntheticChange entered.style false position [] :: children)

theorem styleMarks_finishedChildren {children : List Node} {styles : List OpenStyle}
    {insidePre : Bool} {position : Nat}
    (h : (finishedChildren children styles insidePre position).isEmpty = false) :
    (finishedChildren children styles insidePre position).filterMap Node.styleMark? =
      (styles.map (·.style)).foldl (fun marks style => (style, false) :: marks)
        (children.filterMap Node.styleMark?) := by
  have htrim : (if insidePre then children else dropTrailingSpace children).filterMap
      Node.styleMark? = children.filterMap Node.styleMark? := by
    split
    · rfl
    · exact styleMarks_dropTrailingSpace children
  unfold finishedChildren at h ⊢
  dsimp only at h ⊢
  generalize (if insidePre then children else dropTrailingSpace children) = trimmed at h htrim ⊢
  split at h
  · cases h
  · rw [if_neg ‹_›, styleMarks_dropTrailingSpace, styleMarks_closed, htrim]

theorem Nests.append (hm : Nests counts m.stack) {n : Node}
    (hn : n.Everywhere (Node.Told (NestsIn counts))) : Nests counts (m.append n).stack := by
  unfold Machine.append modifyTop
  split
  · exact hm
  · next f outer hstack =>
    rw [hstack] at hm
    obtain ⟨hf, houter⟩ := List.forall_mem_cons.1 hm
    obtain ⟨hparts, hchildren⟩ := List.forall_mem_append.1 hf
    refine List.forall_mem_cons.2 ⟨?_, houter⟩
    exact List.forall_mem_append.2 ⟨hparts, List.forall_mem_cons.2 ⟨hn, hchildren⟩⟩

theorem Nests.attach (hm : Nests counts m.stack) {frame : Frame}
    (hnode : frame.toNode.Everywhere (Node.Told (NestsIn counts))) :
    Nests counts (m.attach frame).stack := by
  unfold Machine.attach
  split
  · exact hm.append hnode
  · exact hm

/-- A paragraph whose styles agree with its changes of style leaves a node in which they nest. -/
theorem closeParagraph_nests {p : OpenParagraph} {rest : List OpenParagraph} (hm : m.Within p rest)
    (hp : p.Agrees counts) (hnests : Nests counts m.stack) (outcome : Outcome) :
    Nests counts (m.closeParagraph outcome).stack := by
  obtain ⟨f, outer, hstack, hf, -⟩ := within_iff.1 hm
  rw [hstack] at hnests
  obtain ⟨hholds, houter⟩ := List.forall_mem_cons.1 hnests
  obtain ⟨attributes, styles, hconstruct⟩ : ∃ attributes styles,
      f.construct = .paragraph attributes styles := by
    unfold Frame.paragraph? at hf
    split at hf
    · exact ⟨_, _, ‹_›⟩
    · cases hf
  rw [Frame.paragraph?_eq hconstruct, Option.some.injEq] at hf
  subst hf
  have hkind : f.construct.kind = .paragraph := congrArg Construct.kind hconstruct
  have hstyles : f.construct.styles = styles := by rw [hconstruct]; rfl
  unfold closeParagraph
  rw [hstack]
  dsimp only
  rw [hstyles]
  generalize (if styles.any (·.style == .preformatted) then m.setInsidePre false else m) = m₀
  split
  · exact houter
  · next hne =>
    have hne' := Bool.eq_false_iff.2 hne
    have hfilled := (Frame.fills_finishedChildren hkind hstyles _ _ hne').holds nestsIn_nil hholds
    refine Nests.attach (m := { m₀ with stack := outer, reopening := _ }) houter
      (hfilled.toNode (fun htable => ?_) fun _ => ?_)
    · exact absurd (hkind.symm.trans htable) nofun
    · rw [List.filterMap_reverse, styleMarks_finishedChildren hne']
      exact hp.closed.nested

/-! ### Steps -/

/-- Whatever is still to come, the changes of style nest so far. -/
structure StylesNest (counts : Style → Bool) (m : Machine) : Prop where
  agrees : ∀ p ∈ m.settled.spans.paragraphs, p.Agrees counts
  nests : Nests counts m.stack

theorem paragraphs_settled (m : Machine) : paragraphs m.settled.stack = paragraphs m.stack := by
  have hcount : ∀ stack : List Frame, paragraphs stack =
      (stack.map fun f => (f.construct, f.id)).countP (·.1.kind == .paragraph) :=
    fun stack => by rw [List.countP_map]; rfl
  rw [hcount, hcount, frames_settled]

theorem Nests.settled (h : Nests counts m.stack) : Nests counts m.settled.stack := by
  unfold Machine.settled
  split
  · exact h.append (told_leaf nestsIn_nil nofun)
  · exact h

/-- A step ends the paragraph that is the innermost construct, or no paragraph. -/
theorem StyleStep.closes_or_le (h : StyleStep m m' move) :
    (∃ m₁ outcome, m.innermost = .paragraph ∧ ReadsOn m m₁ ∧ m' = m₁.closeParagraph outcome) ∨
      paragraphs m.stack ≤ paragraphs m'.stack := by
  rw [← paragraphs_settled m', ← length_paragraphs, ← length_paragraphs]
  cases h with
  | closes outcome hkind h₁ h => exact .inl ⟨_, outcome, hkind, h₁, h⟩
  | quiet h => exact .inr (by rw [h])
  | brackets style hwithin h => exact .inr (by simp [h, hwithin.paragraphs])
  | enters entered hwithin h => exact .inr (by simp [h, hwithin.paragraphs])
  | leaves entered styles hwithin hstyles h => exact .inr (by simp [h, hwithin.paragraphs])
  | opens h => exact .inr (by simp [h])
  | spills spilled hstack hlink hparagraphs hspilled h =>
      exact .inr (by simp [h, hparagraphs])

/-- Steps keep changes of style nested, as long as no style that counts is spilled. -/
theorem StylesNest.step (h : m.StylesNest counts) (hm : m.Ready) (hconforms : m.Conforms)
    (hlinks : ∀ f ∈ m.settled.stack, f.SpillsNone counts) : m.step.StylesNest counts := by
  have hstep := step_styles hm
  refine ⟨hstep.agrees hlinks h.agrees, ?_⟩
  · by_cases hphase : m.phase = .finished
    · rw [Machine.step, hphase]
      exact h.nests
    · obtain ⟨m₁, outcome, hkind, h₁, hclose⟩ | hcount := hstep.closes_or_le
      · obtain ⟨p, rest, hwithin⟩ := exists_within hkind
        have hp : p.Agrees counts := h.agrees p (by rw [hwithin.paragraphs]; exact List.mem_cons_self)
        rw [hclose]
        refine closeParagraph_nests (hwithin.reads h₁) hp ?_ outcome
        rw [h₁.stack]
        exact h.nests.settled
      · rw [paragraphs_settled] at hcount
        exact (step_turn hm hphase).nests hconforms.sound h.nests hcount

end Machine

/-! ### Comments -/

/-- Every link that a comment begins has its target found. -/
def LinksResolve (p : Parser) (comment : Comment) : Prop :=
  ∀ n, ∀ f ∈ (p.after comment n).stack, f.construct.isUnresolvedLink = false

/-- Links need only be looked for until the comment has been read. -/
theorem linksResolve_of_finished {p : Parser} {comment : Comment} {k : Nat}
    (hfinished : (p.after comment k).phase = .finished)
    (h : ∀ n ≤ k, ∀ f ∈ (p.after comment n).stack, f.construct.isUnresolvedLink = false) :
    LinksResolve p comment := by
  intro n
  rcases Nat.le_total n k with hn | hn
  · exact h n hn
  · rw [after_of_finished hfinished hn]
    exact h k le_rfl

/-- If no style that counts is ever spilled, changes of style nest at all times. -/
theorem after_stylesNest {p : Parser} {comment : Comment} {counts : Style → Bool}
    (h : ∀ n, ∀ f ∈ (p.after comment n).settled.stack, f.SpillsNone counts) (n : Nat) :
    (p.after comment n).StylesNest counts := by
  induction n with
  | zero =>
      refine ⟨nofun, List.forall_mem_singleton.2 ?_⟩
      exact Frame.holds_fresh Machine.nestsIn_nil (c := .root _) trivial 0 none
  | succ n ih =>
      rw [after_succ]
      exact ih.step (after_ready p comment n) (after_conforms p comment n) (h n)

/-- They nest in every paragraph of the document then. -/
theorem nests_of_stylesNest {p : Parser} {comment : Comment} {counts : Style → Bool}
    (hfinal : (p.final comment).StylesNest counts) :
    (p.parse comment).1.root.Everywhere (Node.Told (Machine.NestsIn counts)) := by
  obtain ⟨f, hstack, hkind⟩ :=
    (final_ready p comment).stack_of_finished (final_finished p comment)
  have hnests := hfinal.nests
  rw [hstack] at hnests
  rw [parse_root, hstack]
  refine (hnests f (List.mem_singleton_self f)).toNode (fun htable => ?_) fun hparagraph => ?_
  · exact absurd (hkind.symm.trans htable) nofun
  · exact absurd (hkind.symm.trans hparagraph) nofun

/-- Where all links lead somewhere nothing is spilled. -/
theorem LinksResolve.spillsNone {p : Parser} {comment : Comment} (h : LinksResolve p comment)
    (counts : Style → Bool) (n : Nat) :
    ∀ f ∈ (p.after comment n).settled.stack, f.SpillsNone counts := by
  intro f hf hlink
  have hframe := List.mem_map_of_mem (f := fun f : Frame => (f.construct, f.id)) hf
  rw [Machine.frames_settled] at hframe
  obtain ⟨g, hg, hsame⟩ := List.mem_map.1 hframe
  have hconstruct : g.construct = f.construct := congrArg Prod.fst hsame
  have hresolved := h n g hg
  rw [hconstruct, hlink] at hresolved
  cases hresolved

/-- In every paragraph of a document the changes of style nest, if all links lead somewhere. -/
theorem parse_styles_nest (p : Parser) (comment : Comment) (h : LinksResolve p comment) :
    ∀ n, (p.parse comment).1.root.Reaches n → n.kind = .paragraph → Nested n.styleMarks := by
  intro n hn hkind
  have hfinal : (p.final comment).StylesNest fun _ => true :=
    after_stylesNest (h.spillsNone _) _
  have hnested := nests_of_stylesNest hfinal n hn hkind
  rwa [List.filter_eq_self.2 fun _ _ => rfl] at hnested

/-- A parser to which the target of every link is known. -/
def knowingTargets : Parser where
  options := { surroundings := { resolve? := some fun _ => some { file := [], anchor := [] } } }

/-- A style across a blank line, a link and a style that is never left. -/
def styledComment : Comment where
  text := units "<b>a\n\nb</b> \\link T x\\endlink <i>c"

theorem parse_styles_nest_across_blank_line :
    LinksResolve knowingTargets styledComment ∧
      (knowingTargets.parse styledComment).1.root.children.map Node.styleMarks =
        [[(.bold, true), (.bold, false)],
          [(.bold, true), (.bold, false), (.italic, true), (.italic, false)]] ∧
      ∀ n, (knowingTargets.parse styledComment).1.root.Reaches n → n.kind = .paragraph →
        Nested n.styleMarks := by
  have hlinks : LinksResolve knowingTargets styledComment := by
    refine linksResolve_of_finished (k := 33) ?_ ?_ <;> decide +kernel
  exact ⟨hlinks, by decide +kernel, parse_styles_nest knowingTargets styledComment hlinks⟩

end DocMarkup.Parser
