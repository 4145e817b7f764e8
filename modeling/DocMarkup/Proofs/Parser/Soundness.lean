import DocMarkup.Proofs.Doc.Grid
import DocMarkup.Proofs.Parser.Run

/-!
Every comment is read into a tree that keeps to the grammar.  The nodes of every open construct do
already, whatever is still to come; when a construct ends, its node is as good as they are.
-/

namespace DocMarkup

/-- Kinds of nodes of which the grammar asks no more than what they list. -/
def Kind.isSimple : Kind → Bool
  | includeStep | internal | table | autoList | simpleList | paramSection => false
  | _ => true

namespace Parser

/-! ### Nodes made whole -/

/-- A node that keeps to the grammar and belongs to no run of include steps. -/
structure IsPart (n : Node) : Prop where
  proper : n.Everywhere Node.Proper
  kind : n.kind ≠ .includeStep

/-- Parts stay parts when they are put together under a node that may list them. -/
theorem isPart_node {n : Node} {given : List Node} (hsimple : n.kind.isSimple)
    (hgiven : ∀ child ∈ given, n.kind.lists child.kind ∧ IsPart child)
    (hchildren : List.Forall₂ Node.Keeps given n.children)
    (hheads : ∀ head ∈ n.heads, n.kind.heads head.kind ∧ IsPart head) (htypes : n.types = [])
    (hsymbol : ∀ name, n.content = .symbol name → Symbol.isKnown name) : IsPart n := by
  have hheld : Node.Held n.kind given.reverse := by
    refine ⟨fun child hchild => ?_, ?_⟩
    · obtain ⟨hkind, hpart⟩ := hgiven child (List.mem_reverse.1 hchild)
      exact ⟨hkind, hpart.proper⟩
    · have hruns : runOpen? (given.reverse ++ []) = some false := Node.runOpen?_append
        (fun child hchild => (hgiven child (List.mem_reverse.1 hchild)).2.kind) rfl
      rwa [List.append_nil] at hruns
  have hheaded : Node.Headed n.kind n.types n.heads :=
    ⟨by simp [htypes], fun head hhead => ⟨(hheads head hhead).1, (hheads head hhead).2.proper⟩⟩
  refine ⟨hheld.proper hheaded (by rwa [List.reverse_reverse]) ?_ ?_ hsymbol ?_, ?_⟩
  · intro hfilled
    cases hkind : n.kind <;> simp [hkind, Kind.isSimple, Kind.isFilled] at hsimple hfilled
  · intro hkind
    simp [hkind, Kind.isSimple] at hsimple
  · intro hkind
    simp [hkind, Kind.isSimple] at hsimple
  · intro hkind
    simp [hkind, Kind.isSimple] at hsimple

theorem isPart_leaf {content : Content} {flags : NodeFlags} (h : isWhole content) :
    IsPart (.node content flags [] [] []) := by
  have hnone : List.Forall₂ Node.Keeps [] (Node.node content flags [] [] []).children := .nil
  refine isPart_node ?_ (fun child hchild => by cases hchild) hnone nofun rfl ?_
  · cases content <;> first
      | (cases h; done)
      | rfl
  · rintro name rfl
    exact h

theorem isPart_styleChange (change : StyleChange) (flags : NodeFlags) :
    IsPart (.node (.styleChange change) flags [] [] []) := by
  have hnone : List.Forall₂ Node.Keeps []
      (Node.node (.styleChange change) flags [] [] []).children := .nil
  exact isPart_node rfl (fun child hchild => by cases hchild) hnone nofun rfl nofun

theorem isPart_branch {content : Content} {children : List Node} (hsimple : content.kind.isSimple)
    (hsymbol : content.kind ≠ .symbol)
    (hchildren : ∀ child ∈ children, content.kind.lists child.kind ∧ IsPart child) :
    IsPart (.branch content children) := by
  have hsame : List.Forall₂ Node.Keeps children (Node.branch content children).children :=
    List.forall₂_same.2 fun child _ => .refl child
  refine isPart_node hsimple hchildren hsame nofun rfl ?_
  · exact fun name hname => absurd (congrArg Content.kind hname) hsymbol

theorem proper_step (step : IncludeStep) :
    (Node.leaf (.includeStep step)).Everywhere Node.Proper := by
  have hheld : Node.Held (Node.leaf (.includeStep step)).kind [] := ⟨nofun, rfl⟩
  refine hheld.proper ⟨nofun, nofun⟩ .nil nofun nofun ?_ nofun
  exact fun name hname => by cases hname

theorem IsPlainText.isPart {nodes : List Node} (h : IsPlainText nodes) {kind : Kind}
    (hkind : ∀ below : Kind, below.isPlain → kind.lists below) :
    ∀ n ∈ nodes, kind.lists n.kind ∧ IsPart n := by
  intro n hn
  obtain ⟨content, rfl, hplain, hwhole⟩ := h n hn
  exact ⟨hkind _ hplain, isPart_leaf hwhole⟩

theorem lists_plain_paragraph (below : Kind) (h : below.isPlain) : Kind.paragraph.lists below := by
  cases below <;> first
    | (cases h; done)
    | rfl

theorem Made.isPart {n : Node} (h : Made n) : IsPart n := by
  cases h with
  | leaf content flags h => exact isPart_leaf h
  | titled content text h htext =>
      cases content <;> first
        | (cases h; done)
        | exact isPart_branch rfl nofun (htext.isPart fun _ hplain => hplain)
  | keyword title body htitle hbody =>
      refine isPart_node (n := .node (.simpleSection .keyword) {} [] [.branch .title title] _) rfl
        ?_ (forall₂_markParagraphs _) ?_ rfl nofun
      · split
        · exact nofun
        · exact List.forall_mem_singleton.2
            ⟨rfl, isPart_branch rfl nofun (hbody.isPart lists_plain_paragraph)⟩
      · exact List.forall_mem_singleton.2
          ⟨rfl, isPart_branch rfl nofun (htitle.isPart fun _ hplain => hplain)⟩

/-! ### What can be told of nodes made whole -/

section Told

variable {P : Kind → List StyleMark → Prop} (hP : ∀ kind, kind ≠ .internal → P kind [])
include hP

theorem told_leaf {content : Content} {flags : NodeFlags} (hcontent : content.kind ≠ .internal) :
    (Node.node content flags [] [] []).Everywhere (Node.Told P) :=
  Node.everywhere_iff.2 ⟨hP _ hcontent, nofun⟩

theorem told_branch {content : Content} {text : List Node} (hcontent : content.kind ≠ .internal)
    (htext : IsPlainText text) : (Node.branch content text).Everywhere (Node.Told P) := by
  have hmarks : (Node.branch content text).styleMarks = [] := by
    refine List.filterMap_eq_nil_iff.2 fun n hn => Node.styleMark?_eq_none fun hstyle => ?_
    obtain ⟨content, rfl, hplain, -⟩ := htext n hn
    have hkind : content.kind = .styleChange := hstyle
    rw [hkind] at hplain
    cases hplain
  refine Node.everywhere_iff.2 ⟨?_, fun part hpart => ?_⟩
  · rw [Node.Told, hmarks]
    exact hP _ hcontent
  · obtain ⟨content, rfl, hplain, -⟩ := htext part hpart
    refine told_leaf hP fun hinternal => ?_
    rw [hinternal] at hplain
    cases hplain

theorem Made.told {n : Node} (h : Made n) : n.Everywhere (Node.Told P) := by
  cases h with
  | leaf content flags h =>
      refine told_leaf hP fun hinternal => ?_
      cases content <;> first
        | (cases hinternal; done)
        | cases h
  | titled content text h htext =>
      refine told_branch hP (fun hinternal => ?_) htext
      rw [hinternal] at h
      cases h
  | keyword title body htitle hbody =>
      have hmarks := forall₂_markParagraphs
        (if body.isEmpty then [] else [.branch (.paragraph {}) body])
      refine Node.everywhere_iff.2 ⟨?_, fun part hpart => ?_⟩
      · rw [Node.Told, Node.styleMarks]
        dsimp only [Node.children]
        rw [Node.Alike.styleMarks_eq (hmarks.imp fun _ _ => Node.Keeps.toAlike)]
        split
        · exact hP _ (by rintro ⟨⟩)
        · exact hP _ (by rintro ⟨⟩)
      · rcases List.mem_cons.1 hpart with rfl | hpart
        · exact told_branch hP (by rintro ⟨⟩) htitle
        · obtain ⟨before, hbefore, hkeeps⟩ := Node.exists_of_mem_right hmarks hpart
          refine hkeeps.told P ?_
          split at hbefore
          · cases hbefore
          · rw [List.mem_singleton.1 hbefore]
            exact told_branch hP (by rintro ⟨⟩) hbody

end Told

/-! ### Frames -/

namespace Construct

/-- The types of the parameters that a construct describes. -/
def types : Construct → List Node
  | paramList _ types _ => types
  | _ => []

theorem kind_ne (c : Construct) : c.kind ≠ .includeStep ∧ c.kind ≠ .symbol := by
  cases c <;> exact ⟨nofun, nofun⟩

theorem GoesOn.parts {c c' : Construct} (h : c.GoesOn c') :
    c'.types = c.types ∧ c'.heads = c.heads := by
  cases h <;> exact ⟨rfl, rfl⟩

end Construct

namespace Frame

/-- What has been read into a construct keeps to the grammar. -/
structure Sound (f : Frame) : Prop where
  held : Node.Held f.construct.kind f.children
  headed : Node.Headed f.construct.kind f.construct.types f.construct.heads

/-- It can be told everywhere in what has been read into a construct. -/
def Holds (P : Kind → List StyleMark → Prop) (f : Frame) : Prop :=
  ∀ n ∈ f.construct.types ++ f.construct.heads ++ f.children, n.Everywhere (Node.Told P)

/-- Nothing that has been read into a construct has an internal block in it. -/
def InternalFree (f : Frame) : Prop :=
  ∀ n ∈ f.construct.types ++ f.construct.heads ++ f.children, n.InternalFree

theorem types_toNode (f : Frame) : f.toNode.types = f.construct.types := by
  obtain ⟨construct, children, id, madeFor⟩ := f
  cases construct <;> rfl

theorem heads_toNode (f : Frame) : f.toNode.heads = f.construct.heads := by
  obtain ⟨construct, children, id, madeFor⟩ := f
  cases construct <;> rfl

theorem forall₂_toNode (f : Frame)
    (hrows : f.construct.kind = .table → ∀ row ∈ f.children, row.kind = .row) :
    List.Forall₂ Node.Keeps f.children.reverse f.toNode.children := by
  have hrefl := List.forall₂_same.2 fun (n : Node) (_ : n ∈ f.children.reverse) => Node.Keeps.refl n
  obtain ⟨construct, children, id, madeFor⟩ := f
  cases construct with
  | table attributes caption opener =>
      refine (Node.placeCells_spec (n := .node (.table { attributes }) {} [] caption.toList
        children.reverse) rfl fun row hrow => ?_).1
      exact hrows rfl row (List.mem_reverse.1 hrow)
  | row => exact forall₂_markCells _
  | paramSection => exact forall₂_markParamLists _
  | paragraph | autoList | simpleList | refList | list | descList | descTitle | caption | header
  | hyperlink | link => exact hrefl
  | root | sect | simpleSection | paramList | xrefItem | autoListItem | simpleListItem | internal
  | parBlock | listItem | descData | cell | blockQuote => exact forall₂_markParagraphs _

theorem Sound.rows {f : Frame} (h : f.Sound) (hkind : f.construct.kind = .table) :
    ∀ row ∈ f.children, row.kind = .row := by
  intro row hrow
  have hlists := (h.held.children row hrow).1
  rw [hkind] at hlists
  simpa [Kind.lists] using hlists

/-- The node of a construct that ends is proper. -/
theorem Sound.toNode {f : Frame} (h : f.Sound)
    (hfilled : f.construct.kind.isFilled → f.children ≠ [])
    (hinternal : f.construct.kind = .internal → f.InternalFree) :
    f.toNode.Everywhere Node.Proper := by
  have hkind := f.kind_toNode
  have hheaded := h.headed
  rw [← f.types_toNode, ← f.heads_toNode, ← hkind] at hheaded
  rw [← hkind] at hfilled hinternal
  refine Node.Held.proper (hkind ▸ h.held) hheaded (f.forall₂_toNode h.rows) hfilled ?_ ?_ ?_
  · exact fun hinner child hchild => hinternal hinner child (List.mem_append_right _ hchild)
  · intro name hname
    exact absurd (hkind.symm.trans (congrArg Content.kind hname)) f.construct.kind_ne.2
  · intro htable
    have hrows := h.rows (hkind ▸ htable)
    obtain ⟨construct, children, id, madeFor⟩ := f
    cases construct with
    | table attributes caption opener =>
        refine (Node.placeCells_spec (n := .node (.table { attributes }) {} [] caption.toList
          children.reverse) rfl fun row hrow => ?_).2
        exact hrows row (List.mem_reverse.1 hrow)
    | _ => cases htable

/-- What can be told everywhere in a construct can be told everywhere in its node, if it can be
told of the node itself. -/
theorem Holds.toNode {P : Kind → List StyleMark → Prop} {f : Frame} (h : f.Holds P)
    (hrows : f.construct.kind = .table → ∀ row ∈ f.children, row.kind = .row)
    (hnode : P f.construct.kind (f.children.reverse.filterMap Node.styleMark?)) :
    f.toNode.Everywhere (Node.Told P) := by
  have hkeeps := f.forall₂_toNode hrows
  have hmarks : f.toNode.styleMarks = f.children.reverse.filterMap Node.styleMark? :=
    Node.Alike.styleMarks_eq (hkeeps.imp fun _ _ => Node.Keeps.toAlike)
  refine Node.everywhere_iff.2 ⟨?_, fun part hpart => ?_⟩
  · rwa [Node.Told, f.kind_toNode, hmarks]
  · rw [Node.parts, f.types_toNode, f.heads_toNode] at hpart
    rcases List.mem_append.1 hpart with hpart | hchild
    · exact h part (List.mem_append_left _ hpart)
    · obtain ⟨before, hbefore, hkeep⟩ := Node.exists_of_mem_right hkeeps hchild
      refine hkeep.told P (h before (List.mem_append_right _ ?_))
      exact List.mem_reverse.1 hbefore

theorem Sound.internalFree_toNode {f : Frame} (h : f.Sound) (hfree : f.InternalFree)
    (hkind : f.construct.kind ≠ .internal) : f.toNode.InternalFree :=
  Holds.toNode (P := fun kind _ => kind ≠ .internal) hfree h.rows hkind

end Frame

/-! ### Runs of include steps -/

namespace Machine

theorem includeStep?_eq_some {n : Node} {step : IncludeStep} (h : includeStep? n = some step) :
    n.content = .includeStep step := by
  unfold includeStep? at h
  split at h
  · next step' hcontent =>
    cases h
    exact hcontent
  · cases h

theorem alike_step {n : Node} {step step' : IncludeStep} (h : includeStep? n = some step) :
    Node.Alike n (n.withContent (.includeStep step')) := by
  have hkind : n.kind = .includeStep := congrArg Content.kind (includeStep?_eq_some h)
  exact .withContent hkind.symm (by simp [hkind]) (by simp [hkind]) (by simp [hkind]) (by simp [hkind])

theorem forall₂_continueRun (children : List Node) :
    List.Forall₂ Node.Alike children (continueRun children) := by
  have hrefl := fun nodes : List Node =>
    List.forall₂_same.2 fun n (_ : n ∈ nodes) => Node.Alike.refl n
  unfold continueRun
  split
  · exact .nil
  · next n rest =>
    split
    · next step hstep => exact .cons (alike_step hstep) (hrefl rest)
    · split
      · split
        · exact hrefl _
        · next before rest =>
          split
          · next step hstep => exact .cons (.refl n) (.cons (alike_step hstep) (hrefl rest))
          · exact hrefl _
      · exact hrefl _

theorem mem_continueRun {n : Node} {children : List Node} (h : n ∈ continueRun children) :
    n ∈ children ∨ n.kind = .includeStep := by
  unfold continueRun at h
  split at h
  · cases h
  · split at h
    · rcases List.mem_cons.1 h with rfl | h
      · exact .inr rfl
      · exact .inl (List.mem_cons_of_mem _ h)
    · split at h
      · split at h
        · exact .inl h
        · split at h
          · rcases List.mem_cons.1 h with rfl | h
            · exact .inl List.mem_cons_self
            · rcases List.mem_cons.1 h with rfl | h
              · exact .inr rfl
              · exact .inl (List.mem_cons_of_mem _ (List.mem_cons_of_mem _ h))
          · exact .inl h
      · exact .inl h

/-- A step at the end that is no longer the last leaves its run open. -/
theorem runOpen?_continue {n : Node} {rest : List Node} {step : IncludeStep}
    (hn : includeStep? n = some step) (h : runOpen? (n :: rest) = some false) :
    runOpen? (n.withContent (.includeStep { step with isLast := false }) :: rest) = some true := by
  rw [runOpen?_cons_eq, includeStep?_eq_some hn] at h
  rw [runOpen?_cons_eq]
  obtain ⟨isOpen, hrest, hopen⟩ := Option.bind_eq_some_iff.1 h
  rw [hrest]
  dsimp only [Node.content_withContent] at hopen ⊢
  rw [Option.bind_some]
  split at hopen
  · cases hopen
  · next hfirst =>
    rw [if_neg hfirst]
    rfl

/-- A new step goes on with the run that was opened for it, if one was. -/
theorem runOpen?_continueRun {children : List Node} (h : runOpen? children = some false) :
    ∃ isOpen, runOpen? (continueRun children) = some isOpen ∧
      (isOpen → beginsRun children = false) := by
  unfold continueRun beginsRun
  split
  · exact ⟨false, rfl, by rintro ⟨⟩⟩
  · next n rest =>
    split
    · next step hstep =>
      have hkind : n.kind = .includeStep := congrArg Content.kind (includeStep?_eq_some hstep)
      refine ⟨true, runOpen?_continue hstep h, fun _ => ?_⟩
      simp [Node.isKind, hkind]
    · split
      · next hspace =>
        have hspace : n.kind = .whiteSpace := by simpa [Node.isKind] using hspace
        split
        · exact ⟨false, h, by rintro ⟨⟩⟩
        · next before rest =>
          rw [Node.runOpen?_space hspace] at h
          split
          · next step hstep =>
            have hkind : before.kind = .includeStep :=
              congrArg Content.kind (includeStep?_eq_some hstep)
            refine ⟨true, ?_, fun _ => ?_⟩
            · rw [Node.runOpen?_space hspace]
              exact runOpen?_continue hstep h
            · simp [Node.isKind, hkind]
          · refine ⟨false, ?_, by rintro ⟨⟩⟩
            rwa [Node.runOpen?_space hspace]
      · exact ⟨false, h, by rintro ⟨⟩⟩

theorem runOpen?_step {before : List Node} {isOpen : Bool} (hbefore : runOpen? before = some isOpen)
    {step : IncludeStep} (hfirst : (isOpen && step.isFirst) = false) (hlast : step.isLast) :
    runOpen? (.leaf (.includeStep step) :: before) = some false := by
  rw [runOpen?_cons_eq, hbefore]
  show (if isOpen && step.isFirst then none else some !step.isLast) = some false
  rw [hfirst, hlast]
  rfl

theorem runOpen?_dropTrailingSpace {children : List Node} (h : runOpen? children = some false) :
    runOpen? (dropTrailingSpace children) = some false := by
  unfold dropTrailingSpace
  induction children with
  | nil => exact h
  | cons n rest ih =>
      rw [List.dropWhile_cons]
      split
      · next hspace =>
        rw [Node.runOpen?_space (by simpa [Node.isKind] using hspace)] at h
        exact ih h
      · exact h

end Machine

namespace Frame

variable {P : Kind → List StyleMark → Prop}

/-! ### Changes -/

theorem Changes.sound {f g : Frame} (h : f.Changes g) (hf : f.Sound) : g.Sound := by
  cases h with
  | construct c h =>
      obtain ⟨htypes, hheads⟩ := h.parts
      refine ⟨?_, ?_⟩
      · rw [h.kind]
        exact hf.held
      · rw [h.kind, htypes, hheads]
        exact hf.headed
  | adds n hn hkind =>
      refine ⟨⟨List.forall_mem_cons.2 ⟨⟨hkind, hn.isPart.proper⟩, hf.held.children⟩, ?_⟩, hf.headed⟩
      exact (Node.runOpen?_cons hn.isPart.kind).2 hf.held.runs
  | marks change flags hkind hstyle =>
      have hpart := isPart_styleChange change flags
      refine ⟨⟨List.forall_mem_cons.2 ⟨⟨hkind, hpart.proper⟩, hf.held.children⟩, ?_⟩, hf.headed⟩
      exact (Node.runOpen?_cons hpart.kind).2 hf.held.runs
  | steps step hkind hfirst hlast =>
      refine ⟨⟨List.forall_mem_cons.2 ⟨⟨by rw [hkind]; rfl, ?_⟩, fun n hn => ?_⟩, ?_⟩, hf.headed⟩
      · exact proper_step step
      · obtain ⟨before, hbefore, halike⟩ :=
          Node.exists_of_mem_right (Machine.forall₂_continueRun f.children) hn
        obtain ⟨hlists, hproper⟩ := hf.held.children before hbefore
        exact ⟨halike.kind ▸ hlists, halike.proper hproper⟩
      · obtain ⟨isOpen, hopen, hbegins⟩ := Machine.runOpen?_continueRun hf.held.runs
        refine Machine.runOpen?_step hopen ?_ hlast
        rw [hfirst]
        cases isOpen with
        | false => rfl
        | true => exact hbegins rfl
  | trims =>
      refine ⟨⟨fun n hn => hf.held.children n ?_, ?_⟩, hf.headed⟩
      · exact (List.dropWhile_sublist _).subset hn
      · exact Machine.runOpen?_dropTrailingSpace hf.held.runs

theorem Changes.holds (hP : ∀ kind, kind ≠ .internal → P kind []) {f g : Frame} (h : f.Changes g)
    (hf : f.Holds P) : g.Holds P := by
  unfold Holds at hf ⊢
  obtain ⟨hparts, hchildren⟩ := List.forall_mem_append.1 hf
  refine List.forall_mem_append.2 ?_
  cases h with
  | construct c h =>
      obtain ⟨htypes, hheads⟩ := h.parts
      rw [← htypes, ← hheads] at hparts
      exact ⟨hparts, hchildren⟩
  | adds n hn hkind => exact ⟨hparts, List.forall_mem_cons.2 ⟨hn.told hP, hchildren⟩⟩
  | marks change flags hkind hstyle =>
      exact ⟨hparts, List.forall_mem_cons.2 ⟨told_leaf hP nofun, hchildren⟩⟩
  | steps step hkind hfirst hlast =>
      refine ⟨hparts, List.forall_mem_cons.2 ⟨told_leaf hP nofun, fun n hn => ?_⟩⟩
      obtain ⟨before, hbefore, halike⟩ :=
        Node.exists_of_mem_right (Machine.forall₂_continueRun f.children) hn
      exact halike.told P (hchildren before hbefore)
  | trims => exact ⟨hparts, fun n hn => hchildren n ((List.dropWhile_sublist _).subset hn)⟩

/-- Lists that have begun do not lose their last item. -/
theorem Changes.filled {f g : Frame} (h : f.Changes g) (hf : f.Sound)
    (hkind : f.construct.kind.isFilled) (hchildren : f.children ≠ []) : g.children ≠ [] := by
  cases h with
  | construct => exact hchildren
  | adds => exact List.cons_ne_nil _ _
  | marks => exact List.cons_ne_nil _ _
  | steps => exact List.cons_ne_nil _ _
  | trims =>
      obtain ⟨n, rest, hcons⟩ := List.exists_cons_of_ne_nil hchildren
      have hlists := (hf.held.children n (by rw [hcons]; exact List.mem_cons_self)).1
      have hspace : n.kind ≠ .whiteSpace := by
        intro hspace
        rw [hspace] at hlists
        cases hf : f.construct.kind <;> simp [hf, Kind.isFilled, Kind.lists] at hkind hlists
      show dropTrailingSpace f.children ≠ []
      rw [hcons, dropTrailingSpace, List.dropWhile_cons, if_neg (by simpa [Node.isKind] using hspace)]
      exact List.cons_ne_nil _ _

theorem Fills.sound {f g : Frame} (h : f.Fills g) (hf : f.Sound) : g.Sound := by
  induction h with
  | refl => exact hf
  | tail _ hlast ih => exact hlast.sound ih

theorem Fills.holds (hP : ∀ kind, kind ≠ .internal → P kind []) {f g : Frame} (h : f.Fills g)
    (hf : f.Holds P) : g.Holds P := by
  induction h with
  | refl => exact hf
  | tail _ hlast ih => exact hlast.holds hP ih

theorem Fills.internalFree {f g : Frame} (h : f.Fills g) (hf : f.InternalFree) :
    g.InternalFree :=
  h.holds (P := fun kind _ => kind ≠ .internal) (fun _ hkind => hkind) hf

theorem Fills.filled {f g : Frame} (h : f.Fills g) (hf : f.Sound)
    (hkind : f.construct.kind.isFilled) (hchildren : f.children ≠ []) : g.children ≠ [] := by
  induction h with
  | refl => exact hchildren
  | tail hbefore hlast ih =>
      exact hlast.filled (Fills.sound hbefore hf) (by rwa [(Fills.keeps hbefore).1]) ih

/-! ### Beginning and end -/

theorem isPart_name {content : Content} (h : content.kind.isName) : IsPart (.leaf content) := by
  refine isPart_leaf ?_
  cases content <;> first
    | (cases h; done)
    | rfl

theorem isPart_fresh {c : Construct} (h : c.IsFresh) :
    (∀ type ∈ c.types, c.kind = .paramList ∧ type.kind.isName ∧ IsPart type) ∧
      ∀ head ∈ c.heads, c.kind.heads head.kind ∧ IsPart head := by
  cases c with
  | simpleSection type heads =>
      refine ⟨nofun, fun head hhead => ?_⟩
      obtain ⟨text, rfl, htext⟩ := h.title hhead
      exact ⟨rfl, isPart_branch rfl nofun (htext.isPart fun _ hplain => hplain)⟩
  | paramList list types names =>
      refine ⟨fun type htype => ?_, fun name hname => ?_⟩
      · obtain ⟨content, rfl, hkind⟩ := h type (List.mem_append_left _ htype)
        exact ⟨rfl, hkind, isPart_name hkind⟩
      · obtain ⟨content, rfl, hkind⟩ := h name (List.mem_append_right _ hname)
        exact ⟨hkind, isPart_name hkind⟩
  | table attributes given opener =>
      obtain rfl : given = none := h
      exact ⟨nofun, nofun⟩
  | _ => exact ⟨nofun, nofun⟩

theorem holds_fresh (hP : ∀ kind, kind ≠ .internal → P kind []) {c : Construct} (h : c.IsFresh)
    (id : Nat) (madeFor : Option Nat) : (Frame.mk c [] id madeFor).Holds P := by
  unfold Holds
  rw [List.append_nil]
  cases c with
  | simpleSection type heads =>
      intro head hhead
      obtain ⟨text, rfl, htext⟩ := h.title hhead
      exact told_branch hP nofun htext
  | paramList list types names =>
      intro n hn
      obtain ⟨content, rfl, hkind⟩ := h n hn
      refine told_leaf hP fun hinternal => ?_
      rw [hinternal] at hkind
      cases hkind
  | table attributes given opener =>
      obtain rfl : given = none := h
      exact nofun
  | _ => exact nofun

/-- What a construct in which nothing has been read yet begins with. -/
theorem sound_fresh {c : Construct} (h : c.IsFresh) (id : Nat) (madeFor : Option Nat) :
    (Frame.mk c [] id madeFor).Sound ∧ (Frame.mk c [] id madeFor).InternalFree := by
  obtain ⟨htypes, hheads⟩ := isPart_fresh h
  refine ⟨⟨⟨nofun, rfl⟩, fun type htype => ?_, fun head hhead => ?_⟩,
    holds_fresh (P := fun kind _ => kind ≠ .internal) (fun _ hkind => hkind) h id madeFor⟩
  · obtain ⟨hkind, hname, hpart⟩ := htypes type htype
    exact ⟨hkind, hname, hpart.proper⟩
  · exact ⟨(hheads head hhead).1, (hheads head hhead).2.proper⟩

/-- The construct gives its last child away. -/
theorem Sound.tail {f : Frame} {n : Node} {before : List Node} (h : f.Sound)
    (hchildren : f.children = n :: before) (hn : n.kind ≠ .includeStep) :
    Frame.Sound { f with children := before } := by
  have hheld := h.held
  rw [hchildren] at hheld
  refine ⟨⟨fun child hchild => hheld.children child (List.mem_cons_of_mem _ hchild), ?_⟩, h.headed⟩
  exact (Node.runOpen?_cons hn).1 hheld.runs

theorem Begins.sound {parent parent' : Frame} {c : Construct} {children : List Node}
    (h : parent.Begins parent' c children) (hparent : parent.Sound) (id : Nat)
    (madeFor : Option Nat) : parent'.Sound ∧ (Frame.mk c children id madeFor).Sound := by
  cases h with
  | fresh _ hc hkind => exact ⟨hparent, (sound_fresh hc id madeFor).1⟩
  | sectionAfter n before type hkind hchildren hn =>
      have hsection : n.kind = .simpleSection := congrArg Content.kind hn
      have hproper := (hparent.held.children n (by rw [hchildren]; exact List.mem_cons_self)).2
      have hheld := hproper.held
      have hheaded := hproper.headed
      rw [hsection] at hheld hheaded
      refine ⟨hparent.tail hchildren (by simp [hsection]), ⟨?_, ?_⟩, nofun, hheaded.heads⟩
      · exact List.forall_mem_cons.2 ⟨⟨rfl, (isPart_leaf rfl).proper⟩, hheld.children⟩
      · exact (Node.runOpen?_cons (isPart_leaf rfl).kind).2 hheld.runs
  | parametersAfter n before sect sect' hkind hchildren hn =>
      have hsection : n.kind = .paramSection := congrArg Content.kind hn
      have hproper := (hparent.held.children n (by rw [hchildren]; exact List.mem_cons_self)).2
      have hheld := hproper.held
      rw [hsection] at hheld
      exact ⟨hparent.tail hchildren (by simp [hsection]), hheld, nofun, nofun⟩

theorem Begins.holds (hP : ∀ kind, kind ≠ .internal → P kind []) {parent parent' : Frame}
    {c : Construct} {children : List Node}
    (h : parent.Begins parent' c children) (hparent : parent.Holds P) (id : Nat)
    (madeFor : Option Nat) : parent'.Holds P ∧ (Frame.mk c children id madeFor).Holds P := by
  unfold Holds at hparent ⊢
  obtain ⟨hparts, hbefore⟩ := List.forall_mem_append.1 hparent
  cases h with
  | fresh _ hc hkind => exact ⟨hparent, holds_fresh hP hc id madeFor⟩
  | sectionAfter n before type hkind hchildren hn =>
      rw [hchildren] at hbefore
      obtain ⟨hfree, hbefore⟩ := List.forall_mem_cons.1 hbefore
      refine ⟨List.forall_mem_append.2 ⟨hparts, hbefore⟩, List.forall_mem_append.2 ⟨?_, ?_⟩⟩
      · exact fun head hhead => hfree.head hhead
      · refine List.forall_mem_cons.2 ⟨told_leaf hP nofun, fun child hchild => ?_⟩
        exact hfree.child (List.mem_reverse.1 hchild)
  | parametersAfter n before sect sect' hkind hchildren hn =>
      rw [hchildren] at hbefore
      obtain ⟨hfree, hbefore⟩ := List.forall_mem_cons.1 hbefore
      refine ⟨List.forall_mem_append.2 ⟨hparts, hbefore⟩, fun child hchild => ?_⟩
      exact hfree.child (List.mem_reverse.1 hchild)

theorem Begins.internalFree {parent parent' : Frame} {c : Construct} {children : List Node}
    (h : parent.Begins parent' c children) (hparent : parent.InternalFree) (id : Nat)
    (madeFor : Option Nat) :
    parent'.InternalFree ∧ (Frame.mk c children id madeFor).InternalFree :=
  h.holds (P := fun kind _ => kind ≠ .internal) (fun _ hkind => hkind) hparent id madeFor

theorem lists_inline_paragraph (below : Kind) (h : below.isInline) :
    Kind.paragraph.lists below ∧ below ≠ .includeStep := by
  cases below <;> first
    | (cases h; done)
    | exact ⟨rfl, nofun⟩

theorem Receives.sound {outer inner outer' : Frame} (h : outer.Receives inner outer')
    (houter : outer.Sound) (hinner : inner.Sound)
    (hnode : inner.toNode.Everywhere Node.Proper) : outer'.Sound := by
  cases h with
  | node hkind =>
      rw [← inner.kind_toNode] at hkind
      refine ⟨⟨List.forall_mem_cons.2 ⟨⟨hkind, hnode⟩, houter.held.children⟩, ?_⟩, houter.headed⟩
      refine (Node.runOpen?_cons ?_).2 houter.held.runs
      rw [inner.kind_toNode]
      exact inner.construct.kind_ne.1
  | nothing | secondCaption => exact houter
  | caption attributes caption opener hkind hconstruct =>
      have hheld := houter.held
      rw [hconstruct] at hheld
      refine ⟨hheld, nofun, List.forall_mem_singleton.2 ⟨?_, hnode⟩⟩
      rw [inner.kind_toNode, hkind]
      rfl
  | text before after hkind hparagraph =>
      have htext : ∀ n ∈ inner.children, n.kind.isInline := by
        intro n hn
        have hlists := (hinner.held.children n hn).1
        rwa [hkind] at hlists
      have hchange : ∀ change : StyleChange,
          Kind.paragraph.lists (Node.leaf (.styleChange change)).kind ∧
            (Node.leaf (.styleChange change)).Everywhere Node.Proper :=
        fun change => ⟨rfl, (isPart_styleChange change {}).proper⟩
      refine ⟨⟨?_, ?_⟩, houter.headed⟩
      · have houter := houter.held.children
        rw [hparagraph] at houter ⊢
        refine List.forall_mem_cons.2 ⟨hchange after, List.forall_mem_append.2 ⟨fun n hn => ?_, ?_⟩⟩
        · exact ⟨(lists_inline_paragraph _ (htext n hn)).1, (hinner.held.children n hn).2⟩
        · exact List.forall_mem_cons.2 ⟨hchange before, houter⟩
      · refine (Node.runOpen?_cons (isPart_styleChange after {}).kind).2
          (Node.runOpen?_append (fun n hn => ?_) ?_)
        · exact (lists_inline_paragraph _ (htext n hn)).2
        · exact (Node.runOpen?_cons (isPart_styleChange before {}).kind).2 houter.held.runs

theorem Receives.holds (hP : ∀ kind, kind ≠ .internal → P kind []) {outer inner outer' : Frame}
    (h : outer.Receives inner outer') (houter : outer.Holds P) (hinner : inner.Holds P)
    (hnode : inner.toNode.Everywhere (Node.Told P)) : outer'.Holds P := by
  have hparts := houter
  unfold Holds at hparts
  obtain ⟨hparts, hchildren⟩ := List.forall_mem_append.1 hparts
  cases h with
  | node hkind => exact List.forall_mem_append.2 ⟨hparts, List.forall_mem_cons.2 ⟨hnode, hchildren⟩⟩
  | nothing | secondCaption => exact houter
  | caption attributes caption opener hkind hconstruct =>
      exact List.forall_mem_append.2 ⟨List.forall_mem_singleton.2 hnode, hchildren⟩
  | text before after hkind hparagraph =>
      refine List.forall_mem_append.2 ⟨hparts, List.forall_mem_cons.2 ⟨told_leaf hP nofun, ?_⟩⟩
      refine List.forall_mem_append.2 ⟨fun n hn => hinner n (List.mem_append_right _ hn), ?_⟩
      exact List.forall_mem_cons.2 ⟨told_leaf hP nofun, hchildren⟩

theorem Receives.internalFree {outer inner outer' : Frame} (h : outer.Receives inner outer')
    (houter : outer.InternalFree) (hinner : inner.InternalFree)
    (hnode : inner.toNode.InternalFree) : outer'.InternalFree :=
  h.holds (P := fun kind _ => kind ≠ .internal) (fun _ hkind => hkind) houter hinner hnode

end Frame

end Parser

end DocMarkup
