import DocMarkup.Proofs.Parser.Growth
import DocMarkup.Proofs.Parser.Ledger

/-!
Items of automatic lists in the open constructs.  Work within constructs, and the beginning and the
end of other constructs, leave the items that have been read as they are, and the lists around them.
-/

namespace DocMarkup

namespace Node

variable {n : Node} {nodes : List Node} {lists : List AutoList} {before : Option Whole}

/-- Nothing in front of the children of a node has items in it. -/
theorem Everywhere.listed_eq (h : n.Everywhere Proper) (lists : List AutoList)
    (before : Option Whole) :
    n.listed lists before = (n.content.autoListItem?.map (ListedItem.mk lists before)).toList ++
      listedOf (n.content.autoList?.toList ++ lists) none n.children := by
  obtain ⟨htypes, hheads⟩ := List.forall_mem_append.1 h.headed.textual
  rw [Node.listed_eq,
    listedOf_eq_nil fun type htype => itemless_textual (htypes type htype).1 (htypes type htype).2,
    listedOf_eq_nil fun head hhead => itemless_textual (hheads head hhead).1 (hheads head hhead).2,
    List.append_nil, List.append_nil]

theorem SameItems.itemless {m : Node} (h : SameItems n m) (hn : n.Itemless) : m.Itemless :=
  fun lists before => (h.listed lists before).trans (hn lists before)

theorem listedOf_concat (hn : n.Itemless) (nodes : List Node) :
    listedOf lists before (nodes ++ [n]) = listedOf lists before nodes := by
  rw [listedOf_append, listedOf_cons, hn, listedOf_nil, List.append_nil, List.append_nil]

theorem listedOf_reverse_append (hnodes : ∀ n ∈ nodes, n.Itemless) (more : List Node) :
    listedOf lists before (nodes ++ more).reverse = listedOf lists before more.reverse := by
  induction nodes with
  | nil => rfl
  | cons n rest ih =>
      obtain ⟨hn, hrest⟩ := List.forall_mem_cons.1 hnodes
      rw [List.cons_append, List.reverse_cons, listedOf_concat hn, ih hrest]

theorem listedOf_dropTrailingSpace
    (h : ∀ n ∈ nodes, n.kind = .whiteSpace → n.Itemless) :
    listedOf lists before (Parser.dropTrailingSpace nodes).reverse =
      listedOf lists before nodes.reverse := by
  unfold Parser.dropTrailingSpace
  induction nodes with
  | nil => rfl
  | cons n rest ih =>
      obtain ⟨hn, hrest⟩ := List.forall_mem_cons.1 h
      rw [List.dropWhile_cons]
      split
      · next hspace =>
        rw [ih hrest, List.reverse_cons, listedOf_concat (hn (eq_of_beq hspace))]
      · rfl

end Node

namespace Parser

/-! ### Nodes made whole -/

theorem itemless_bare {content : Content} (flags : NodeFlags) (h : content.kind ≠ .autoListItem) :
    (Node.node content flags [] [] []).Itemless :=
  Node.itemless_of_parts h (List.forall_mem_nil _)

theorem IsPlainText.itemless {text : List Node} (h : IsPlainText text) :
    ∀ n ∈ text, n.Itemless := by
  intro n hn
  obtain ⟨content, rfl, hplain, -⟩ := h n hn
  refine itemless_bare {} fun hitem => ?_
  rw [hitem] at hplain
  cases hplain

theorem Made.itemless {n : Node} (h : Made n) : n.Itemless := by
  cases h with
  | leaf content flags h =>
      refine itemless_bare flags fun hitem => ?_
      cases content <;> first
        | (cases hitem; done)
        | cases h
  | titled content text hkind htext =>
      refine Node.itemless_of_parts (fun hitem => ?_) htext.itemless
      have hitem : content.kind = .autoListItem := hitem
      rw [hitem] at hkind
      cases hkind
  | keyword title body htitle hbody =>
      have hmarks := forall₂_markParagraphs
        (if body.isEmpty then [] else [.branch (.paragraph {}) body])
      refine Node.itemless_of_parts (by rintro ⟨⟩)
        (List.forall_mem_cons.2 ⟨?_, fun part hpart => ?_⟩)
      · exact Node.itemless_of_parts (by rintro ⟨⟩) htitle.itemless
      · obtain ⟨before, hbefore, hkeeps⟩ := Node.exists_of_mem_right hmarks hpart
        refine hkeeps.items.itemless ?_
        split at hbefore
        · cases hbefore
        · rw [List.mem_singleton.1 hbefore]
          exact Node.itemless_of_parts (by rintro ⟨⟩) hbody.itemless

/-! ### Constructs -/

namespace Construct

/-- The item of an automatic list, if it is one. -/
def autoListItem? : Construct → Option AutoListItem
  | autoListItem found => some found
  | _ => none

theorem autoList?_eq_none {c : Construct} (h : c.kind ≠ .autoList) : c.autoList? = none := by
  cases c <;> first
    | rfl
    | exact absurd rfl h

theorem autoListItem?_eq_none {c : Construct} (h : c.kind ≠ .autoListItem) :
    c.autoListItem? = none := by
  cases c <;> first
    | rfl
    | exact absurd rfl h

theorem GoesOn.lists {c c' : Construct} (h : c.GoesOn c') :
    c'.autoList? = c.autoList? ∧ c'.autoListItem? = c.autoListItem? := by
  cases h <;> exact ⟨rfl, rfl⟩

end Construct

namespace Frame

variable {f g : Frame} {lists : List AutoList} {before : Option Whole}

/-- The items in an open construct that stands in some lists, behind an item with some number. -/
def listed (f : Frame) (lists : List AutoList) (before : Option Whole) : List ListedItem :=
  (f.construct.autoListItem?.map (ListedItem.mk lists before)).toList ++
    Node.listedOf (f.construct.autoList?.toList ++ lists) none f.children.reverse

/-- The number of an item that is open. -/
def number? (f : Frame) : Option Whole := f.construct.autoListItem?.map AutoListItem.number

/-- The number of the last item that has ended in a list. -/
def lastNumber? (f : Frame) : Option Whole := f.children.head?.bind Node.itemNumber?

theorem listed_fresh (c : Construct) (id : Nat) (madeFor : Option Nat) (lists : List AutoList)
    (before : Option Whole) : (Frame.mk c [] id madeFor).listed lists before =
      (c.autoListItem?.map (ListedItem.mk lists before)).toList := by
  rw [listed, List.reverse_nil, Node.listedOf_nil, List.append_nil]

theorem numberBehind_reverse (f : Frame) :
    Node.numberBehind none f.children.reverse = f.lastNumber? := by
  unfold Node.numberBehind lastNumber?
  rw [List.getLast?_reverse]
  cases f.children.head? <;> rfl

theorem autoList?_toNode (f : Frame) : f.toNode.content.autoList? = f.construct.autoList? := by
  obtain ⟨construct, children, id, madeFor⟩ := f
  cases construct <;> rfl

theorem autoListItem?_toNode (f : Frame) :
    f.toNode.content.autoListItem? = f.construct.autoListItem? := by
  obtain ⟨construct, children, id, madeFor⟩ := f
  cases construct <;> rfl

theorem itemNumber?_toNode (f : Frame) : f.toNode.itemNumber? = f.number? := by
  rw [Node.itemNumber?, autoListItem?_toNode, number?]

/-- The items of a construct that ends are those of its node. -/
theorem listed_toNode (hf : f.Sound) (lists : List AutoList) (before : Option Whole) :
    f.toNode.listed lists before = f.listed lists before := by
  obtain ⟨htypes, hheads⟩ := List.forall_mem_append.1 hf.headed.textual
  have hchildren := (f.forall₂_toNode hf.rows).imp fun _ _ h => h.items
  rw [Node.listed_eq, types_toNode, heads_toNode, autoList?_toNode, autoListItem?_toNode,
    Node.listedOf_congr hchildren,
    Node.listedOf_eq_nil fun n hn => Node.itemless_textual (htypes n hn).1 (htypes n hn).2,
    Node.listedOf_eq_nil fun n hn => Node.itemless_textual (hheads n hn).1 (hheads n hn).2,
    List.append_nil, List.append_nil, listed]

/-- A construct gets another node. -/
theorem listed_cons (f : Frame) (n : Node) (lists : List AutoList) (before : Option Whole) :
    ({ f with children := n :: f.children } : Frame).listed lists before =
      f.listed lists before ++ n.listed (f.construct.autoList?.toList ++ lists) f.lastNumber? := by
  rw [listed, listed, List.reverse_cons, Node.listedOf_append, Node.listedOf_cons,
    Node.listedOf_nil, List.append_nil, numberBehind_reverse, List.append_assoc]

theorem listed_of_children {n : Node} {rest : List Node} (hf : f.children = n :: rest)
    (lists : List AutoList) (before : Option Whole) :
    f.listed lists before = ({ f with children := rest } : Frame).listed lists before ++
      n.listed (f.construct.autoList?.toList ++ lists)
        ({ f with children := rest } : Frame).lastNumber? := by
  rw [← listed_cons, ← hf]

theorem listed_cons_itemless (f : Frame) {n : Node} (hn : n.Itemless) (lists : List AutoList)
    (before : Option Whole) :
    ({ f with children := n :: f.children } : Frame).listed lists before =
      f.listed lists before := by
  rw [listed_cons, hn, List.append_nil]

/-- What is done to a construct makes and drops no items. -/
theorem Changes.listed (h : f.Changes g) (hf : f.Sound) (lists : List AutoList)
    (before : Option Whole) : g.listed lists before = f.listed lists before := by
  cases h with
  | construct c h =>
      rw [Frame.listed, Frame.listed, h.lists.1, h.lists.2]
  | adds n hn hkind => exact f.listed_cons_itemless hn.itemless lists before
  | marks change flags hkind hstyle =>
      exact f.listed_cons_itemless (itemless_bare flags (by rintro ⟨⟩)) lists before
  | steps step hkind hfirst hlast =>
      have hbare : (Node.leaf (.includeStep step)).Itemless := itemless_bare {} (by rintro ⟨⟩)
      have hsame := (Machine.forall₂_continueRun f.children).imp fun _ _ h => h.items
      refine (listed_cons_itemless { f with children := Machine.continueRun f.children } hbare
        lists before).trans ?_
      rw [Frame.listed, Frame.listed, Node.listedOf_congr (List.rel_reverse hsame)]
  | trims =>
      rw [Frame.listed, Frame.listed, Node.listedOf_dropTrailingSpace fun n hn hspace => ?_]
      exact Node.itemless_textual (hf.held.children n hn).2 (by rw [hspace]; rfl)

theorem Fills.listed (h : f.Fills g) (hf : f.Sound) (lists : List AutoList)
    (before : Option Whole) : g.listed lists before = f.listed lists before := by
  induction h with
  | refl => rfl
  | tail hfills hlast ih => exact (hlast.listed (Fills.sound hfills hf) lists before).trans ih

theorem Fills.list_eq (h : f.Fills g) :
    g.construct.autoList? = f.construct.autoList? ∧ g.number? = f.number? := by
  induction h with
  | refl => exact ⟨rfl, rfl⟩
  | tail _ hlast ih =>
      cases hlast with
      | construct c h =>
          obtain ⟨hlist, hitem⟩ := h.lists
          exact ⟨hlist.trans ih.1, (congrArg (Option.map _) hitem).trans ih.2⟩
      | adds | marks | steps | trims => exact ih

/-- A construct that begins takes the items of what it goes on with, and is an item itself or
not. -/
theorem Begins.listed {parent parent' : Frame} {c : Construct} {children : List Node}
    (h : parent.Begins parent' c children) (hparent : parent.Sound) (id : Nat)
    (madeFor : Option Nat) (lists : List AutoList) (before : Option Whole) :
    parent'.listed lists before ++ (Frame.mk c children id madeFor).listed
        (parent'.construct.autoList?.toList ++ lists) parent'.lastNumber? =
      parent.listed lists before ++ (c.autoListItem?.map (ListedItem.mk
        (parent'.construct.autoList?.toList ++ lists) parent'.lastNumber?)).toList := by
  cases h with
  | fresh => rw [listed_fresh]
  | sectionAfter n rest type hkind hchildren hn =>
      have hproper := (hparent.held.children n (by rw [hchildren]; exact List.mem_cons_self)).2
      have hseparator : (Node.leaf .separator).Itemless := itemless_bare {} (by rintro ⟨⟩)
      have hitems (lists : List AutoList) (before : Option Whole) :
          (Frame.mk (.simpleSection type n.heads) (.leaf .separator :: n.children.reverse) id
            madeFor).listed lists before = n.listed lists before := by
        rw [hproper.listed_eq, hn, Frame.listed, List.reverse_cons, List.reverse_reverse,
          Node.listedOf_concat hseparator]
        rfl
      rw [listed_of_children hchildren, hitems]
      exact (List.append_nil _).symm
  | parametersAfter n rest sect sect' hkind hchildren hn =>
      have hproper := (hparent.held.children n (by rw [hchildren]; exact List.mem_cons_self)).2
      have hitems (lists : List AutoList) (before : Option Whole) :
          (Frame.mk (.paramSection sect') n.children.reverse id madeFor).listed lists before =
            n.listed lists before := by
        rw [hproper.listed_eq, hn, Frame.listed, List.reverse_reverse]
        rfl
      rw [listed_of_children hchildren, hitems]
      exact (List.append_nil _).symm

/-! ### Recovery -/

/-- In a paragraph nothing stands below what was made in recovery. -/
def RecoversBare (f : Frame) : Prop :=
  f.construct.kind = .paragraph → ∀ n ∈ f.children, n.isSynthetic → n.parts = []

theorem Changes.recoversBare (h : f.Changes g) (hsound : f.Sound) (hf : f.RecoversBare) :
    g.RecoversBare := by
  intro hkind
  have hbefore := hf (h.keeps.1 ▸ hkind)
  cases h with
  | construct c h => exact hbefore
  | adds n hn =>
      refine List.forall_mem_cons.2 ⟨fun hsynthetic => ?_, hbefore⟩
      cases hn with
      | leaf content flags => rfl
      | titled | keyword => cases hsynthetic
  | marks change flags => exact List.forall_mem_cons.2 ⟨fun _ => rfl, hbefore⟩
  | steps step =>
      refine List.forall_mem_cons.2 ⟨fun _ => rfl, fun n hn hsynthetic => ?_⟩
      rcases Machine.mem_continueRun hn with hmem | hstep
      · exact hbefore n hmem hsynthetic
      · obtain ⟨before, hmem, halike⟩ :=
          Node.exists_of_mem_right (Machine.forall₂_continueRun f.children) hn
        have hproper := halike.proper (hsound.held.children before hmem).2
        exact hproper.here.toConforms.parts_eq_nil (by rw [hstep]; rfl)
  | trims => exact fun n hn => hbefore n ((List.dropWhile_sublist _).subset hn)

theorem Begins.recoversBare {parent parent' : Frame} {c : Construct} {children : List Node}
    (h : parent.Begins parent' c children) (hparent : parent.RecoversBare) (id : Nat)
    (madeFor : Option Nat) :
    parent'.RecoversBare ∧ (Frame.mk c children id madeFor).RecoversBare := by
  cases h with
  | fresh => exact ⟨hparent, fun _ => List.forall_mem_nil _⟩
  | sectionAfter n rest type hkind hchildren | parametersAfter n rest _ _ hkind hchildren =>
      refine ⟨fun hkind m hm => hparent hkind m ?_, by rintro ⟨⟩⟩
      rw [hchildren]
      exact List.mem_cons_of_mem _ hm

theorem Receives.recoversBare {outer inner outer' : Frame} (h : outer.Receives inner outer')
    (hsound : inner.Sound) (houter : outer.RecoversBare) : outer'.RecoversBare := by
  intro hkind
  cases h with
  | node =>
      refine List.forall_mem_cons.2 ⟨fun hsynthetic => ?_, houter hkind⟩
      exact absurd hsynthetic (by rw [inner.isSynthetic_toNode]; rintro ⟨⟩)
  | nothing | secondCaption => exact houter hkind
  | caption => cases hkind
  | text before after hlink =>
      refine List.forall_mem_cons.2 ⟨fun _ => rfl, List.forall_mem_append.2
        ⟨fun n hn _ => ?_, List.forall_mem_cons.2 ⟨fun _ => rfl, houter hkind⟩⟩⟩
      obtain ⟨hlists, hproper⟩ := hsound.held.children n hn
      rw [hlink] at hlists
      exact hproper.here.toConforms.parts_eq_nil (Bool.or_eq_true_iff.2 (.inl hlists))

theorem grows_recoversBare : Grows RecoversBare fun _ => True where
  ignores _ _ _ _ _ _ _ := trivial
  bare _ _ := trivial
  text _ _ _ := trivial
  keyword _ _ _ _ := trivial
  fresh _ _ _ _ := List.forall_mem_nil _
  changes h hsound hf := h.recoversBare hsound hf
  begins h _ hparent _ id madeFor := h.recoversBare hparent id madeFor
  receives h _ hinner houter _ := h.recoversBare hinner houter
  node _ _ := trivial

/-! ### Constructs that end -/

theorem listed_eq_nil (hkind : f.construct.kind ≠ .autoListItem)
    (hf : ∀ n ∈ f.children, n.Itemless) (lists : List AutoList) (before : Option Whole) :
    f.listed lists before = [] := by
  rw [Frame.listed, Construct.autoListItem?_eq_none hkind,
    Node.listedOf_eq_nil fun n hn => hf n (List.mem_reverse.1 hn)]
  rfl

theorem Sound.listed_eq_nil (hf : f.Sound) (hkind : holdsText f.construct.kind)
    (lists : List AutoList) (before : Option Whole) : f.listed lists before = [] := by
  refine Frame.listed_eq_nil (fun hitem => ?_)
    (fun n hn => Node.itemless_textual (hf.textual hkind n hn).1 (hf.textual hkind n hn).2) ..
  rw [hitem] at hkind
  cases hkind

/-- What a construct that ends leaves has its items. -/
theorem Receives.listed {outer inner outer' : Frame} (h : outer.Receives inner outer')
    (hinner : inner.Sound) (hbare : inner.RecoversBare) (lists : List AutoList)
    (before : Option Whole) :
    outer'.listed lists before = outer.listed lists before ++
      inner.listed (outer.construct.autoList?.toList ++ lists) outer.lastNumber? := by
  cases h with
  | node hkind => rw [listed_cons, listed_toNode hinner]
  | nothing hkind hempty =>
      rw [Frame.listed_eq_nil (f := inner) (by rw [hkind]; rintro ⟨⟩) fun n hn => ?_,
        List.append_nil]
      obtain ⟨hlists, hproper⟩ := hinner.held.children n hn
      rcases hempty n hn with hsynthetic | hspace
      · refine Node.itemless_of_parts (fun hitem => ?_) ?_
        · rw [hkind, hitem] at hlists
          cases hlists
        · rw [hbare hkind n hn hsynthetic]
          exact List.forall_mem_nil _
      · exact Node.itemless_textual hproper (by rw [hspace]; rfl)
  | caption attributes caption opener hkind hconstruct =>
      rw [hinner.listed_eq_nil (by rw [hkind]; rfl), List.append_nil, Frame.listed, Frame.listed,
        hconstruct]
      rfl
  | secondCaption hkind =>
      rw [hinner.listed_eq_nil (by rw [hkind]; rfl), List.append_nil]
  | text changeBefore changeAfter hkind hparagraph =>
      have htext : holdsText inner.construct.kind := by rw [hkind]; rfl
      have hmark (change : StyleChange) : (Node.leaf (.styleChange change)).Itemless :=
        itemless_bare {} (by rintro ⟨⟩)
      rw [hinner.listed_eq_nil htext, List.append_nil, Frame.listed, List.reverse_cons,
        Node.listedOf_concat (hmark _), Node.listedOf_reverse_append fun n hn =>
          Node.itemless_textual (hinner.textual htext n hn).1 (hinner.textual htext n hn).2,
        List.reverse_cons, Node.listedOf_concat (hmark _), Frame.listed]

end Frame

end Parser

end DocMarkup
