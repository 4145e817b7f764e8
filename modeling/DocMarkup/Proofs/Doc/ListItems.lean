import Mathlib.Data.List.Forall2
import DocMarkup.Proofs.Doc.Grammar

/-!
Items of automatic lists in document order.  Each is told with the lists around it and with the
number of the item before it, so that what it has to do with its list can be read off.
-/

namespace DocMarkup

namespace Content

def autoList? : Content → Option AutoList
  | .autoList found => some found
  | _ => none

def autoListItem? : Content → Option AutoListItem
  | .autoListItem found => some found
  | _ => none

theorem autoList?_eq_none {c : Content} (h : c.kind ≠ .autoList) : c.autoList? = none := by
  cases c <;> first
    | rfl
    | exact absurd rfl h

theorem autoListItem?_eq_none {c : Content} (h : c.kind ≠ .autoListItem) :
    c.autoListItem? = none := by
  cases c <;> first
    | rfl
    | exact absurd rfl h

theorem autoList?_eq_some {c : Content} {found : AutoList} :
    c.autoList? = some found ↔ c = .autoList found := by
  cases c <;> simp [autoList?]

theorem autoListItem?_eq_some {c : Content} {found : AutoListItem} :
    c.autoListItem? = some found ↔ c = .autoListItem found := by
  cases c <;> simp [autoListItem?]

theorem exists_autoListItem {c : Content} (h : c.kind = .autoListItem) :
    ∃ item, c = .autoListItem item := by
  cases c <;> first
    | exact ⟨_, rfl⟩
    | cases h

end Content

/-- An item of an automatic list: the lists around it, its own first, the number of the item before
it in its list, and the item. -/
structure ListedItem where
  lists : List AutoList
  before : Option Whole
  item : AutoListItem

namespace Node

variable {lists : List AutoList} {before : Option Whole} {n m : Node} {nodes : List Node}

/-- The number of an item. -/
def itemNumber? (n : Node) : Option Whole := n.content.autoListItem?.map AutoListItem.number

mutual
/-- The items in a node that stands in some lists, behind an item with some number. -/
def listed (lists : List AutoList) (before : Option Whole) : Node → List ListedItem
  | .node content _ types heads children =>
    (content.autoListItem?.map (ListedItem.mk lists before)).toList ++
      listedOf (content.autoList?.toList ++ lists) none types ++
      listedOf (content.autoList?.toList ++ lists) none heads ++
      listedOf (content.autoList?.toList ++ lists) none children

/-- The items in some nodes, of which each stands behind the one before it. -/
def listedOf (lists : List AutoList) (before : Option Whole) : List Node → List ListedItem
  | [] => []
  | n :: rest => n.listed lists before ++ listedOf lists n.itemNumber? rest
end

/-- The items in a document. -/
def listedItems (root : Node) : List ListedItem := root.listed [] none

theorem listed_eq (lists : List AutoList) (before : Option Whole) (n : Node) :
    n.listed lists before =
      (n.content.autoListItem?.map (ListedItem.mk lists before)).toList ++
        listedOf (n.content.autoList?.toList ++ lists) none n.types ++
        listedOf (n.content.autoList?.toList ++ lists) none n.heads ++
        listedOf (n.content.autoList?.toList ++ lists) none n.children := by
  cases n
  rw [listed]
  rfl

@[simp]
theorem listedOf_nil (lists : List AutoList) (before : Option Whole) :
    listedOf lists before [] = [] := by
  rw [listedOf]

theorem listedOf_cons (lists : List AutoList) (before : Option Whole) (n : Node)
    (rest : List Node) :
    listedOf lists before (n :: rest) =
      n.listed lists before ++ listedOf lists n.itemNumber? rest := by
  rw [listedOf]

/-- The number that a node behind some others stands behind. -/
def numberBehind (before : Option Whole) (nodes : List Node) : Option Whole :=
  nodes.getLast?.elim before itemNumber?

theorem listedOf_append (lists : List AutoList) (before : Option Whole) (nodes more : List Node) :
    listedOf lists before (nodes ++ more) =
      listedOf lists before nodes ++ listedOf lists (numberBehind before nodes) more := by
  induction nodes generalizing before with
  | nil =>
      rw [List.nil_append, listedOf_nil, List.nil_append]
      rfl
  | cons n rest ih =>
      have hbehind : numberBehind before (n :: rest) = numberBehind n.itemNumber? rest := by
        unfold numberBehind
        rw [List.getLast?_cons]
        cases rest.getLast? <;> rfl
      rw [List.cons_append, listedOf_cons, listedOf_cons, ih, hbehind, List.append_assoc]

/-! ### Nodes without items -/

/-- There is no item in a node. -/
def Itemless (n : Node) : Prop := ∀ lists before, n.listed lists before = []

theorem listedOf_eq_nil (h : ∀ n ∈ nodes, n.Itemless) (lists : List AutoList)
    (before : Option Whole) : listedOf lists before nodes = [] := by
  induction nodes generalizing before with
  | nil => exact listedOf_nil ..
  | cons n rest ih =>
      obtain ⟨hn, hrest⟩ := List.forall_mem_cons.1 h
      rw [listedOf_cons, hn, ih hrest, List.append_nil]

theorem itemless_of_parts (hkind : n.kind ≠ .autoListItem) (h : ∀ part ∈ n.parts, part.Itemless) :
    n.Itemless := by
  intro lists before
  rw [parts, List.forall_mem_append, List.forall_mem_append] at h
  rw [listed_eq, Content.autoListItem?_eq_none hkind, listedOf_eq_nil h.1.1,
    listedOf_eq_nil h.1.2, listedOf_eq_nil h.2]
  rfl

/-! ### Nodes with the same items -/

/-- The same items stand in two nodes, and behind them. -/
structure SameItems (n m : Node) : Prop where
  number : m.itemNumber? = n.itemNumber?
  listed : ∀ lists before, m.listed lists before = n.listed lists before

theorem SameItems.refl (n : Node) : SameItems n n := ⟨rfl, fun _ _ => rfl⟩

theorem SameItems.trans {k : Node} (h : SameItems n m) (h' : SameItems m k) : SameItems n k :=
  ⟨h'.number.trans h.number, fun _ _ => (h'.listed ..).trans (h.listed ..)⟩

theorem listedOf_congr {nodes nodes' : List Node} (h : List.Forall₂ SameItems nodes nodes')
    (lists : List AutoList) (before : Option Whole) :
    listedOf lists before nodes' = listedOf lists before nodes := by
  induction h generalizing before with
  | nil => rfl
  | cons hn _ ih => rw [listedOf_cons, listedOf_cons, hn.listed, hn.number, ih]

theorem SameItems.withContent {c : Content} (hlist : n.content.autoList? = c.autoList?)
    (hitem : n.content.autoListItem? = c.autoListItem?) : SameItems n (n.withContent c) := by
  refine ⟨?_, fun lists before => ?_⟩
  · rw [itemNumber?, itemNumber?, hitem]
    rfl
  · rw [listed_eq, listed_eq lists before n, hlist, hitem]
    rfl

theorem SameItems.withChildren {nodes : List Node} (h : List.Forall₂ SameItems n.children nodes) :
    SameItems n (n.withChildren nodes) := by
  refine ⟨rfl, fun lists before => ?_⟩
  rw [listed_eq, listed_eq lists before n, ← listedOf_congr h]
  cases n
  rfl

/-! ### Lists around nodes -/

/-- A node stands in a document in some automatic lists, the innermost first. -/
inductive Below (root : Node) : List AutoList → Node → Prop
  | root : Below root [] root
  | part {lists : List AutoList} {n part : Node} (h : Below root lists n) (hpart : part ∈ n.parts) :
      Below root (n.content.autoList?.toList ++ lists) part

variable {root : Node}

theorem Below.reaches (h : root.Below lists n) : root.Reaches n := by
  induction h with
  | root => exact .refl
  | part _ hpart ih => exact ih.tail hpart

theorem exists_below (h : root.Reaches n) : ∃ lists, root.Below lists n := by
  induction h with
  | refl => exact ⟨[], .root⟩
  | tail _ hpart ih =>
      obtain ⟨lists, hbelow⟩ := ih
      exact ⟨_, hbelow.part hpart⟩

/-- The innermost of the lists around a node has the others around it. -/
theorem Below.exists_list (h : root.Below lists n) {list : AutoList} {outer : List AutoList}
    (hlists : lists = list :: outer) :
    ∃ m, root.Below outer m ∧ m.content = .autoList list := by
  induction h with
  | root => cases hlists
  | @part lists n part hbelow _ ih =>
      cases hlist : n.content.autoList? with
      | none =>
          rw [hlist] at hlists
          exact ih hlists
      | some found =>
          rw [hlist] at hlists
          obtain ⟨rfl, rfl⟩ := List.cons.inj hlists
          exact ⟨n, hbelow, Content.autoList?_eq_some.1 hlist⟩

theorem exists_listed_subset (hn : n ∈ nodes) (lists : List AutoList) (before : Option Whole) :
    ∃ behind, n.listed lists behind ⊆ listedOf lists before nodes := by
  induction nodes generalizing before with
  | nil => cases hn
  | cons m rest ih =>
      rw [listedOf_cons]
      rcases List.mem_cons.1 hn with rfl | hrest
      · exact ⟨before, List.subset_append_left ..⟩
      · obtain ⟨behind, hsubset⟩ := ih hrest m.itemNumber?
        exact ⟨behind, List.subset_append_of_subset_right _ hsubset⟩

/-- The items in a node are items of the document, in the lists that the node stands in. -/
theorem Below.exists_listed_subset (h : root.Below lists n) :
    ∃ before, n.listed lists before ⊆ root.listedItems := by
  induction h with
  | root => exact ⟨none, List.Subset.refl _⟩
  | @part lists n part _ hpart ih =>
      obtain ⟨before, hsubset⟩ := ih
      rw [listed_eq] at hsubset
      obtain ⟨hsubset, hchildren⟩ := List.append_subset.1 hsubset
      obtain ⟨hsubset, hheads⟩ := List.append_subset.1 hsubset
      obtain ⟨-, htypes⟩ := List.append_subset.1 hsubset
      rcases mem_parts.1 hpart with hpart | hpart | hpart
      · obtain ⟨behind, h⟩ := Node.exists_listed_subset hpart _ none
        exact ⟨behind, List.Subset.trans h htypes⟩
      · obtain ⟨behind, h⟩ := Node.exists_listed_subset hpart _ none
        exact ⟨behind, List.Subset.trans h hheads⟩
      · obtain ⟨behind, h⟩ := Node.exists_listed_subset hpart _ none
        exact ⟨behind, List.Subset.trans h hchildren⟩

end Node

end DocMarkup
