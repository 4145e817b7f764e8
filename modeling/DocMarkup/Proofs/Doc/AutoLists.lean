import DocMarkup.Proofs.Doc.ListItems
import DocMarkup.Proofs.Doc.Slots

/-!
Automatic lists of a document.  Where every item fits in with the lists around it and with the item
before it, lists lie deeper than those around them, and the numbers of a list rise.
-/

namespace DocMarkup

namespace Whole

theorem lt_trans {a b c : Whole} (hab : lt a b) (hbc : lt b c) : lt a c := by
  cases b with
  | infinite negative =>
      cases a <;> cases c <;> simp_all [lt]
  | finite n =>
      cases a with
      | infinite negative => cases c <;> simp_all [lt]
      | finite m =>
          rw [lt_finite, decide_eq_true_iff] at hab
          exact lt_of_le (Int.le_of_lt hab) hbc

/-- What is exact is smaller than what is not. -/
theorem lt_ofInt_of_le {n : Int} {b : Whole} (hn : exactBound ≤ n)
    (hb : lt b (.finite exactBound)) : lt b (ofInt n) := by
  have hsign : ¬ n < 0 := by omega
  have hround : exactBound ≤ roundNat n.natAbs := le_roundNat (by omega)
  unfold ofInt
  dsimp only
  generalize roundNat n.natAbs = magnitude at hround
  cases b with
  | infinite negative => split <;> simp_all [lt]
  | finite k =>
      rw [lt_finite, decide_eq_true_iff] at hb
      split
      · simp only [signed, hsign, decide_false, Bool.false_eq_true, if_false]
        rw [lt_finite, decide_eq_true_iff]
        omega
      · simp [lt, hsign]

/-- As long as numbers are exact, one more is more. -/
theorem lt_of_add_one_le {a b : Whole} (ha : a.isNegative = false) (h : lt b (a + 1) = false)
    (hb : lt b (.finite exactBound)) : lt a b := by
  cases a with
  | infinite negative =>
      rw [isNegative_infinite] at ha
      subst ha
      rw [infinite_add] at h
      cases b with
      | infinite negative =>
          cases negative with
          | true => cases h
          | false => cases hb
      | finite n => cases h
  | finite m =>
      rw [isNegative_finite, decide_eq_false_iff_not] at ha
      obtain ⟨m, rfl⟩ := Int.eq_ofNat_of_zero_le (Int.not_lt.1 ha)
      by_cases hm : m + 1 < exactBound
      · rw [finite_add_one hm] at h
        cases b with
        | infinite negative => cases negative <;> simp_all [lt]
        | finite n =>
            rw [lt_finite, decide_eq_false_iff_not] at h
            rw [lt_finite, decide_eq_true_iff]
            omega
      · rw [one_eq, finite_add_finite] at h
        exact absurd h (by rw [lt_ofInt_of_le (Int.not_lt.1 (by omega)) hb]; rintro ⟨⟩)

end Whole

/-- Lists in each other, the innermost first: each is indented further than those around it, and its
depth is the number of numbered ones among these. -/
def Ranked : List AutoList → Prop
  | [] => True
  | list :: outer =>
    (∀ around ∈ outer, around.indent < list.indent) ∧
      list.depth = outer.countP AutoList.isNumbered ∧ Ranked outer

/-- The number of an item that bears none of its own: one more than the one before. -/
def nextNumber (before : Option Whole) : Whole := before.elim 1 (· + 1)

/-- An item fits in with the lists around it and with the item before it. -/
structure ListedItem.Fits (entry : ListedItem) : Prop where
  ranked : Ranked entry.lists
  indent : ∀ list ∈ entry.lists.head?, entry.item.indent = list.indent
  number : entry.item.number.isNegative = false
  rises : ∀ number ∈ entry.before, entry.item.number.lt (number + 1) = false

/-- Numbers rise as long as they are exact. -/
def Rises (earlier later : Whole) : Prop :=
  later.lt (.finite Whole.exactBound) → earlier.lt later

theorem Rises.trans {a b c : Whole} (hab : Rises a b) (hbc : Rises b c) : Rises a c := fun hc =>
  Whole.lt_trans (hab (Whole.lt_trans (hbc hc) hc)) (hbc hc)

namespace Node

variable {root n : Node} {list : AutoList} {lists : List AutoList}

/-- The items of a list one behind the other. -/
theorem exists_items {nodes : List Node} (hnodes : ∀ n ∈ nodes, n.kind = .autoListItem)
    {before : Option Whole} (hbefore : ∀ number ∈ before, number.isNegative = false)
    (hfits : ∀ entry ∈ listedOf (list :: lists) before nodes, entry.Fits) :
    ∃ items : List AutoListItem, nodes.map content = items.map .autoListItem ∧
      (∀ item ∈ items, item.indent = list.indent) ∧
      (∀ number ∈ before, ∀ item ∈ items, Rises number item.number) ∧
      items.Pairwise fun earlier later => Rises earlier.number later.number := by
  induction nodes generalizing before with
  | nil => exact ⟨[], rfl, by simp, by simp, .nil⟩
  | cons n rest ih =>
      obtain ⟨hn, hrest⟩ := List.forall_mem_cons.1 hnodes
      rw [listedOf_cons, List.forall_mem_append] at hfits
      obtain ⟨item, hitem⟩ := Content.exists_autoListItem hn
      have hnumber : n.itemNumber? = some item.number := by
        rw [itemNumber?, Content.autoListItem?_eq_some.2 hitem]
        rfl
      have hentry : (ListedItem.mk (list :: lists) before item).Fits := by
        refine hfits.1 _ ?_
        rw [listed_eq, Content.autoListItem?_eq_some.2 hitem]
        exact List.mem_cons_self
      rw [hnumber] at hfits
      obtain ⟨items, hitems, hindent, hfirst, hpairwise⟩ := ih hrest
        (by rintro _ ⟨⟩; exact hentry.number) hfits.2
      have hrises : ∀ number ∈ before, Rises number item.number := fun number hmem =>
        Whole.lt_of_add_one_le (hbefore number hmem) (hentry.rises number hmem)
      refine ⟨item :: items, ?_, List.forall_mem_cons.2 ⟨hentry.indent list rfl, hindent⟩,
        fun number hmem => List.forall_mem_cons.2 ⟨hrises number hmem, fun later hlater => ?_⟩,
        .cons (hfirst _ rfl) hpairwise⟩
      · rw [List.map_cons, hitem, hitems, List.map_cons]
      · exact (hrises number hmem).trans (hfirst _ rfl later hlater)

/-- The items of a list are items of the document. -/
theorem Below.listedOf_subset (h : root.Below lists n) (hlist : n.content = .autoList list) :
    listedOf (list :: lists) none n.children ⊆ root.listedItems := by
  obtain ⟨before, hsubset⟩ := h.exists_listed_subset
  rw [listed_eq, Content.autoList?_eq_some.2 hlist] at hsubset
  exact (List.append_subset.1 hsubset).2

theorem Conforms.kind_item (h : n.Conforms) (hlist : n.content = .autoList list) :
    n.children ≠ [] ∧ ∀ child ∈ n.children, child.kind = .autoListItem := by
  have hkind : n.kind = .autoList := congrArg Content.kind hlist
  refine ⟨h.filled (by rw [hkind]; rfl), fun child hchild => ?_⟩
  have hlists := h.children child hchild
  rw [hkind] at hlists
  exact eq_of_beq hlists

/-- A list of a document has items, they have its indent, and their numbers rise. -/
theorem exists_items_of_list (hroot : root.Everywhere Conforms)
    (hfits : ∀ entry ∈ root.listedItems, entry.Fits) (hn : root.Reaches n)
    (hlist : n.content = .autoList list) :
    ∃ items : List AutoListItem, n.children.map content = items.map .autoListItem ∧
      items ≠ [] ∧ (∀ item ∈ items, item.indent = list.indent) ∧
      items.Pairwise fun earlier later => Rises earlier.number later.number := by
  obtain ⟨hne, hkind⟩ := (hroot n hn).kind_item hlist
  obtain ⟨lists, hbelow⟩ := exists_below hn
  obtain ⟨items, hitems, hindent, -, hpairwise⟩ := exists_items hkind
    (by rintro _ ⟨⟩) fun entry hentry => hfits entry (hbelow.listedOf_subset hlist hentry)
  refine ⟨items, hitems, ?_, hindent, hpairwise⟩
  rintro rfl
  exact hne (List.map_eq_nil_iff.1 hitems)

/-- The lists around a node of a document lie in order. -/
theorem Below.ranked (hroot : root.Everywhere Conforms)
    (hfits : ∀ entry ∈ root.listedItems, entry.Fits) (h : root.Below lists n) : Ranked lists := by
  cases hlists : lists with
  | nil => trivial
  | cons list outer =>
      -- every list has an item, and that stands in the same lists
      obtain ⟨m, hbelow, hlist⟩ := h.exists_list hlists
      obtain ⟨hne, hkind⟩ := (hroot m hbelow.reaches).kind_item hlist
      obtain ⟨child, hchild⟩ := List.exists_mem_of_ne_nil _ hne
      obtain ⟨item, hitem⟩ := Content.exists_autoListItem (hkind child hchild)
      obtain ⟨before, hsubset⟩ := Node.exists_listed_subset hchild (list :: outer) none
      have hentry : ListedItem.mk (list :: outer) before item ∈
          child.listed (list :: outer) before := by
        rw [listed_eq, Content.autoListItem?_eq_some.2 hitem]
        exact List.mem_cons_self
      exact (hfits _ (hbelow.listedOf_subset hlist (hsubset hentry))).ranked

end Node

end DocMarkup
