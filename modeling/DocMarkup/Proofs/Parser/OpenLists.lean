import DocMarkup.Proofs.Doc.AutoLists
import DocMarkup.Proofs.Parser.ListItems
import DocMarkup.Proofs.Parser.Standing

/-!
Automatic lists that are open.  A turn that begins no item and does not go on with a list leaves the
open lists as they are, each with the number of its next item.
-/

namespace DocMarkup.Parser

/-- The automatic lists among open constructs, the innermost first. -/
def openLists (stack : List Frame) : List AutoList := stack.filterMap (·.construct.autoList?)

/-- The number of the last item that has ended in the innermost construct. -/
def lastNumber? (stack : List Frame) : Option Whole := stack.head?.bind Frame.lastNumber?

/-- The items in the open constructs, in document order. -/
def itemsIn : List Frame → List ListedItem
  | [] => []
  | f :: outer => itemsIn outer ++ f.listed (openLists outer) (lastNumber? outer)

/-- A list numbers its next item behind one with some number. -/
def Frame.Counts (f : Frame) (last : Option Whole) : Prop :=
  ∀ list next, f.construct = .autoList list next →
    next = nextNumber last ∧ next.isNegative = false

/-- Lists number their next items behind those that are open in them, the innermost behind one with
some number. -/
def CountsFrom (last : Option Whole) : List Frame → Prop
  | [] => True
  | f :: outer => f.Counts last ∧ CountsFrom f.number? outer

/-- Lists number their next items behind their last. -/
def CountsItems : List Frame → Prop
  | [] => True
  | f :: outer => f.Counts f.lastNumber? ∧ CountsFrom f.number? outer

variable {f g : Frame} {stack stack' outer : List Frame}

theorem openLists_cons (f : Frame) (outer : List Frame) :
    openLists (f :: outer) = f.construct.autoList?.toList ++ openLists outer := by
  rw [openLists, List.filterMap_cons]
  cases f.construct.autoList? <;> rfl

theorem Frame.counts_of_kind (h : f.construct.kind ≠ .autoList) (last : Option Whole) :
    f.Counts last := by
  intro list next hconstruct
  exact absurd (congrArg Construct.kind hconstruct) h

theorem Frame.Counts.congr {last : Option Whole} (h : f.Counts last)
    (hconstruct : g.construct = f.construct) : g.Counts last := fun list next hlist =>
  h list next (hconstruct.symm.trans hlist)

/-! ### Moves -/

theorem kind_eq_of_mayHold_item {kind : Kind} (h : mayHold kind .autoListItem) :
    kind = .autoList := by
  cases kind <;> first
    | rfl
    | cases h

theorem kind_eq_of_mayHold_list {kind : Kind} (h : mayHold kind .autoList) : kind = .paragraph := by
  cases kind <;> first
    | rfl
    | cases h

theorem kind_eq_of_list_mayHold {kind : Kind} (h : mayHold .autoList kind) :
    kind = .autoListItem := by
  cases kind <;> first
    | rfl
    | cases h

theorem FillsTop.itemsIn_eq (h : FillsTop stack stack') (hs : SoundStack stack) :
    itemsIn stack' = itemsIn stack := by
  cases h with
  | nil => rfl
  | cons f g outer h => rw [itemsIn, itemsIn, h.listed (hs.frame List.mem_cons_self)]

theorem FillsTop.openLists_eq (h : FillsTop stack stack') : openLists stack' = openLists stack := by
  cases h with
  | nil => rfl
  | cons f g outer h => rw [openLists_cons, openLists_cons, h.list_eq.1]

/-- The number of the next item stays, unless a list itself is worked on. -/
theorem FillsTop.countsItems (h : FillsTop stack stack')
    (hkind : ∀ f ∈ stack.head?, f.construct.kind ≠ .autoList) (hs : CountsItems stack) :
    CountsItems stack' := by
  cases h with
  | nil => exact hs
  | cons f g outer h =>
      refine ⟨Frame.counts_of_kind (h.keeps.1 ▸ hkind f rfl) _, ?_⟩
      rw [h.list_eq.2]
      exact hs.2

/-- A construct that begins may be an item itself. -/
theorem BeginsTop.itemsIn_eq (h : BeginsTop stack (f :: outer)) (hs : SoundStack stack) :
    itemsIn (f :: outer) = itemsIn stack ++ (f.construct.autoListItem?.map
      (ListedItem.mk (openLists outer) (lastNumber? outer))).toList := by
  cases h with
  | intro parent parent' outer c children id h =>
      have hlisted := h.listed (hs.frame List.mem_cons_self) id (some parent.id) (openLists outer)
        (lastNumber? outer)
      rw [← openLists_cons] at hlisted
      rw [itemsIn, itemsIn, itemsIn, List.append_assoc, List.append_assoc]
      exact congrArg (_ ++ ·) hlisted

theorem BeginsTop.length_eq (h : BeginsTop stack stack') : stack'.length = stack.length + 1 := by
  cases h
  rfl

theorem BeginsTop.openLists_eq (h : BeginsTop stack (f :: outer)) :
    openLists outer = openLists stack := by
  cases h with
  | intro parent parent' outer c children id h =>
      rw [openLists_cons, openLists_cons, h.keeps.2.1]

theorem BeginsTop.countsItems (h : BeginsTop stack (f :: outer))
    (hlist : f.construct.kind ≠ .autoList) (hitem : f.construct.kind ≠ .autoListItem)
    (hs : CountsItems stack) : CountsItems (f :: outer) := by
  cases h with
  | intro parent parent' outer c children id h =>
      obtain ⟨hholds, hconstruct, -⟩ := h.keeps
      have hparent : parent'.construct.kind ≠ .autoList := by
        rw [hconstruct]
        intro hkind
        rw [hkind] at hholds
        exact hitem (kind_eq_of_list_mayHold hholds)
      refine ⟨Frame.counts_of_kind hlist _, Frame.counts_of_kind hparent _, ?_⟩
      rw [Frame.number?, hconstruct]
      exact hs.2

theorem Frame.Receives.list_eq {outer inner outer' : Frame} (h : outer.Receives inner outer') :
    outer'.construct.autoList? = outer.construct.autoList? ∧ outer'.number? = outer.number? := by
  cases h with
  | caption attributes caption opener _ hconstruct =>
      rw [Frame.number?, Frame.number?, hconstruct]
      exact ⟨rfl, rfl⟩
  | node | nothing | secondCaption | text => exact ⟨rfl, rfl⟩

/-- A list gets the item that ends in it. -/
theorem Frame.Receives.counts {outer inner outer' : Frame} (h : outer.Receives inner outer')
    (hholds : mayHold outer.construct.kind inner.construct.kind)
    (houter : outer.Counts inner.number?) : outer'.Counts outer'.lastNumber? := by
  by_cases hkind : outer.construct.kind = .autoList
  · rw [hkind] at hholds
    have hitem := kind_eq_of_list_mayHold hholds
    cases h with
    | node =>
        have hlast : ({ outer with children := inner.toNode :: outer.children } :
            Frame).lastNumber? = inner.number? := inner.itemNumber?_toNode
        rw [hlast]
        exact houter.congr rfl
    | nothing hinner => exact absurd (hinner.symm.trans hitem) (by rintro ⟨⟩)
    | caption _ _ _ hinner => exact absurd (hinner.symm.trans hitem) (by rintro ⟨⟩)
    | secondCaption hinner => exact absurd (hinner.symm.trans hitem) (by rintro ⟨⟩)
    | text _ _ hinner => exact absurd (hinner.symm.trans hitem) (by rintro ⟨⟩)
  · exact Frame.counts_of_kind (h.keeps.1 ▸ hkind) _

theorem LeavesTop.itemsIn_eq (h : LeavesTop stack stack') (hs : SoundStack stack)
    (hbare : ∀ f ∈ stack, f.RecoversBare) : itemsIn stack' = itemsIn stack := by
  cases h with
  | intro inner outer outer' rest h =>
      have hlisted := h.listed (hs.frame List.mem_cons_self) (hbare inner List.mem_cons_self)
        (openLists rest) (lastNumber? rest)
      rw [← openLists_cons] at hlisted
      rw [itemsIn, itemsIn, itemsIn, hlisted, List.append_assoc]
      rfl

theorem LeavesTop.openLists_eq (h : LeavesTop (f :: outer) stack') :
    openLists (f :: outer) = f.construct.autoList?.toList ++ openLists stack' := by
  cases h with
  | intro inner outer outer' rest h =>
      rw [openLists_cons, openLists_cons, openLists_cons, h.list_eq.1]

theorem LeavesTop.countsItems (h : LeavesTop stack stack') (hstacked : Stacked stack)
    (hs : CountsItems stack) : CountsItems stack' := by
  cases h with
  | intro inner outer outer' rest h =>
      obtain ⟨-, houter, hrest⟩ := hs
      cases hstacked with
      | cons _ _ _ _ hholds =>
          refine ⟨h.counts hholds houter, ?_⟩
          rw [h.list_eq.2]
          exact hrest

/-! ### Plain moves -/

/-- What every move relies on and keeps up. -/
structure Orderly (stack : List Frame) : Prop where
  stacked : Stacked stack
  sound : SoundStack stack
  bare : Grows.SoFar Frame.RecoversBare (fun _ => True) stack

theorem Orderly.recoversBare (h : Orderly stack) : ∀ f ∈ stack, f.RecoversBare :=
  fun f hf => (h.bare f hf).1

theorem Orderly.fills (h : Orderly stack) (h' : FillsTop stack stack') : Orderly stack' :=
  ⟨h'.stacked h.stacked, h'.sound h.sound, Frame.grows_recoversBare.upholds.fills h' h.sound h.bare⟩

theorem Orderly.begins (h : Orderly stack) (h' : BeginsTop stack stack') : Orderly stack' :=
  ⟨h'.stacked h.stacked, h'.sound h.sound,
    Frame.grows_recoversBare.upholds.beginsTop h' h.sound h.bare⟩

theorem Orderly.leaves (h : Orderly stack) (h' : LeavesTop stack stack')
    (hfilled : IsFilled stack) : Orderly stack' :=
  ⟨h'.stacked h.stacked, h'.sound h.sound hfilled,
    Frame.grows_recoversBare.upholds.leaves h' h.sound h.bare⟩

/-- A move that works on no automatic list, and begins and ends none, nor begins an item. -/
inductive Plain : List Frame → List Frame → Prop
  | fills {stack stack' : List Frame} (h : FillsTop stack stack')
      (hkind : ∀ f ∈ stack.head?, f.construct.kind ≠ .autoList) : Plain stack stack'
  | begins {stack outer : List Frame} {f : Frame} (h : BeginsTop stack (f :: outer))
      (hlist : f.construct.kind ≠ .autoList) (hitem : f.construct.kind ≠ .autoListItem) :
      Plain stack (f :: outer)
  | leaves {outer stack' : List Frame} {f : Frame} (h : LeavesTop (f :: outer) stack')
      (hfilled : IsFilled (f :: outer)) (hkind : f.construct.kind ≠ .autoList) :
      Plain (f :: outer) stack'

/-- The open lists and the items read are the same. -/
structure SameLists (stack stack' : List Frame) : Prop where
  items : itemsIn stack' = itemsIn stack
  lists : openLists stack' = openLists stack
  counts : CountsItems stack → CountsItems stack'

theorem SameLists.trans {stack'' : List Frame} (h : SameLists stack stack')
    (h' : SameLists stack' stack'') : SameLists stack stack'' :=
  ⟨h'.items.trans h.items, h'.lists.trans h.lists, h'.counts ∘ h.counts⟩

theorem Plain.orderly (h : Plain stack stack') (hs : Orderly stack) : Orderly stack' := by
  cases h with
  | fills h => exact hs.fills h
  | begins h => exact hs.begins h
  | leaves h hfilled => exact hs.leaves h hfilled

theorem Plain.sameLists (h : Plain stack stack') (hs : Orderly stack) :
    SameLists stack stack' := by
  cases h with
  | fills h hkind => exact ⟨h.itemsIn_eq hs.sound, h.openLists_eq, h.countsItems hkind⟩
  | begins h hlist hitem =>
      refine ⟨?_, ?_, h.countsItems hlist hitem⟩
      · rw [h.itemsIn_eq hs.sound, Construct.autoListItem?_eq_none hitem]
        exact List.append_nil _
      · rw [openLists_cons, Construct.autoList?_eq_none hlist]
        exact h.openLists_eq
  | leaves h hfilled hkind =>
      refine ⟨h.itemsIn_eq hs.sound hs.recoversBare, ?_, h.countsItems hs.stacked⟩
      rw [h.openLists_eq, Construct.autoList?_eq_none hkind]
      rfl

/-- Plain moves one after the other. -/
theorem sameLists_of_plain (h : Relation.ReflTransGen Plain stack stack') (hs : Orderly stack) :
    Orderly stack' ∧ SameLists stack stack' := by
  induction h with
  | refl => exact ⟨hs, rfl, rfl, id⟩
  | tail _ hlast ih => exact ⟨hlast.orderly ih.1, ih.2.trans (hlast.sameLists ih.1)⟩

/-! ### Turns -/

namespace Machine

variable {m m' : Machine} {ends : Outcome → Prop}

theorem innermost_of_mem {f : Frame} (h : f ∈ m.stack.head?) : m.innermost = f.construct.kind := by
  rw [innermost, Option.mem_def.1 h]
  rfl

/-- An item is begun. -/
structure BeginsItem (m m' : Machine) : Prop where
  innermost : m'.innermost = .autoListItem
  length : m.stack.length < m'.stack.length

/-- A construct is begun in another. -/
theorem Begins.exists_top (h : Begins m m') : ∃ f outer, m'.stack = f :: outer ∧
    BeginsTop m.stack (f :: outer) ∧ mayHold m.innermost f.construct.kind := by
  have hstack := h.stack
  unfold innermost
  generalize m.stack = stack, m'.stack = stack' at hstack
  cases hstack with
  | intro parent parent' outer c children id h hinternal =>
      exact ⟨_, _, rfl, .intro parent parent' outer c children id h hinternal, h.keeps.1⟩

/-- Constructs that are begun outside lists and are no lists themselves. -/
theorem Begins.plain (h : Begins m m') (hlist : m.innermost ≠ .autoList)
    (hkind : m'.innermost ≠ .autoList) : Plain m.stack m'.stack := by
  obtain ⟨f, outer, hstack, hbegins, hholds⟩ := h.exists_top
  have hf : m'.innermost = f.construct.kind := innermost_eq hstack
  rw [hstack]
  refine .begins hbegins (hf ▸ hkind) fun hitem => ?_
  rw [hitem] at hholds
  exact hlist (kind_eq_of_mayHold_item hholds)

theorem Fills.plain (h : Fills m m') (hlist : m.innermost ≠ .autoList) :
    Plain m.stack m'.stack :=
  .fills h.stack fun _ hf => innermost_of_mem hf ▸ hlist

theorem Leaves.plain (h : Leaves m m') (hlist : m.innermost ≠ .autoList)
    (hfilled : IsFilled m.stack) : Plain m.stack m'.stack := by
  have hstack := h.stack
  unfold innermost at hlist
  generalize m.stack = stack, m'.stack = stack' at hstack hlist hfilled
  cases hstack with
  | intro inner outer outer' rest h =>
      exact .leaves (.intro inner outer outer' rest h) hfilled hlist

theorem Fills.not_beginsItem (h : Fills m m') : ¬ BeginsItem m m' := fun hitem =>
  absurd hitem.length (by rw [h.stack.length_eq]; exact Nat.lt_irrefl _)

theorem Leaves.not_beginsItem {m₁ : Machine} (h₁ : Fills m m₁) (h : Leaves m₁ m') :
    ¬ BeginsItem m m' := by
  intro hitem
  have hlength := h.stack.length_eq
  rw [h₁.stack.length_eq] at hlength
  have := hitem.length
  omega

/-- A turn that no automatic list has to do with. -/
structure IsPlain (m m' : Machine) : Prop where
  moves : Relation.ReflTransGen Plain m.stack m'.stack
  item : ¬ BeginsItem m m'

theorem Fills.isPlain (h : Fills m m') (hlist : m.innermost ≠ .autoList) : IsPlain m m' :=
  ⟨.single (h.plain hlist), h.not_beginsItem⟩

theorem Leaves.isPlain {m₁ : Machine} (h₁ : Fills m m₁) (h : Leaves m₁ m') (hm : m.Conforms)
    (hlist : m.innermost ≠ .autoList) : IsPlain m m' := by
  refine ⟨.tail (.single (h₁.plain hlist)) (h.plain ?_ (h₁.conforms hm).filled),
    h.not_beginsItem h₁⟩
  rwa [h₁.innermost]

theorem Begins.isPlain {m₁ m₂ : Machine} (h₁ : Fills m m₁) (h₂ : Begins m₁ m₂) (h : Fills m₂ m')
    (hlist : m.innermost ≠ .autoList) (hkind : m'.innermost ≠ .autoList) : IsPlain m m' := by
  rw [h.innermost] at hkind
  have hlist₁ : m₁.innermost ≠ .autoList := by rwa [h₁.innermost]
  refine ⟨.tail (.tail (.single (h₁.plain hlist)) (h₂.plain hlist₁ hkind)) (h.plain hkind),
    fun hitem => ?_⟩
  obtain ⟨f, outer, hstack, -, hholds⟩ := h₂.exists_top
  have hf : m₂.innermost = f.construct.kind := innermost_eq hstack
  rw [← hf, ← h.innermost, hitem.innermost] at hholds
  exact hlist₁ (kind_eq_of_mayHold_item hholds)

/-- A list begins in a paragraph, with the first item; a list marker is at hand. -/
structure BeginsList (m m' : Machine) (ends : Outcome → Prop) : Prop where
  paragraph : m.innermost = .paragraph
  item : BeginsItem m m'
  marker : ∃ token, token.kind = .listItem ∧ ends (.handBack token)

theorem Goes.plain (h : Goes m ends m') (hm : m.Conforms) (hlist : m.innermost ≠ .autoList) :
    IsPlain m m' ∨ BeginsList m m' ends := by
  cases h with
  | reads h => exact .inl (h.isPlain hlist)
  | scans token h => exact .inl (h.isPlain hlist)
  | opens h₁ h₂ h hfilled =>
      exact .inl (h₂.isPlain h₁ h hlist fun hkind => by simp [hkind, Kind.isFilled] at hfilled)
  | @opensTwo m₁ m₂ m₃ m₄ _ h₁ h₂ h₃ h₄ h hfilled hphase hsame hmarker =>
      obtain ⟨f, outer, hstack, hbegins, hholds⟩ := h₂.exists_top
      obtain ⟨g, outer', hstack', hbegins', hholds'⟩ := h₄.exists_top
      have hf : m₂.innermost = f.construct.kind := innermost_eq hstack
      have hg : m'.innermost = g.construct.kind :=
        h.innermost.trans (innermost_eq hstack')
      rw [h₁.innermost, ← hf] at hholds
      rw [h₃.innermost, ← hg] at hholds'
      by_cases hitem : m'.innermost = .autoListItem
      · -- an item stands in a list only, and a list in a paragraph
        rw [hitem] at hholds'
        rw [kind_eq_of_mayHold_item hholds'] at hholds
        have hlength := hbegins.length_eq
        have hlength' := hbegins'.length_eq
        rw [h₃.stack.length_eq, hstack] at hlength'
        rw [h₁.stack.length_eq] at hlength
        refine .inr ⟨kind_eq_of_mayHold_list hholds, ⟨hitem, ?_⟩, hmarker hitem⟩
        rw [h.stack.length_eq, hstack']
        omega
      · refine .inl ⟨?_, fun hbegun => hitem hbegun.innermost⟩
        have hne : m₂.innermost ≠ .autoList := fun hkind => by
          rw [hkind] at hholds'
          exact hitem (kind_eq_of_list_mayHold hholds')
        have hne' : m'.innermost ≠ .autoList := fun hkind => by
          simp [hkind, Kind.isFilled] at hfilled
        rw [← h₃.innermost] at hne
        rw [h.innermost] at hne'
        exact .tail (.tail (h₂.isPlain h₁ h₃ hlist hne).moves (h₄.plain hne hne')) (h.plain hne')
  | leaves outcome h₁ h => exact .inl (h.isPlain h₁ hm hlist)

theorem BeginsList.imp {ends' : Outcome → Prop} (h : BeginsList m m' ends)
    (hends : ∀ token, ends (.handBack token) → ends' (.handBack token)) :
    BeginsList m m' ends' := by
  obtain ⟨token, hkind, hback⟩ := h.marker
  exact ⟨h.paragraph, h.item, token, hkind, hends token hback⟩

/-- A turn outside a list has to do with none, or begins one for the token in hand. -/
theorem Turn.plain (h : Turn m m') (hm : m.Conforms) (hlist : m.innermost ≠ .autoList) :
    IsPlain m m' ∨ BeginsList m m' fun outcome =>
      ∀ token, outcome = .handBack token → m.phase.hand? = some token := by
  cases h with
  | scans token hphase h => exact .inl (h.isPlain hlist)
  | reads hphase h => exact .inl (h.isPlain hlist)
  | takes token hphase htoken h =>
      refine (h.plain hm hlist).imp_right fun hbegun => hbegun.imp ?_
      rintro other hother _ ⟨⟩
      obtain rfl : other = token := by simpa [endsWith] using hother
      rw [hphase]
      rfl
  | opensFor token hphase h₁ h₂ h hphase' hkind =>
      refine .inl (h₂.isPlain h₁ h hlist fun hopened => ?_)
      have := not_isFilled_of_opensFor hkind
      simp [hopened, Kind.isFilled] at this
  | resumes outcome hphase houtcome h =>
      refine (h.plain hm hlist).imp_right fun hbegun => hbegun.imp ?_
      rintro other hother _ ⟨⟩
      obtain rfl : .handBack other = outcome := by simpa [endsAfter] using hother
      rw [hphase]
      rfl
  | retakes token hphase h => exact .inl (h.isPlain hlist)
  | closes hphase h₁ h => exact .inl (h.isPlain h₁ hm hlist)
  | finishes hphase hkind => exact .inl (Fills.isPlain ((Fills.refl m).phase .finished) hlist)

end Machine

end DocMarkup.Parser
