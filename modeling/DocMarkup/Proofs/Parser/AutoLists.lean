import DocMarkup.Proofs.Parser.OpenLists
import DocMarkup.Proofs.Parser.Positions
import DocMarkup.Proofs.Scanner.Markers

/-!
Automatic lists of a comment.  A list marker begins an item of the list that it continues, or of a
new list in the paragraph where it was read; either way the item fits in with the lists around it
and with the item before it.  So every list of the tree is in order, and its items are numbered as
their markers say.
-/

namespace DocMarkup

namespace Whole

theorem lt_irrefl (n : Whole) : lt n n = false := by
  cases n with
  | finite value => simp [lt]
  | infinite negative => cases negative <;> rfl

end Whole

/-- The number that a list marker bears. -/
def Token.written? (token : Token) : Option Whole := Line.writtenNumber? token.value

theorem Token.isNegative_written {token : Token} {number : Whole}
    (h : token.written? = some number) : number.isNegative = false := by
  unfold written? Line.writtenNumber? at h
  split at h
  · cases h
  · obtain rfl := Option.some.inj h
    exact Whole.isNegative_ofNat _

theorem Scanner.number_scan (s : Scanner) (h : s.scan.token.kind = .listItem) :
    s.scan.token.number = s.scan.token.written? := by
  have hlexeme (hkind : (s.lexeme (skipComments s.cursor)).kind = .listItem) :
      (s.lexeme (skipComments s.cursor)).number =
        Line.writtenNumber? (s.lexeme (skipComments s.cursor)).value := by
    unfold lexeme at hkind ⊢
    split at hkind
    · cases hkind
    · rw [if_neg ‹_›]
      exact Lexeme.number_next hkind
  exact hlexeme h

/-- An item is as its marker says: it is indented as the marker is, and has the number that the
marker bears or else the next. -/
structure ListedItem.IsMarkedBy (entry : ListedItem) (token : Token) : Prop where
  kind : token.kind = .listItem
  indent : entry.item.indent = token.indent
  number : entry.item.number = token.written?.getD (nextNumber entry.before)

/-- What a list marker begins fits in, unless the marker bears a number that is too small. -/
theorem ListedItem.fits_of_marker {lists : List AutoList} {list : AutoList}
    {before : Option Whole} {token : Token} (hranked : Ranked (list :: lists))
    (hindent : token.indent = list.indent) (hwritten : token.number = token.written?)
    (hnext : (nextNumber before).isNegative = false)
    (hrises : ∀ last ∈ before, ∀ number ∈ token.number, number.lt (last + 1) = false) :
    (ListedItem.mk (list :: lists) before
      { indent := token.indent, number := token.number.getD (nextNumber before) }).Fits where
  ranked := hranked
  indent := by
    rintro _ ⟨⟩
    exact hindent
  number := by
    cases hnumber : token.number with
    | none => exact hnext
    | some number => exact Token.isNegative_written (hwritten.symm.trans hnumber)
  rises := by
    intro last hlast
    cases hnumber : token.number with
    | some number => exact hrises last hlast number hnumber
    | none =>
        obtain rfl : before = some last := hlast
        exact Whole.lt_irrefl _

namespace Parser

namespace Construct

variable {c : Construct}

theorem exists_autoList (h : c.kind = .autoList) : ∃ list next, c = .autoList list next := by
  cases c <;> first
    | exact ⟨_, _, rfl⟩
    | cases h

theorem exists_paragraph (h : c.kind = .paragraph) :
    ∃ attributes styles, c = .paragraph attributes styles := by
  cases c <;> first
    | exact ⟨_, _, rfl⟩
    | cases h

end Construct

/-- The lists that are open are in order, and the items read so far are as their markers say. -/
structure ListsItems (stack : List Frame) (markers : List Token) : Prop where
  ranked : Ranked (openLists stack)
  counts : CountsItems stack
  items : List.Forall₂ (fun entry token => entry.Fits ∧ entry.IsMarkedBy token) (itemsIn stack)
    markers

variable {stack stack' outer : List Frame} {f : Frame} {list : AutoList} {next : Whole}
  {markers : List Token} {token : Token}

namespace ListsItems

theorem congr (h : ListsItems stack markers) (hsame : SameLists stack stack') :
    ListsItems stack' markers where
  ranked := hsame.lists ▸ h.ranked
  counts := hsame.counts h.counts
  items := hsame.items ▸ h.items

/-- Constructs that end leave their items. -/
theorem leaves (h : ListsItems stack markers) (hs : Orderly stack) (h' : LeavesTop stack stack') :
    ListsItems stack' markers where
  ranked := by
    cases h' with
    | intro inner around around' rest hreceives =>
        have hranked := h.ranked
        rw [(LeavesTop.intro inner around around' rest hreceives).openLists_eq] at hranked
        cases hlist : inner.construct.autoList? with
        | none => rwa [hlist] at hranked
        | some list =>
            rw [hlist] at hranked
            exact hranked.2.2
  counts := h'.countsItems hs.stacked h.counts
  items := by
    rw [h'.itemsIn_eq hs.sound hs.recoversBare]
    exact h.items

/-- A list begins in a paragraph.  It is indented further than the list around. -/
theorem beginsList (h : ListsItems (f :: outer) markers)
    (hparagraph : f.construct.kind = .paragraph)
    (hindent : ∀ around ∈ (openLists outer).head?, around.indent < list.indent)
    (hdepth : list.depth = (openLists outer).countP AutoList.isNumbered) (id : Nat)
    (madeFor : Option Nat) :
    ListsItems (⟨.autoList list 1, [], id, madeFor⟩ :: f :: outer) markers := by
  have hlists : openLists (f :: outer) = openLists outer := by
    rw [openLists_cons, Construct.autoList?_eq_none (by rw [hparagraph]; rintro ⟨⟩)]
    rfl
  have hopened : openLists (⟨.autoList list 1, [], id, madeFor⟩ :: f :: outer) =
      list :: openLists (f :: outer) := openLists_cons ..
  refine ⟨?_, ⟨?_, Frame.counts_of_kind (by rw [hparagraph]; rintro ⟨⟩) _, h.counts.2⟩, ?_⟩
  · have hranked := h.ranked
    rw [hopened, hlists] at *
    refine ⟨?_, hdepth, hranked⟩
    cases hnearest : openLists outer with
    | nil => exact List.forall_mem_nil _
    | cons nearest rest =>
        rw [hnearest] at hindent hranked
        have hnear := hindent nearest rfl
        exact List.forall_mem_cons.2 ⟨hnear, fun around haround =>
          (hranked.1 around haround).trans hnear⟩
  · rintro _ _ ⟨⟩
    exact ⟨rfl, Whole.isNegative_one⟩
  · have hnone : (Frame.mk (.autoList list 1) [] id madeFor).listed (openLists (f :: outer))
        (lastNumber? (f :: outer)) = [] := Frame.listed_fresh ..
    rw [itemsIn, hnone, List.append_nil]
    exact h.items

/-- An item begins in a list, which goes on to number its items behind it. -/
theorem beginsItem (h : ListsItems (f :: outer) markers) (hlist : f.construct = .autoList list next)
    {item : AutoListItem}
    (hfits : (ListedItem.mk (openLists (f :: outer)) f.lastNumber? item).Fits)
    (hmarked : (ListedItem.mk (openLists (f :: outer)) f.lastNumber? item).IsMarkedBy token)
    (id : Nat) (madeFor : Option Nat) :
    ListsItems (⟨.autoListItem item, [], id, madeFor⟩ ::
      { f with construct := .autoList list (item.number + 1) } :: outer) (markers ++ [token]) := by
  have hgoesOn (lists : List AutoList) (before : Option Whole) :
      ({ f with construct := .autoList list (item.number + 1) } : Frame).listed lists before =
        f.listed lists before := by
    rw [Frame.listed, Frame.listed, hlist]
    rfl
  have hopened : openLists ({ f with construct := .autoList list (item.number + 1) } :: outer) =
      openLists (f :: outer) := by
    rw [openLists_cons, openLists_cons, hlist]
    rfl
  refine ⟨?_, ⟨Frame.counts_of_kind (by rintro ⟨⟩) _, ?_, ?_⟩, ?_⟩
  · rw [openLists_cons, hopened]
    exact h.ranked
  · rintro _ _ ⟨⟩
    exact ⟨rfl, Whole.isNegative_add hfits.number Whole.isNegative_one⟩
  · have houter := h.counts.2
    rw [Frame.number?, hlist] at houter
    exact houter
  · rw [itemsIn, itemsIn, hgoesOn, Frame.listed_fresh, hopened]
    exact List.rel_append h.items (.cons ⟨hfits, hmarked⟩ .nil)

end ListsItems

namespace Machine

variable {m m' : Machine}

theorem stack_openItem (hstack : m.stack = f :: outer) (hlist : f.construct = .autoList list next)
    (token : Token) : (m.openItem token).stack =
      ⟨.autoListItem { indent := token.indent, number := token.number.getD next }, [], m.begun,
        some f.id⟩ :: { f with construct := .autoList list (token.number.getD next + 1) } ::
        outer := by
  unfold openItem
  rw [hstack]
  dsimp only
  rw [hlist]
  rfl

/-- A marker begins an item of the innermost list. -/
theorem openItem_listsItems (h : ListsItems m.stack markers) (hstack : m.stack = f :: outer)
    (hlist : f.construct = .autoList list next) (hkind : token.kind = .listItem)
    (hwritten : token.number = token.written?) (hindent : token.indent = list.indent)
    (hrises : ∀ last ∈ f.lastNumber?, ∀ number ∈ token.number, number.lt (last + 1) = false) :
    ListsItems (m.openItem token).stack (markers ++ [token]) := by
  rw [stack_openItem hstack hlist]
  rw [hstack] at h
  obtain ⟨rfl, hnext⟩ := h.counts.1 list next hlist
  have hlists : openLists (f :: outer) = list :: openLists outer := by
    rw [openLists_cons, hlist]
    rfl
  refine h.beginsItem hlist ?_ ?_ _ _
  · rw [hlists]
    exact ListedItem.fits_of_marker (hlists ▸ h.ranked) hindent hwritten hnext hrises
  · exact ⟨hkind, rfl, by rw [hwritten]⟩

/-- A marker begins an item of a new list, if it begins one. -/
theorem listMarker_listsItems (h : ListsItems m.stack markers) (hm : Stacked m.stack)
    (hkind : m.innermost = .paragraph) (htoken : token.kind = .listItem)
    (hwritten : token.number = token.written?) (hitem : BeginsItem m (m.listMarker token)) :
    ListsItems (m.listMarker token).stack (markers ++ [token]) := by
  have hparagraph : m.InParagraph := ⟨hm, hkind⟩
  obtain ⟨f, outer, hstack, hf⟩ := hparagraph.exists_stack
  unfold listMarker at hitem ⊢
  dsimp only at hitem ⊢
  split at hitem
  · -- a marker that is not in use is a word
    exact absurd hitem (Fills.not_beginsItem (((Fills.addWord (.refl m) hparagraph.listsText
      token.value).appendText hparagraph.listsText _ {} rfl rfl rfl).phase .read))
  · rw [if_neg ‹_›]
    split at hitem
    · -- the marker goes back to the list around
      obtain ⟨m₁, hfills, hleaves⟩ := exists_closeParagraph hm hkind (.handBack token)
      exact absurd hitem (hleaves.not_beginsItem hfills)
    · next houtside =>
      rw [if_neg houtside]
      have hlists : m.around.filterMap Construct.autoList? = openLists outer := by
        rw [around, hstack, openLists, List.tail_cons, List.filterMap_map]
        rfl
      rw [nearestAutoList?, ← List.head?_filterMap, hlists] at houtside
      rw [hlists]
      generalize hlist : AutoList.mk token.indent token.flags.isNumbered
        ((openLists outer).countP (·.isNumbered) : Nat) = list
      have hindent : list.indent = token.indent := hlist ▸ rfl
      have hbegun : ListsItems (m.push (.autoList list 1)).stack markers := by
        show ListsItems (⟨.autoList list 1, [], m.begun, m.stack.head?.map Frame.id⟩ :: m.stack) _
        rw [hstack] at h ⊢
        refine h.beginsList hf (fun around haround => ?_) (hlist ▸ rfl) ..
        rw [Option.mem_def.1 haround] at houtside
        rw [hindent]
        simpa using houtside
      exact openItem_listsItems (m := { m.push (.autoList list 1) with scanner := _ }) hbegun rfl
        rfl htoken hwritten hindent.symm (by rintro _ ⟨⟩)

/-- After an item its list ends, or the next item begins in it. -/
theorem itemEnded_listsItems (h : ListsItems m.stack markers) (hs : Orderly m.stack)
    (hstack : m.stack = f :: outer) (hlist : f.construct = .autoList list next)
    {outcome : Outcome} (hwritten : ∀ token, outcome = .handBack token → token.kind = .listItem →
      token.number = token.written?) :
    (¬ BeginsItem m (m.itemEnded list next outcome) ∧
        ListsItems (m.itemEnded list next outcome).stack markers) ∨
      ∃ token, outcome = .handBack token ∧ BeginsItem m (m.itemEnded list next outcome) ∧
        ListsItems (m.itemEnded list next outcome).stack (markers ++ [token]) := by
  have hkind : m.innermost = .autoList := by
    rw [innermost, hstack]
    exact congrArg Construct.kind hlist
  -- whatever else ended the item ends the list, and then no item begins
  have hclose (outcome' : Outcome) :
      ¬ BeginsItem m (({ m with scanner := m.scanner.endList } : Machine).close outcome') ∧
        ListsItems (({ m with scanner := m.scanner.endList } : Machine).close outcome').stack
          markers := by
    have hends := m.fills_endList
    have hleaves := leaves_close (hends.stacked hs.stacked)
      (by rw [hends.innermost, hkind]; rintro ⟨⟩) (by rw [hends.innermost, hkind]; rintro ⟨⟩)
      (by rw [hends.innermost, hkind]; rintro ⟨⟩) outcome'
    exact ⟨hleaves.not_beginsItem hends, h.leaves hs hleaves.stack⟩
  unfold itemEnded
  split
  · next token =>
    split
    · next hcontinues =>
      refine .inr ⟨token, rfl, ⟨?_, ?_⟩, ?_⟩
      · rw [innermost, stack_openItem hstack hlist]
        rfl
      · rw [stack_openItem hstack hlist, hstack]
        exact Nat.lt_succ_self _
      · simp only [continuesList, Bool.and_eq_true, beq_iff_eq, Bool.not_eq_true',
          Option.any_eq_false] at hcontinues
        obtain ⟨⟨⟨hmarker, hindent⟩, -⟩, hnumber⟩ := hcontinues
        refine openItem_listsItems h hstack hlist hmarker (hwritten token rfl hmarker) hindent ?_
        rw [hstack] at h
        obtain ⟨rfl, -⟩ := h.counts.1 list next hlist
        intro last hlast number hmem
        have hnext := hnumber number hmem
        rwa [Option.mem_def.1 hlast] at hnext
    · dsimp only
      split
      · exact .inl (hclose _)
      · exact .inl (hclose _)
  · exact .inl (hclose _)

instance : Decidable (BeginsItem m m') :=
  decidable_of_iff (m'.innermost = .autoListItem ∧ m.stack.length < m'.stack.length)
    ⟨fun h => ⟨h.1, h.2⟩, fun h => ⟨h.1, h.2⟩⟩

/-- The marker of the item that the next step begins. -/
def itemMarker? (m : Machine) : Option Token :=
  if m.BeginsItem m.step then m.phase.hand? else none

theorem itemMarker?_eq_none (h : ¬ m.BeginsItem m.step) : m.itemMarker? = none := if_neg h

theorem itemMarker?_eq_hand? (h : m.BeginsItem m.step) : m.itemMarker? = m.phase.hand? := if_pos h

theorem BeginsItem.ne (h : BeginsItem m m') : m' ≠ m := by
  rintro rfl
  exact Nat.lt_irrefl _ h.length

/-- A machine whose innermost construct is an automatic list goes on with it. -/
theorem Ready.exists_autoList (hm : m.Ready) (hkind : m.innermost = .autoList) :
    ∃ f outer list next outcome, m.stack = f :: outer ∧ f.construct = .autoList list next ∧
      m.phase = .ended outcome ∧ m.step = m.itemEnded list next outcome := by
  obtain ⟨outcome, hphase⟩ : ∃ outcome, m.phase = .ended outcome := by
    by_contra hended
    have hfilled := hm.filled fun outcome hphase => hended ⟨outcome, hphase⟩
    rw [hkind] at hfilled
    cases hfilled
  obtain ⟨f, outer, hstack, hinnermost⟩ := exists_stack hm.stacked
  obtain ⟨list, next, hlist⟩ := Construct.exists_autoList (hinnermost.symm.trans hkind)
  refine ⟨f, outer, list, next, outcome, hstack, hlist, hphase, ?_⟩
  rw [step, hphase]
  unfold resume
  dsimp only
  rw [hstack]
  dsimp only
  rw [hlist]

/-- A paragraph takes a list marker up. -/
theorem InParagraph.step_listMarker (hm : m.InParagraph) (hphase : m.phase = .take token)
    (htoken : token.kind = .listItem) : m.step = m.listMarker token := by
  obtain ⟨f, outer, hstack, hkind⟩ := hm.exists_stack
  obtain ⟨attributes, styles, hf⟩ := Construct.exists_paragraph hkind
  rw [step, hphase]
  unfold dispatch takeInParagraph
  dsimp only
  rw [hstack]
  dsimp only
  rw [hf]
  dsimp only
  rw [htoken]

/-- What is handed back to a paragraph is taken up in the next step only. -/
theorem InParagraph.step_handBack (hm : m.InParagraph)
    (hphase : m.phase = .ended (.handBack token)) : m.step = m.take token := by
  obtain ⟨f, outer, hstack, hkind⟩ := hm.exists_stack
  obtain ⟨attributes, styles, hf⟩ := Construct.exists_paragraph hkind
  rw [step, hphase]
  unfold resume
  dsimp only
  rw [hstack]
  dsimp only
  rw [hf]

/-- A list that a step begins is begun at the list marker in hand. -/
theorem BeginsList.exists_marker {ends : Outcome → Prop} (h : BeginsList m m.step ends)
    (hm : Stacked m.stack) (hends : ∀ token, ends (.handBack token) → m.phase.hand? = some token) :
    ∃ token, token.kind = .listItem ∧ m.phase.hand? = some token ∧
      m.step = m.listMarker token := by
  obtain ⟨token, htoken, hback⟩ := h.marker
  have hhand := hends token hback
  have hparagraph : m.InParagraph := ⟨hm, h.paragraph⟩
  refine ⟨token, htoken, hhand, ?_⟩
  cases hphase : m.phase with
  | take other =>
      rw [hphase] at hhand
      obtain rfl : other = token := Option.some.inj hhand
      exact hparagraph.step_listMarker hphase htoken
  | ended outcome =>
      rw [hphase] at hhand
      cases outcome with
      | handBack other =>
          have hlength := h.item.length
          rw [hparagraph.step_handBack hphase] at hlength
          exact absurd hlength (Nat.lt_irrefl _)
      | _ => cases hhand
  | _ =>
      rw [hphase] at hhand
      cases hhand

/-- Each step keeps the lists in order, and an item that it begins is as its marker says. -/
theorem step_listsItems (h : ListsItems m.stack markers) (hm : m.Ready) (hc : m.Conforms)
    (hs : Orderly m.stack) (hwritten : ∀ token, m.phase.hand? = some token →
      token.kind = .listItem → token.number = token.written?) :
    ListsItems m.step.stack (markers ++ m.itemMarker?.toList) := by
  by_cases hfinished : m.phase = .finished
  · have hsame : m.step = m := by rw [step, hfinished]
    rw [itemMarker?_eq_none fun hitem => hitem.ne hsame, hsame]
    simpa using h
  by_cases hkind : m.innermost = .autoList
  · obtain ⟨f, outer, list, next, outcome, hstack, hlist, hphase, hstep⟩ :=
      hm.exists_autoList hkind
    have hback (token : Token) (htoken : outcome = .handBack token) :
        m.phase.hand? = some token := by
      rw [hphase, htoken]
      rfl
    rw [itemMarker?, hstep]
    rcases itemEnded_listsItems h hs hstack hlist fun token htoken =>
      hwritten token (hback token htoken) with ⟨hnone, hlists⟩ | ⟨token, htoken, hitem, hlists⟩
    · rw [if_neg hnone]
      simpa using hlists
    · rw [if_pos hitem, hback token htoken]
      exact hlists
  rcases (step_turn hm hfinished).plain hc hkind with hplain | hbegins
  · rw [itemMarker?_eq_none hplain.item]
    simpa using h.congr (sameLists_of_plain hplain.moves hs).2
  · obtain ⟨token, htoken, hhand, hstep⟩ := hbegins.exists_marker hm.stacked
      fun token hback => hback token rfl
    rw [itemMarker?_eq_hand? hbegins.item, hhand, hstep]
    exact listMarker_listsItems h hm.stacked hbegins.paragraph htoken
      (hwritten token hhand htoken) (hstep ▸ hbegins.item)

end Machine

/-! ### Comments -/

variable (p : Parser) (comment : Comment)

/-- The markers of the items that were begun in the first steps through a comment. -/
def itemMarkersUpTo (n : Nat) : List Token :=
  (List.range n).filterMap fun k => (p.after comment k).itemMarker?

/-- The markers of the items of a comment, as they are read. -/
def itemMarkers : List Token :=
  p.itemMarkersUpTo comment (maxSteps (expandAliases p.options comment).1.length)

theorem itemMarkersUpTo_succ (n : Nat) :
    p.itemMarkersUpTo comment (n + 1) =
      p.itemMarkersUpTo comment n ++ (p.after comment n).itemMarker?.toList := by
  rw [itemMarkersUpTo, List.range_succ, List.filterMap_append]
  congr 1

variable {p comment}

/-- A list marker of a comment has the number that it bears in writing. -/
theorem Emits.number_eq {token : Token} (h : p.Emits comment token)
    (hkind : token.kind = .listItem) : token.number = token.written? := by
  obtain ⟨n, s, -, -, rfl⟩ := h
  exact s.number_scan hkind

theorem emits_of_hand? {token : Token} {n : Nat}
    (h : (p.after comment n).phase.hand? = some token) : p.Emits comment token :=
  (after_traced p comment n).inHand token (Phase.token?_of_hand? h)

theorem emits_of_mem_itemMarkers {token : Token} (h : token ∈ p.itemMarkers comment) :
    p.Emits comment token := by
  obtain ⟨n, -, hmarker⟩ := List.mem_filterMap.1 h
  by_cases hitem : (p.after comment n).BeginsItem (p.after comment n).step
  · rw [Machine.itemMarker?_eq_hand? hitem] at hmarker
    exact emits_of_hand? hmarker
  · rw [Machine.itemMarker?_eq_none hitem] at hmarker
    cases hmarker

variable (p comment)

/-- At all times lists are in order, and the items read so far are as their markers say. -/
theorem after_listsItems (n : Nat) :
    ListsItems (p.after comment n).stack (p.itemMarkersUpTo comment n) := by
  induction n with
  | zero => exact ⟨trivial, ⟨Frame.counts_of_kind (by rintro ⟨⟩) _, trivial⟩, .nil⟩
  | succ n ih =>
      have hconforms := after_conforms p comment n
      have hready := after_ready p comment n
      rw [after_succ, itemMarkersUpTo_succ]
      refine Machine.step_listsItems ih hready hconforms ⟨hready.stacked, hconforms.sound,
        Frame.grows_recoversBare.after p comment n⟩ fun token hhand => ?_
      exact (emits_of_hand? hhand).number_eq

/-- The automatic lists of a comment are well formed.  On every path they are indented further and
further, each as deep as there are numbered ones around it.  Every list has items; they have its
indent, and their numbers rise as long as they are exact.  The items of the document are, one by
one, as the markers say that were read: each has the number its marker bears, or else the next. -/
theorem parse_autoLists :
    (∀ lists n, (p.parse comment).1.root.Below lists n → Ranked lists) ∧
      (∀ n list, (p.parse comment).1.root.Reaches n → n.content = .autoList list →
        ∃ items : List AutoListItem, n.children.map Node.content = items.map .autoListItem ∧
          items ≠ [] ∧ (∀ item ∈ items, item.indent = list.indent) ∧
          items.Pairwise fun earlier later => Rises earlier.number later.number) ∧
      List.Forall₂ ListedItem.IsMarkedBy (p.parse comment).1.root.listedItems
        (p.itemMarkers comment) ∧
      ∀ token ∈ p.itemMarkers comment, p.Emits comment token := by
  obtain ⟨f, hstack, hkind⟩ :=
    (final_ready p comment).stack_of_finished (final_finished p comment)
  have hfinal : ListsItems (p.final comment).stack (p.itemMarkers comment) :=
    p.after_listsItems comment _
  have hsound := (p.final_conforms comment).sound
  rw [hstack] at hsound hfinal
  have hitems : itemsIn [f] = (p.parse comment).1.root.listedItems := by
    rw [parse_root, hstack]
    exact (f.listed_toNode (hsound.frame List.mem_cons_self) [] none).symm
  have hmarked := hfinal.items
  rw [hitems] at hmarked
  have hroot := (parse_conforms p comment).2
  have hfits : ∀ entry ∈ (p.parse comment).1.root.listedItems, entry.Fits := fun entry hentry => by
    obtain ⟨token, -, hfits, -⟩ := Node.exists_of_mem_right (.flip hmarked) hentry
    exact hfits
  exact ⟨fun lists n h => h.ranked hroot hfits,
    fun n list hn hlist => Node.exists_items_of_list hroot hfits hn hlist,
    hmarked.imp fun _ _ hentry => hentry.2, fun token => emits_of_mem_itemMarkers⟩

/-- An item with a number of its own, an item in it, and one that gets the next number. -/
example :
    let comment : Comment := { text := units "4. a\n   - b\n-# c" }
    (({} : Parser).parse comment).1.root.listedItems.map
        (fun entry => (entry.lists.map AutoList.indent, entry.item.number)) =
      [([0], .finite 4), ([3, 0], .finite 1), ([0], .finite 5)] := by
  decide +kernel

end Parser

end DocMarkup
