import DocMarkup.Proofs.Parser.Blind.Inline

/-!
The blocks inside paragraphs, apart from cross-reference items, neither see numbers nor give any.
-/

namespace DocMarkup.Parser

/-- Plain text has no numbers. -/
theorem IsPlainText.numbered {nodes : List Node} (h : IsPlainText nodes) :
    nodes.flatMap Node.numbered = [] := by
  refine List.flatMap_eq_nil_iff.2 fun n hn => ?_
  obtain ⟨content, rfl, hplain, -⟩ := h n hn
  cases content <;> first
    | rfl
    | cases hplain

@[simp]
theorem Machine.numbered_plain (m : Machine) (warn : Bool) (t : Text) :
    (m.plain warn t).1.flatMap Node.numbered = [] :=
  (isPlainText_plain m warn t).numbered

theorem Machine.IsNames.numbered {nodes : List Node} (h : Machine.IsNames nodes) :
    nodes.flatMap Node.numbered = [] := by
  refine List.flatMap_eq_nil_iff.2 fun n hn => ?_
  obtain ⟨content, rfl, hname⟩ := h n hn
  cases content <;> first
    | rfl
    | cases hname

/-- Nothing in front of the children of a construct that is begun has a number. -/
theorem Construct.IsFresh.unnumber_eq {c : Construct} (h : c.IsFresh) (hitem : c.kind ≠ .xrefItem) :
    c.unnumber = c := by
  cases c with
  | xrefItem item => exact absurd rfl hitem
  | simpleSection type heads =>
      have hheads : heads.flatMap Node.numbered = [] := by
        obtain rfl | ⟨-, text, rfl, htext⟩ := h
        · rfl
        · simp [Content.isNumbered, htext.numbered]
      exact congrArg (simpleSection type) (Node.map_unnumber hheads)
  | paramList list types names =>
      have hnames := Machine.IsNames.numbered h
      rw [List.flatMap_append, List.append_eq_nil_iff] at hnames
      rw [unnumber, Node.map_unnumber hnames.1, Node.map_unnumber hnames.2]
  | table attributes given opener =>
      obtain rfl : given = none := h
      rfl
  | _ => rfl

theorem Made.numbered {n : Node} (h : Made n) (hkind : n.kind ≠ .formula) : n.numbered = [] := by
  cases h with
  | leaf content flags h =>
      cases content <;> first
        | rfl
        | exact absurd rfl hkind
        | cases h
  | titled content text h htext =>
      have hcontent : content.isNumbered = false := by
        cases content <;> first
          | rfl
          | cases h
      rw [Node.numbered_branch, hcontent, htext.numbered]
      rfl
  | keyword title body htitle hbody =>
      have hparagraphs : (if body.isEmpty then []
          else [Node.branch (.paragraph {}) body]).flatMap Node.numbered = [] := by
        split
        · rfl
        · simp [Content.isNumbered, hbody.numbered]
      rw [Node.numbered_node, List.flatMap_append, numbered_markParagraphs, hparagraphs]
      simp [Content.isNumbered, htitle.numbered]

namespace Machine

/-- A construct is begun. -/
theorem push_blind (m : Machine) {c : Construct} (h : c.IsFresh) (hitem : c.kind ≠ .xrefItem) :
    Blind (push · c) m := by
  refine ⟨?_, ledger_push m (Construct.entry_eq_nil hitem)⟩
  have hpush := push_unnumber m c
  rwa [h.unnumber_eq hitem] at hpush

@[simp]
theorem sectionBefore?_unnumber (m : Machine) (type : SimpleSectionType) :
    m.unnumber.sectionBefore? type = (m.sectionBefore? type).map Node.unnumber := by
  unfold sectionBefore?
  rw [children_unnumber]
  cases m.children with
  | nil => rfl
  | cons n rest =>
      rw [List.map_cons]
      dsimp only
      rw [Node.content_unnumber]
      cases n.content <;> simp only [Content.unnumber, Option.map_none]
      split <;> rfl

@[simp]
theorem parametersBefore?_unnumber (m : Machine) (type : ParamSectionType) :
    m.unnumber.parametersBefore? type =
      (m.parametersBefore? type).map fun found => (found.1, found.2.unnumber) := by
  unfold parametersBefore?
  rw [children_unnumber]
  cases m.children with
  | nil => rfl
  | cons n rest =>
      rw [List.map_cons]
      dsimp only
      rw [Node.content_unnumber]
      cases n.content <;> simp only [Content.unnumber, Option.map_none]
      split <;> rfl

variable {m : Machine}

/-- A section goes on with the one before it: its numbers are those of its children. -/
theorem Settled.ledger_goOn (hm : m.Settled) (m' : Machine) (c : Construct) (more : List Node)
    (hitem : c.kind ≠ .xrefItem) (hkind : c.kind ≠ .paragraph)
    (hmore : more.flatMap Node.numbered = []) {f : Frame} {outer : List Frame}
    (hf : m.stack = f :: outer) {n : Node} {before : List Node}
    (hchildren : f.children = n :: before) (hn : n.content.isNumbered = false)
    (hstack : m'.stack = { f with children := before } :: outer)
    (hnumbering : m'.numbering = m.numbering) :
    ((m'.push c).setChildren (more ++ n.children.reverse)).ledger = m.ledger := by
  obtain ⟨hsound, hclean⟩ := hm.frame (f := f) (hf ▸ List.mem_cons_self)
  have hmem : n ∈ f.children := hchildren ▸ List.mem_cons_self
  have hnumbered : n.numbered = n.children.flatMap Node.numbered := by
    rw [Node.numbered_eq, hn, Node.parts, List.flatMap_append,
      (hsound.held.children n hmem).2.headed.numbered_eq_nil]
    rfl
  have hkept : n.numbered.map (·, f.construct.kind == .paragraph && n.isSynthetic) =
      n.numbered.map (·, false) := by
    cases hflag : f.construct.kind == .paragraph && n.isSynthetic with
    | false => rfl
    | true =>
        obtain ⟨hparagraph, hsynthetic⟩ := Bool.and_eq_true_iff.1 hflag
        rw [hclean.synthetic (eq_of_beq hparagraph) n hmem hsynthetic]
        rfl
  have hentries : f.entries =
      ({ f with children := before } : Frame).entries ++ n.numbered.map (·, false) := by
    rw [← hkept, Frame.entries, Frame.entries, hchildren, List.reverse_cons, List.flatMap_append,
      List.flatMap_singleton, List.append_assoc]
  have hpush : (m'.push c).stack =
      { construct := c, id := m'.begun, madeFor := m'.stack.head?.map Frame.id } ::
        { f with children := before } :: outer := by
    rw [push, hstack]
  have hbegun : ∀ (id : Nat) (madeFor : Option Nat),
      ({ construct := c, children := more ++ n.children.reverse, id, madeFor } : Frame).entries =
        n.numbered.map (·, false) := by
    intro id madeFor
    have hmore' : more.reverse.flatMap Node.numbered = [] := List.flatMap_eq_nil_iff.2 fun part h =>
      List.flatMap_eq_nil_iff.1 hmore part (List.mem_reverse.1 h)
    rw [Frame.entries, Construct.entry_eq_nil hitem, beq_false_of_ne hkind, hnumbered]
    simp only [Bool.false_and, ← List.map_flatMap, List.reverse_append, List.reverse_reverse,
      List.flatMap_append, hmore']
    exact List.append_nil _
  rw [setChildren_eq hpush, ledger, ledger, entries_cons rfl, hbegun, entries_cons hf, hentries,
    List.reverse_cons, List.flatMap_append, List.flatMap_singleton, List.append_assoc]
  exact congrArg (·, _) hnumbering

theorem simpleSection_blind (hm : m.Settled) (hkind : m.innermost = .paragraph) (token : Token)
    (type : SimpleSectionType) : Blind (simpleSection · token type) m := by
  have hread := reads_sectionTitle type
  have hfresh := isFresh_sectionTitle m type
  have hledger := hread.ledger m
  have hstack := hread.stack m
  constructor
  · simp only [simpleSection, insideSection_unnumber, closeParagraph_unnumber, hread.unnumber]
    split
    · rfl
    · generalize m.sectionTitle type = title at hfresh
      rw [sectionBefore?_unnumber]
      cases title.2.sectionBefore? type with
      | none => exact congrArg read (push_blind title.2 hfresh (by rintro ⟨⟩)).unnumber
      | some n =>
          have hpush := push_unnumber (title.2.setChildren title.2.children.tail)
            (.simpleSection type n.heads)
          have hchildren : Node.leaf .separator :: n.unnumber.children.reverse =
              (Node.leaf .separator :: n.children.reverse).map Node.unnumber := by
            simp [Content.unnumber]
          simp only [Construct.unnumber] at hpush
          simp only [Option.map_some, children_unnumber, ← List.map_tail, setChildren_unnumber,
            Node.heads_unnumber, hpush]
          rw [hchildren, setChildren_unnumber, read_unnumber]
  · simp only [simpleSection]
    split
    · exact hm.ledger_closeParagraph hkind _
    · generalize m.sectionTitle type = title at hfresh hledger hstack
      have hm' : title.2.Settled := hm.congr hstack
      have hparagraph : InParagraph title.2 := ⟨hm'.stacked, by rw [innermost, hstack]; exact hkind⟩
      rw [← hledger]
      split
      · next n hsame =>
        obtain ⟨f, outer, hf, -⟩ := hparagraph.exists_stack
        obtain ⟨before, hchildren, hn⟩ := exists_sectionBefore hf hsame
        rw [children_eq hf, hchildren, List.tail_cons, setChildren_eq hf]
        exact hm'.ledger_goOn { title.2 with stack := { f with children := before } :: outer }
          (.simpleSection type n.heads) [.leaf .separator] (by rintro ⟨⟩) (by rintro ⟨⟩) rfl hf hchildren
          (by rw [hn]; rfl) rfl rfl
      · exact ledger_push title.2 rfl

/-- A node that is made whole is added. -/
theorem append_blind (m : Machine) {n : Node} (hn : Made n) (hkind : n.kind ≠ .formula) :
    Blind (append · n) m :=
  ⟨append_unnumber m (hn.numbered hkind), ledger_append m (hn.numbered hkind)⟩

theorem keyword_blind (m : Machine) (token : Token) : Blind (keyword · token) m := by
  have hmade := Made.keyword _ _ (isPlainText_plain m true token.value)
    (isPlainText_plain (m.plain true token.value).2 true token.text) (plainText_trimmed _)
  obtain ⟨hunnumber, hledger⟩ := append_blind
    ((m.plain true token.value).2.plain true token.text).2 hmade (by rintro ⟨⟩)
  constructor
  · simp only [keyword, (reads_plain _ _).unnumber]
    exact congrArg read hunnumber
  · exact hledger.trans (((reads_plain _ _).ledger _).trans ((reads_plain _ _).ledger m))

theorem paramSection_unnumber (m : Machine) (token : Token) (type : ParamSectionType) :
    m.unnumber.paramSection token type = (m.paramSection token type).unnumber := by
  have hdirection := (reads_direction token type).unnumber m
  unfold paramSection
  rw [insideSection_unnumber, closeParagraph_unnumber, hdirection]
  split
  · rfl
  · generalize m.direction token type = direction
    dsimp only
    rw [parametersBefore?_unnumber]
    have hbehind : (if ((direction.2.parametersBefore? type).map fun found =>
          (found.1, found.2.unnumber)).isSome then
        direction.2.unnumber.setChildren direction.2.unnumber.children.tail
        else direction.2.unnumber) =
        (if (direction.2.parametersBefore? type).isSome then
          direction.2.setChildren direction.2.children.tail else direction.2).unnumber := by
      simp only [children_unnumber, ← List.map_tail, setChildren_unnumber, ← apply_ite unnumber,
        Option.isSome_map]
    rw [hbehind]
    generalize direction.2.parametersBefore? type = previous
    generalize (if previous.isSome then _ else direction.2 : Machine) = behind
    rw [scanner_unnumber, (reads_names _).unnumber]
    generalize names behind.scanner.cursor.ahead.length behind = written
    dsimp only
    rw [report_unnumber, ← apply_ite unnumber]
    generalize (if written.1.isEmpty then _ else written.2 : Machine) = reported
    have hfresh := isNames_parameters type written.1 reported
    rw [(reads_parameters _ _).unnumber]
    generalize parameters type written.1 reported = found at hfresh
    have hsection : ∀ sect, found.2.unnumber.push (.paramSection sect) =
        (found.2.push (.paramSection sect)).unnumber := fun sect => push_unnumber _ (.paramSection sect)
    have hlists : ((previous.map fun found => (found.1, found.2.unnumber)).map
        fun found => found.2.children.reverse).getD [] =
        ((previous.map fun found => found.2.children.reverse).getD []).map Node.unnumber := by
      cases previous <;> simp
    simp only [Option.map_map, Function.comp_def] at hlists ⊢
    rw [hsection, hlists, setChildren_unnumber,
      (push_blind _ (c := .paramList _ found.1.1 found.1.2.1) hfresh (by rintro ⟨⟩)).unnumber, read_unnumber]

theorem Settled.ledger_paramSection (hm : m.Settled) (hkind : m.innermost = .paragraph)
    (token : Token) (type : ParamSectionType) : (m.paramSection token type).ledger = m.ledger := by
  unfold paramSection
  split
  · exact hm.ledger_closeParagraph hkind _
  · have hledger := (reads_direction token type).ledger m
    have hstack := (reads_direction token type).stack m
    dsimp only at hledger hstack ⊢
    generalize m.direction token type = direction at hledger hstack
    have hm' : direction.2.Settled := hm.congr hstack
    have hparagraph : InParagraph direction.2 :=
      ⟨hm'.stacked, by rw [innermost, hstack]; exact hkind⟩
    obtain ⟨f, outer, hf, -⟩ := hparagraph.exists_stack
    rw [← hledger, ledger_read, ledger_push _ rfl]
    -- what is read behind the command leaves the stack and the numbers as they are
    have hread : ∀ behind : Machine, ∃ found : Machine,
        (parameters type (names behind.scanner.cursor.ahead.length behind).1
          (if (names behind.scanner.cursor.ahead.length behind).1.isEmpty then
            (names behind.scanner.cursor.ahead.length behind).2.report token
              (.missingParameterName token.value)
          else (names behind.scanner.cursor.ahead.length behind).2)).2 = found ∧
        found.stack = behind.stack ∧ found.numbering = behind.numbering := by
      intro behind
      have hnames := reads_names behind.scanner.cursor.ahead.length
      have hstack := hnames.stack behind
      have hnumbering := congrArg Prod.fst (hnames.ledger behind)
      generalize names behind.scanner.cursor.ahead.length behind = written at hstack hnumbering
      have hread : ∀ m : Machine, m.stack = behind.stack → m.numbering = behind.numbering →
          ∃ found : Machine, (parameters type written.1 m).2 = found ∧
            found.stack = behind.stack ∧ found.numbering = behind.numbering := fun m hs hn =>
        ⟨_, rfl, ((reads_parameters type written.1).stack m).trans hs,
          (congrArg Prod.fst ((reads_parameters type written.1).ledger m)).trans hn⟩
      split
      · exact hread _ hstack hnumbering
      · exact hread _ hstack hnumbering
    cases hprevious : direction.2.parametersBefore? type with
    | none =>
        obtain ⟨found, hfound, hstack, hnumbering⟩ := hread direction.2
        simp only [Option.isSome_none, Bool.false_eq_true, if_false, hfound]
        exact (ledger_push found rfl).trans (ledger_congr hstack hnumbering)
    | some previous =>
        obtain ⟨before, hchildren, hn⟩ := exists_parametersBefore hf hprevious
        obtain ⟨found, hfound, hstack, hnumbering⟩ :=
          hread (direction.2.setChildren direction.2.children.tail)
        simp only [Option.isSome_some, if_true, hfound]
        rw [children_eq hf, hchildren, List.tail_cons, setChildren_eq hf] at hstack hnumbering
        exact hm'.ledger_goOn found (.paramSection _) [] (by rintro ⟨⟩) (by rintro ⟨⟩) rfl hf hchildren
          (by rw [hn]; rfl) hstack hnumbering

theorem paramSection_blind (hm : m.Settled) (hkind : m.innermost = .paragraph) (token : Token)
    (type : ParamSectionType) : Blind (paramSection · token type) m :=
  ⟨paramSection_unnumber m token type, hm.ledger_paramSection hkind token type⟩

/-! ### Lists and other blocks -/

theorem openItem_blind (m : Machine) (token : Token) : Blind (openItem · token) m := by
  cases hstack : m.stack with
  | nil =>
      constructor <;> simp only [openItem, stack_unnumber, hstack]
      · rfl
      · rfl
  | cons f outer =>
      obtain ⟨construct, children, id, madeFor⟩ := f
      constructor <;> simp only [openItem, stack_unnumber, hstack, List.map_cons, Frame.unnumber]
      · cases construct with
        | autoList list next =>
            exact congrArg read (push_unnumber { m with
              stack := ⟨.autoList list (token.number.getD next + 1), children, id, madeFor⟩ :: outer }
              (.autoListItem { indent := token.indent, number := token.number.getD next }))
        | _ => rfl
      · cases construct with
        | autoList list next =>
            dsimp only
            rw [ledger_read, ledger_push _ rfl, ledger, ledger, entries_cons rfl,
              entries_cons hstack]
            rfl
        | _ => rfl

theorem listMarker_blind (hm : m.Settled) (hkind : m.innermost = .paragraph) (token : Token) :
    Blind (listMarker · token) m := by
  have hlist : ∀ list : AutoList, Blind (fun m => ({ m.push (.autoList list 1) with
      scanner := (m.push (.autoList list 1)).scanner.startList } : Machine).openItem token) m := by
    intro list
    have hopened := openItem_blind ({ m.push (.autoList list 1) with
      scanner := (m.push (.autoList list 1)).scanner.startList } : Machine) token
    have hpush := push_unnumber m (.autoList list 1)
    refine ⟨.trans ?_ hopened.unnumber, hopened.ledger.trans (ledger_push m rfl)⟩
    exact congrArg (fun m' : Machine =>
      ({ m' with scanner := m'.scanner.startList } : Machine).openItem token) hpush
  constructor
  · simp only [listMarker, setting_unnumber, (addWord_blind _ _).unnumber, around_unnumber,
      nearestAutoList?_unnumber, closeParagraph_unnumber, List.filterMap_map, Function.comp_def,
      Construct.autoList?_unnumber]
    split
    · simp [Content.isNumbered]
    · split
      · rfl
      · exact (hlist _).unnumber
  · simp only [listMarker]
    split
    · simp [Content.isNumbered, (addWord_blind _ _).ledger]
    · split
      · exact hm.ledger_closeParagraph hkind _
      · exact (hlist _).ledger

theorem itemEnded_blind (hm : m.Settled) (hkind : m.innermost = .autoList) (list : AutoList)
    (next : Whole) (outcome : Outcome) : Blind (itemEnded · list next outcome) m := by
  have haround : nearestAutoList? (m.unnumber.stack.tail.map (·.construct)) =
      nearestAutoList? (m.stack.tail.map (·.construct)) :=
    (congrArg nearestAutoList? (around_unnumber m)).trans (nearestAutoList?_unnumber _)
  have hended : ∀ outcome,
      Blind (fun m => ({ m with scanner := m.scanner.endList } : Machine).close outcome) m :=
    fun outcome => ⟨close_unnumber { m with scanner := m.scanner.endList } outcome,
      Settled.ledger_close (m := { m with scanner := m.scanner.endList }) (hm.congr rfl)
        (fun h => by cases hkind.symm.trans h) outcome⟩
  cases outcome with
  | handBack token =>
      constructor
      · simp only [itemEnded, (openItem_blind _ _).unnumber, haround]
        split
        · rfl
        · split
          · exact (hended _).unnumber
          · exact (hended _).unnumber
      · simp only [itemEnded]
        split
        · exact (openItem_blind m token).ledger
        · split
          · exact (hended _).ledger
          · exact (hended _).ledger
  | _ => exact hended _

theorem simpleList_blind (hm : m.Settled) (hkind : m.innermost = .paragraph) (token : Token) :
    Blind (simpleList · token) m := by
  constructor
  · have hitem : (m.around.map Construct.unnumber).head?.any Construct.isSimpleListItem =
        m.around.head?.any Construct.isSimpleListItem := by
      simp [List.head?_map, Option.any_map]
    simp only [simpleList, around_unnumber, hitem, closeParagraph_unnumber]
    split
    · rfl
    · exact congrArg read ((congrArg (push · .simpleListItem) (push_unnumber m .simpleList)).trans
        (push_unnumber (m.push .simpleList) .simpleListItem))
  · simp only [simpleList]
    split
    · exact hm.ledger_closeParagraph hkind _
    · exact (ledger_push (m.push .simpleList) rfl).trans (ledger_push m rfl)

theorem internal_blind (m : Machine) (token : Token) : Blind (internal · token) m := by
  constructor
  · simp only [internal, around_unnumber, List.any_map, Function.comp_def,
      Construct.isInternal_unnumber]
    split
    · rfl
    · exact congrArg read (push_unnumber m .internal)
  · simp only [internal]
    split
    · rfl
    · exact ledger_push m rfl

theorem refItem_blind (m : Machine) (token : Token) : Blind (refItem · token) m := by
  constructor
  · simp only [refItem, reads_argument.unnumber, reads_restOfLine.unnumber]
    rcases m.argument.1 with _ | target
    · rfl
    · simp [(reads_resolve _).unnumber, (reads_plain _ _).unnumber, Content.isNumbered,
        ← apply_ite unnumber]
  · simp only [refItem]
    rw [← reads_argument.ledger m, ← reads_restOfLine.ledger m.argument.2]
    rcases m.argument.1 with _ | target
    · rfl
    · simp [apply_ite ledger, Content.isNumbered, (reads_plain _ _).ledger, (reads_resolve _).ledger]

theorem takeInRefList_blind (hm : m.Settled) (hkind : m.innermost = .refList) (opener token : Token) :
    Blind (takeInRefList · opener token) m := by
  constructor
  · simp only [takeInRefList, (refItem_blind _ _).unnumber, close_unnumber, report_unnumber,
      readSolid_unnumber, ← apply_ite unnumber]
  · have hclose : ∀ (m' : Machine) outcome, m'.stack = m.stack → (m'.close outcome).ledger = m'.ledger :=
      fun m' outcome hstack => (hm.congr hstack).ledger_close
        (by rw [innermost, hstack]; exact fun h => by cases hkind.symm.trans h) outcome
    simp only [takeInRefList, apply_ite ledger, ledger_readSolid, (refItem_blind _ _).ledger,
      hclose m _ rfl, hclose (m.report _ _) _ rfl, ledger_report, ite_self]

end Machine

end DocMarkup.Parser
