import DocMarkup.Proofs.Parser.Shadows.Inline
import DocMarkup.Proofs.Parser.Termination

/-!
Sections, lists and other blocks in machines that read a text with and without carriage returns.
-/

namespace DocMarkup

namespace Content

variable {content content' : Content} (h : content'.dropReturns = content.dropReturns)
include h

theorem simpleSection_congr {type : SimpleSectionType} :
    content' = .simpleSection type ↔ content = .simpleSection type := by
  have hkept (c : Content) : c = .simpleSection type ↔ c.dropReturns = .simpleSection type := by
    cases c <;> simp [dropReturns]
  rw [hkept, h, ← hkept]

theorem paramSection_congr {sect : ParamSection} :
    content' = .paramSection sect ↔ content = .paramSection sect := by
  have hkept (c : Content) : c = .paramSection sect ↔ c.dropReturns = .paramSection sect := by
    cases c <;> simp [dropReturns]
  rw [hkept, h, ← hkept]

end Content

namespace Parser.Machine

open Text (crlfOffset)

namespace Shadows

variable {t : Text} {m m' : Machine} (h : Shadows t m m')
include h

/-- The last nodes read. -/
theorem children_cases : m.children = [] ∧ m'.children = [] ∨
    ∃ n n' rest rest', m.children = n :: rest ∧ m'.children = n' :: rest' ∧
      n'.dropReturns = n.dropReturns := by
  have hchildren := h.children
  cases hm : m.children with
  | nil =>
      rw [hm] at hchildren
      exact Or.inl ⟨rfl, List.map_eq_nil_iff.1 hchildren⟩
  | cons n rest =>
      rw [hm] at hchildren
      obtain ⟨n', rest', hm', hn, -⟩ := List.map_eq_cons_iff.1 hchildren
      exact Or.inr ⟨n, n', rest, rest', rfl, hm', hn⟩

theorem tail_children :
    m'.children.tail.map Node.dropReturns = m.children.tail.map Node.dropReturns := by
  rw [List.map_tail, h.children, ← List.map_tail]

/-! ### Sections -/

theorem sectionTitle (type : SimpleSectionType) :
    ReadAlike t (m.sectionTitle type) (m'.sectionTitle type) := by
  unfold Machine.sectionTitle
  split
  · exact ⟨_, _, _, rfl, rfl, h⟩
  · obtain ⟨title, x, x', hx, hx', hline⟩ := h.restOfLine
    rw [hx, hx']
    dsimp only
    split
    · exact ⟨_, _, _, rfl, rfl, hline⟩
    · obtain ⟨nodes, y, y', hy, hy', htitle⟩ := hline.plain false title
      rw [hy, hy']
      exact ⟨_, _, _, rfl, rfl, htitle⟩

theorem sectionBefore?_cases (type : SimpleSectionType) :
    m.sectionBefore? type = none ∧ m'.sectionBefore? type = none ∨
      ∃ n n', m.sectionBefore? type = some n ∧ m'.sectionBefore? type = some n' ∧
        n'.dropReturns = n.dropReturns := by
  unfold Machine.sectionBefore?
  rcases h.children_cases with ⟨hm, hm'⟩ | ⟨n, n', rest, rest', hm, hm', hn⟩
  · rw [hm, hm']
    exact Or.inl ⟨rfl, rfl⟩
  · rw [hm, hm']
    dsimp only
    have hcontent := Node.content_congr hn
    split
    · next found hfound =>
      rw [(Content.simpleSection_congr hcontent).2 hfound]
      dsimp only
      split
      · exact Or.inr ⟨n, n', rfl, rfl, hn⟩
      · exact Or.inl ⟨rfl, rfl⟩
    · next hother =>
      left
      refine ⟨rfl, ?_⟩
      split
      · next found hfound => exact absurd ((Content.simpleSection_congr hcontent).1 hfound) (hother _)
      · rfl

theorem simpleSection (token : Token) (type : SimpleSectionType) :
    Shadows t (m.simpleSection token type)
      (m'.simpleSection (token.crlf (crlfOffset t)) type) := by
  unfold Machine.simpleSection
  rw [h.insideSection]
  split
  · exact h.closeParagraph (.handBack token)
  · obtain ⟨heads, x, x', hx, hx', htitle⟩ := h.sectionTitle type
    rw [hx, hx']
    dsimp only
    rcases htitle.sectionBefore?_cases type with ⟨hbefore, hbefore'⟩ | ⟨n, n', hbefore, hbefore', hn⟩
    · rw [hbefore, hbefore']
      exact (htitle.push (Construct.alike_crlf (.simpleSection type heads))).read
    · rw [hbefore, hbefore']
      have hpushed := (htitle.setChildren htitle.tail_children).push
        (c := .simpleSection type n.heads) ⟨n'.heads, rfl, Node.heads_congr hn⟩
      refine (hpushed.setChildren ?_).read
      rw [List.map_cons, List.map_cons, Node.reverse_congr (Node.children_congr hn)]

theorem keyword {token : Token} (hkind : token.kind = .keyword) :
    Shadows t (m.keyword token) (m'.keyword (token.crlf (crlfOffset t))) := by
  unfold Machine.keyword
  rw [Token.value_crlf (Token.isBlank_of_kind hkind (by decide)), Token.text_crlf (Or.inr hkind)]
  obtain ⟨title, x, x', hx, hx', htitle⟩ := h.plain true token.value
  rw [hx, hx']
  dsimp only
  obtain ⟨body, y, y', hy, hy', hbody⟩ := htitle.plain true token.text
  rw [hy, hy']
  exact (hbody.append rfl).read

/-! ### Parameters -/

theorem names (n : Nat) : ReadAlike t (names n m) (Machine.names n m') := by
  induction n generalizing m m' with
  | zero => exact ⟨_, _, _, rfl, rfl, h⟩
  | succ n ih =>
      unfold Machine.names
      obtain ⟨_ | argument, x, x', hx, hx', hargument⟩ := h.argument
      · rw [hx, hx']
        exact ⟨_, _, _, rfl, rfl, hargument⟩
      · rw [hx, hx']
        dsimp only
        split
        · obtain ⟨more, y, y', hy, hy', hmore⟩ := ih hargument
          rw [hy, hy']
          exact ⟨_, _, _, rfl, rfl, hmore⟩
        · exact ⟨_, _, _, rfl, rfl, hargument⟩

/-- The text with carriage returns is longer, but has no more arguments. -/
theorem allNames : ReadAlike t (Machine.names m.scanner.cursor.ahead.length m)
    (Machine.names m'.scanner.cursor.ahead.length m') := by
  have hlength : m.scanner.cursor.ahead.length ≤ m'.scanner.cursor.ahead.length := by
    rw [h.scanner.ahead]
    exact Text.length_le_crlf _
  rw [← names_of_le hlength]
  exact h.names _

theorem paramName (name : Text) (linkable : Bool) :
    ReadAlike t (m.paramName name linkable) (m'.paramName name linkable) := by
  unfold Machine.paramName
  rw [h.options]
  split
  · exact ⟨_, _, _, rfl, rfl, h⟩
  · obtain ⟨_ | target, x, x', hx, hx', hresolved⟩ := h.resolve name
    · rw [hx, hx']
      exact ⟨_, _, _, rfl, rfl, hresolved⟩
    · rw [hx, hx']
      dsimp only
      rw [hresolved.relPath]
      exact ⟨_, _, _, rfl, rfl, hresolved⟩

theorem paramNames (linkable : Bool) (written : List Text) :
    ReadAlike t (paramNames linkable written m) (Machine.paramNames linkable written m') := by
  induction written generalizing m m' with
  | nil => exact ⟨_, _, _, rfl, rfl, h⟩
  | cons name rest ih =>
      unfold Machine.paramNames
      obtain ⟨n, x, x', hx, hx', hname⟩ := h.paramName name linkable
      rw [hx, hx']
      dsimp only
      obtain ⟨more, y, y', hy, hy', hmore⟩ := ih hname
      rw [hy, hy']
      exact ⟨_, _, _, rfl, rfl, hmore⟩

theorem parameters (type : ParamSectionType) (written : List Text) :
    ReadAlike t (parameters type written m) (Machine.parameters type written m') := by
  induction written generalizing m m' with
  | nil => exact ⟨_, _, _, rfl, rfl, h⟩
  | cons first rest ih =>
      unfold Machine.parameters
      dsimp only
      obtain ⟨types, x, x', hx, hx', htypes⟩ := h.paramNames true ((splitTypes first).1.getD [])
      rw [hx, hx']
      dsimp only
      obtain ⟨name, y, y', hy, hy', hname⟩ :=
        htypes.paramName (splitTypes first).2 (type == .exception)
      rw [hy, hy']
      dsimp only
      obtain ⟨more, z, z', hz, hz', hmore⟩ := ih hname
      rw [hz, hz']
      exact ⟨_, _, _, rfl, rfl, hmore⟩

theorem direction (token token' : Token) (type : ParamSectionType) :
    ReadAlike t (m.direction token type) (m'.direction token' type) := by
  unfold Machine.direction
  split
  · exact ⟨_, _, _, rfl, rfl, h⟩
  · obtain ⟨_ | option, x, x', hx, hx', hattached⟩ :=
      h.attached '[' ']' rfl rfl
    · rw [hx, hx']
      exact ⟨_, _, _, rfl, rfl, hattached⟩
    · rw [hx, hx']
      dsimp only
      split
      · exact ⟨_, _, _, rfl, rfl, hattached⟩
      · exact ⟨_, _, _, rfl, rfl, hattached.report ..⟩

/-- The section that parameters are added to, with the lists in it. -/
theorem parametersBefore? (type : ParamSectionType) :
    (m'.parametersBefore? type).map Prod.fst = (m.parametersBefore? type).map Prod.fst ∧
      (((m'.parametersBefore? type).map fun p => p.2.children.reverse).getD []).map
          Node.dropReturns =
        (((m.parametersBefore? type).map fun p => p.2.children.reverse).getD []).map
          Node.dropReturns := by
  unfold Machine.parametersBefore?
  rcases h.children_cases with ⟨hm, hm'⟩ | ⟨n, n', rest, rest', hm, hm', hn⟩
  · rw [hm, hm']
    exact ⟨rfl, rfl⟩
  · rw [hm, hm']
    dsimp only
    have hcontent := Node.content_congr hn
    split
    · next sect hsect =>
      rw [(Content.paramSection_congr hcontent).1 hsect]
      dsimp only
      split
      · exact ⟨rfl, Node.reverse_congr (Node.children_congr hn)⟩
      · exact ⟨rfl, rfl⟩
    · next hother =>
      split
      · next sect hsect => exact absurd ((Content.paramSection_congr hcontent).2 hsect) (hother _)
      · exact ⟨rfl, rfl⟩

theorem paramSection (token : Token) (type : ParamSectionType) :
    Shadows t (m.paramSection token type)
      (m'.paramSection (token.crlf (crlfOffset t)) type) := by
  unfold Machine.paramSection
  rw [h.insideSection]
  split
  · exact h.closeParagraph (.handBack token)
  · obtain ⟨direction?, x, x', hx, hx', hdirection⟩ :=
      h.direction token (token.crlf (crlfOffset t)) type
    rw [hx, hx']
    dsimp only
    obtain ⟨hsect, hlists⟩ := hdirection.parametersBefore? type
    revert hsect hlists
    generalize x.parametersBefore? type = previous
    generalize x'.parametersBefore? type = previous'
    intro hsect hlists
    have hsome : previous'.isSome = previous.isSome := by
      rw [← Option.isSome_map (f := Prod.fst), hsect, Option.isSome_map]
    rw [hsect, hsome]
    have hremoved : Shadows t
        (if previous.isSome then x.setChildren x.children.tail else x)
        (if previous.isSome then x'.setChildren x'.children.tail else x') := by
      split
      · exact hdirection.setChildren hdirection.tail_children
      · exact hdirection
    revert hremoved
    generalize (if previous.isSome then x.setChildren _ else x) = y
    generalize (if previous.isSome then x'.setChildren _ else x') = y'
    intro hremoved
    obtain ⟨written, z, z', hz, hz', hnames⟩ := hremoved.allNames
    rw [hz, hz']
    dsimp only
    have hreported := hnames.report_if written.isEmpty written.isEmpty token
      (token.crlf (crlfOffset t)) (.missingParameterName token.value)
      (.missingParameterName (token.crlf (crlfOffset t)).value)
    revert hreported
    generalize (if written.isEmpty then z.report _ _ else z) = w
    generalize (if written.isEmpty then z'.report _ _ else z') = w'
    intro hreported
    obtain ⟨⟨types, names, typed⟩, v, v', hv, hv', hread⟩ := hreported.parameters type written
    rw [hv, hv']
    dsimp only
    exact (((hread.push (Construct.alike_crlf (.paramSection _))).setChildren hlists).push
      (Construct.alike_crlf (.paramList _ types names))).read

/-! ### Cross-reference items -/

theorem itemKey {token : Token} (hsolid : token.isBlank = false) :
    ∃ key heading x x', m.itemKey token = (key, heading, x) ∧
      m'.itemKey (token.crlf (crlfOffset t)) = (key, heading, x') ∧ Shadows t x x' := by
  unfold Machine.itemKey
  rw [Token.value_crlf hsolid]
  split
  · exact ⟨_, _, _, _, rfl, rfl, h⟩
  · obtain ⟨key?, x, x', hx, hx', hkey⟩ := h.argument
    rw [hx, hx']
    dsimp only
    obtain ⟨heading, y, y', hy, hy', hheading⟩ := hkey.quoted
    rw [hy, hy']
    dsimp only
    obtain ⟨_, z, z', hz, hz', hlast⟩ := hheading.quoted
    rw [hz, hz']
    exact ⟨_, _, _, _, rfl, rfl, hlast.report_if ..⟩

theorem xrefItem {token : Token} (hsolid : token.isBlank = false) :
    Shadows t (m.xrefItem token) (m'.xrefItem (token.crlf (crlfOffset t))) := by
  unfold Machine.xrefItem
  rw [h.insideSection]
  split
  · exact h.closeParagraph (.handBack token)
  · obtain ⟨key, heading, x, x', hx, hx', hkey⟩ := h.itemKey hsolid
    rw [hx, hx']
    dsimp only
    rw [hkey.items, hkey.options, hkey.relPath]
    have hcounted : Shadows t { x with items := x.items + 1 } { x' with items := x.items + 1 } :=
      { hkey with items := rfl }
    exact (hcounted.push (Construct.alike_crlf (.xrefItem _))).read

/-! ### Automatic lists -/

theorem openItem (token : Token) :
    Shadows t (m.openItem token) (m'.openItem (token.crlf (crlfOffset t))) := by
  unfold Machine.openItem
  rcases h.stack_cases with ⟨hm, hm'⟩ | ⟨f, f', outer, outer', hm, hm', hf, houter⟩
  · rw [hm, hm']
    exact h.read
  · rw [hm, hm']
    obtain ⟨heads, hconstruct, -⟩ := hf.construct
    have hread : Shadows t m.read m'.read := h.read
    dsimp only
    rw [hconstruct]
    cases f.construct
    case autoList list next =>
      have hitem (number : Whole) : Shadows t
          (({ m with stack := { f with construct := .autoList list (number + 1) } :: outer } :
            Machine).push (.autoListItem { indent := token.indent, number })).read
          (({ m' with stack := { f' with construct := .autoList list (number + 1) } :: outer' } :
            Machine).push (.autoListItem { indent := token.indent, number })).read := by
        have hnext : Frame.Alike (crlfOffset t)
            { f with construct := .autoList list (number + 1) }
            { f' with construct := .autoList list (number + 1) } :=
          { hf with construct := Construct.alike_crlf (.autoList list (number + 1)) }
        have hcounted : Shadows t
            { m with stack := { f with construct := .autoList list (number + 1) } :: outer }
            { m' with stack := { f' with construct := .autoList list (number + 1) } :: outer' } :=
          { h with stack := .cons hnext houter }
        exact (hcounted.push (Construct.alike_crlf (.autoListItem _))).read
      exact hitem _
    all_goals exact hread

theorem startList : Shadows t { m with scanner := m.scanner.startList }
    { m' with scanner := m'.scanner.startList } :=
  { h with scanner := { h.scanner with listDepth := congrArg (· + 1) h.scanner.listDepth } }

theorem endList : Shadows t { m with scanner := m.scanner.endList }
    { m' with scanner := m'.scanner.endList } :=
  { h with scanner := { h.scanner with listDepth := congrArg (· - 1) h.scanner.listDepth } }

theorem listMarker {token : Token} (hsolid : token.isBlank = false) :
    Shadows t (m.listMarker token) (m'.listMarker (token.crlf (crlfOffset t))) := by
  have hindent : (token.crlf (crlfOffset t)).indent = token.indent := rfl
  unfold Machine.listMarker
  dsimp only
  rw [h.options, Token.value_crlf hsolid, Token.flags_crlf, h.nearestAutoList?, h.autoLists, hindent]
  split
  · exact ((h.addWord token.value).appendLeaf rfl).read
  · split
    · exact h.closeParagraph (.handBack token)
    · exact ((h.push (Construct.alike_crlf (.autoList _ _))).startList).openItem token

theorem itemEnded (list : AutoList) (next : Whole) (outcome : Outcome) :
    Shadows t (m.itemEnded list next outcome)
      (m'.itemEnded list next (outcome.crlf (crlfOffset t))) := by
  have haround : Machine.nearestAutoList? (m'.stack.tail.map (·.construct)) =
      Machine.nearestAutoList? (m.stack.tail.map (·.construct)) := h.nearestAutoList?
  unfold Machine.itemEnded
  cases outcome with
  | complete => exact h.endList.close .complete
  | endOfText => exact h.endList.close .endOfText
  | newParagraph token => exact h.endList.close (.newParagraph token)
  | handBack token =>
      have hcontinues : continuesList list next (token.crlf (crlfOffset t)) =
        continuesList list next token := rfl
      have hindent : (token.crlf (crlfOffset t)).indent = token.indent := rfl
      dsimp only [Outcome.crlf]
      rw [hcontinues, haround, Token.kind_crlf, hindent]
      split
      · exact h.openItem token
      · split
        · exact h.endList.close .complete
        · exact h.endList.close (.handBack token)

/-! ### Other blocks -/

theorem simpleList (token : Token) :
    Shadows t (m.simpleList token) (m'.simpleList (token.crlf (crlfOffset t))) := by
  have haround : m'.around.head?.any Construct.isSimpleListItem =
      m.around.head?.any Construct.isSimpleListItem := by
    have hhead (around : List Construct) : around.head?.any Construct.isSimpleListItem =
        (around.map Construct.isSimpleListItem).head?.any id := by
      cases around <;> rfl
    rw [hhead, h.map_around Construct.Alike.isSimpleListItem, ← hhead]
  unfold Machine.simpleList
  rw [haround]
  split
  · exact h.closeParagraph (.handBack token)
  · exact ((h.push (Construct.alike_crlf .simpleList)).push
      (Construct.alike_crlf .simpleListItem)).read

theorem internal (token token' : Token) : Shadows t (m.internal token) (m'.internal token') := by
  unfold Machine.internal
  rw [h.any_around Construct.Alike.isInternal]
  split
  · exact Shadows.read (h.report ..)
  · exact (h.push (Construct.alike_crlf .internal)).read

theorem refItem (token token' : Token) : Shadows t (m.refItem token) (m'.refItem token') := by
  unfold Machine.refItem
  obtain ⟨target?, x, x', hx, hx', htarget⟩ := h.argument
  rw [hx, hx']
  dsimp only
  obtain ⟨text, y, y', hy, hy', htext⟩ := htarget.restOfLine
  rw [hy, hy']
  dsimp only
  cases target? with
  | none => exact htext.report ..
  | some target =>
      obtain ⟨found?, z, z', hz, hz', hfound⟩ := htext.resolve target
      dsimp only
      rw [hz, hz']
      dsimp only
      generalize (if !text.isEmpty then text else _ : Text) = shown
      obtain ⟨nodes, w, w', hw, hw', hnodes⟩ := hfound.plain false shown
      rw [hw, hw']
      dsimp only
      rw [hnodes.relPath]
      split
      · exact hnodes.append rfl
      · exact Shadows.report (hnodes.append rfl) ..

theorem takeInRefList (opener opener' token : Token) :
    Shadows t (m.takeInRefList opener token)
      (m'.takeInRefList opener' (token.crlf (crlfOffset t))) := by
  unfold Machine.takeInRefList
  rw [Token.kind_crlf]
  simp only [Token.isCommand_crlf]
  split
  · exact Shadows.readSolid (h.refItem ..)
  · split
    · exact h.close .complete
    · split
      · exact Shadows.close (h.report ..) .endOfText
      · exact Shadows.readSolid (h.report ..)

end Shadows

end Parser.Machine

end DocMarkup
