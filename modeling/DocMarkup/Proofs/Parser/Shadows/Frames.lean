import DocMarkup.Proofs.Doc.LineEnds
import DocMarkup.Proofs.Parser.Frames
import DocMarkup.Proofs.Scanner.Shadows

/-!
Constructs that are read side by side in a text and in the same text with carriage returns.  What
they were begun with is the same but for offsets and for carriage returns in attributes, and so are
the nodes read into them.
-/

namespace DocMarkup

namespace Parser

/-! ### Constructs -/

/-- The token that began a construct in a text with carriage returns.  It is a command or a tag,
and those have the same names. -/
def opener (move : Nat → Nat) (token : Token) : Token :=
  { token.crlf move with value := token.value }

theorem crlf_eq_opener {move : Nat → Nat} {token : Token} (h : token.isBlank = false) :
    token.crlf move = opener move token := by
  rw [opener, ← Token.value_crlf h]

/-- The same style, entered in a text with carriage returns. -/
def OpenStyle.crlf (entered : OpenStyle) : OpenStyle :=
  { entered with attributes := entered.attributes.mapValues Text.crlf }

/-- The same outcome in a text with carriage returns, where offsets are moved. -/
def Outcome.crlf (move : Nat → Nat) : Outcome → Outcome
  | .newParagraph token => .newParagraph (token.crlf move)
  | .handBack token => .handBack (token.crlf move)
  | outcome => outcome

/-- The same phase in a text with carriage returns, where offsets are moved. -/
def Phase.crlf (move : Nat → Nat) : Phase → Phase
  | .take token => .take (token.crlf move)
  | .ended outcome => .ended (outcome.crlf move)
  | phase => phase

namespace Construct

/-- The same construct, begun in a text with carriage returns, where offsets are moved. -/
def crlf (move : Nat → Nat) : Construct → Construct
  | .paragraph attributes styles =>
    .paragraph (attributes.mapValues Text.crlf) (styles.map OpenStyle.crlf)
  | .parBlock token => .parBlock (opener move token)
  | .refList token => .refList (opener move token)
  | .list l next token =>
    .list { l with attributes := l.attributes.mapValues Text.crlf } next (opener move token)
  | .listItem item =>
    .listItem { item with attributes := item.attributes.mapValues Text.crlf }
  | .descList attributes token =>
    .descList (attributes.mapValues Text.crlf) (opener move token)
  | .descTitle attributes => .descTitle (attributes.mapValues Text.crlf)
  | .descData attributes => .descData (attributes.mapValues Text.crlf)
  | .table attributes given token =>
    .table (attributes.mapValues Text.crlf) given (opener move token)
  | .row attributes => .row (attributes.mapValues Text.crlf)
  | .cell attributes isHeading => .cell (attributes.mapValues Text.crlf) isHeading
  | .caption attributes kept => .caption (attributes.mapValues Text.crlf) kept
  | .blockQuote attributes token =>
    .blockQuote (attributes.mapValues Text.crlf) (opener move token)
  | .header h token =>
    .header { h with attributes := h.attributes.mapValues Text.crlf } (opener move token)
  | .hyperlink l token =>
    .hyperlink { l with
      url := Text.crlf l.url
      attributes := l.attributes.mapValues Text.crlf } (opener move token)
  | .link l resolved token => .link l resolved (opener move token)
  | construct => construct

/-- The construct with other nodes in front of its children. -/
def withHeads (heads : List Node) : Construct → Construct
  | .simpleSection type _ => .simpleSection type heads
  | .paramList l types _ => .paramList l types heads
  | .table attributes _ token => .table attributes heads.head? token
  | construct => construct

/-- A construct and the one that was begun in its place in the text with carriage returns. -/
def Alike (move : Nat → Nat) (c c' : Construct) : Prop :=
  ∃ heads, c' = (c.crlf move).withHeads heads ∧
    heads.map Node.dropReturns = c.heads.map Node.dropReturns

variable {move : Nat → Nat} {c c' : Construct}

theorem withHeads_crlf_heads (c : Construct) : (c.crlf move).withHeads c.heads = c.crlf move := by
  cases c with
  | table attributes caption token => cases caption <;> rfl
  | _ => rfl

theorem alike_crlf (c : Construct) : Alike move c (c.crlf move) :=
  ⟨c.heads, (withHeads_crlf_heads c).symm, rfl⟩

namespace Alike

variable (h : Alike move c c')
include h

theorem isInternal : c'.isInternal = c.isInternal := by
  obtain ⟨heads, rfl, -⟩ := h
  cases c <;> rfl

theorem isParBlock : c'.isParBlock = c.isParBlock := by
  obtain ⟨heads, rfl, -⟩ := h
  cases c <;> rfl

theorem isSimpleListItem : c'.isSimpleListItem = c.isSimpleListItem := by
  obtain ⟨heads, rfl, -⟩ := h
  cases c <;> rfl

theorem autoList? : c'.autoList? = c.autoList? := by
  obtain ⟨heads, rfl, -⟩ := h
  cases c <;> rfl

theorem ownsSections : c'.ownsSections = c.ownsSections := by
  obtain ⟨heads, rfl, -⟩ := h
  cases c <;> rfl

theorem container? : c'.container? = c.container? := by
  obtain ⟨heads, rfl, -⟩ := h
  cases c <;> rfl

theorem styles : c'.styles = c.styles.map OpenStyle.crlf := by
  obtain ⟨heads, rfl, -⟩ := h
  cases c <;> rfl

/-- Both are paragraphs or neither is. -/
theorem paragraph_cases :
    (∃ attributes styles, c = .paragraph attributes styles ∧
      c' = .paragraph (attributes.mapValues Text.crlf) (styles.map OpenStyle.crlf)) ∨
    (∀ attributes styles, c ≠ .paragraph attributes styles) ∧
      ∀ attributes styles, c' ≠ .paragraph attributes styles := by
  obtain ⟨heads, rfl, -⟩ := h
  cases c
  case paragraph attributes styles => exact Or.inl ⟨attributes, styles, rfl, rfl⟩
  all_goals
    right
    constructor <;> (intro _ _ heq; cases heq)

/-- Both are tables or neither is. -/
theorem table_cases :
    (∃ attributes given given' token, c = .table attributes given token ∧
      c' = .table (attributes.mapValues Text.crlf) given' (opener move token)) ∨
    (∀ attributes given token, c ≠ .table attributes given token) ∧
      ∀ attributes given token, c' ≠ .table attributes given token := by
  obtain ⟨heads, rfl, -⟩ := h
  cases c
  case table attributes given token => exact Or.inl ⟨attributes, given, heads.head?, token, rfl, rfl⟩
  all_goals
    right
    constructor <;> (intro _ _ _ heq; cases heq)

end Alike

end Construct

@[simp]
theorem Outcome.crlf_beq_complete (move : Nat → Nat) (outcome : Outcome) :
    (outcome.crlf move == .complete) = (outcome == .complete) := by
  rw [Bool.eq_iff_iff, beq_iff_eq, beq_iff_eq]
  cases outcome <;> simp [crlf]

@[simp]
theorem Outcome.crlf_beq_endOfText (move : Nat → Nat) (outcome : Outcome) :
    (outcome.crlf move == .endOfText) = (outcome == .endOfText) := by
  rw [Bool.eq_iff_iff, beq_iff_eq, beq_iff_eq]
  cases outcome <;> simp [crlf]

/-! ### Frames -/

theorem dropTrailingSpace_congr {nodes nodes' : List Node}
    (h : nodes'.map Node.dropReturns = nodes.map Node.dropReturns) :
    (dropTrailingSpace nodes').map Node.dropReturns =
      (dropTrailingSpace nodes).map Node.dropReturns := by
  have hdrop (nodes : List Node) : (dropTrailingSpace nodes).map Node.dropReturns =
      dropTrailingSpace (nodes.map Node.dropReturns) := by
    unfold dropTrailingSpace
    rw [List.dropWhile_map]
    exact congrArg (fun p => (nodes.dropWhile p).map Node.dropReturns)
      (funext fun _ => (Node.isKind_dropReturns _).symm)
  rw [hdrop, h, hdrop]

/-- An open construct and the one in its place in the text with carriage returns. -/
structure Frame.Alike (move : Nat → Nat) (f f' : Frame) : Prop where
  construct : f.construct.Alike move f'.construct
  children : f'.children.map Node.dropReturns = f.children.map Node.dropReturns
  id : f'.id = f.id
  madeFor : f'.madeFor = f.madeFor

/-- The two become the same node. -/
theorem Frame.Alike.toNode {move : Nat → Nat} {f f' : Frame} (h : Frame.Alike move f f') :
    f'.toNode.dropReturns = f.toNode.dropReturns := by
  obtain ⟨⟨heads, hconstruct, hheads⟩, hchildren, -, -⟩ := h
  have hplain := Node.reverse_congr hchildren
  have hparagraphs := Node.markParagraphs_congr hplain
  unfold Frame.toNode
  dsimp only
  rw [hconstruct]
  cases hc : f.construct
  case simpleSection type before =>
    rw [hc] at hheads
    simp only [Construct.crlf, Construct.withHeads, Node.dropReturns_node, hparagraphs, hheads,
      Construct.heads]
  case paramSection sect => exact Node.branch_congr (Node.markParamLists_congr hplain) rfl
  case paramList list types names =>
    rw [hc] at hheads
    simp only [Construct.crlf, Construct.withHeads, Node.dropReturns_node, hparagraphs, hheads,
      Construct.heads]
  case table attributes given token =>
    refine Node.placeCells_congr ?_
    rw [hc] at hheads
    have hcaption : heads.head?.toList.map Node.dropReturns = given.toList.map Node.dropReturns := by
      have hhead := congrArg List.head? hheads
      rw [List.head?_map, List.head?_map] at hhead
      rw [← Option.toList_map, hhead, ← Option.toList_map]
      cases given <;> rfl
    rw [Node.dropReturns_node, Node.dropReturns_node, hplain, hcaption]
    simp [Content.dropReturns]
  case row attributes =>
    exact Node.branch_congr (Node.markCells_congr hplain) (by simp [Content.dropReturns])
  all_goals first
    | exact Node.branch_congr hplain (by simp [Content.dropReturns])
    | exact Node.branch_congr hparagraphs (by simp [Content.dropReturns])

end Parser

end DocMarkup
