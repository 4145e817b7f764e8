import DocMarkup.Parser.Step
import DocMarkup.Proofs.Doc.Grammar
import DocMarkup.Proofs.Scanner.Progress

/-!
What a step can do to the open constructs: work on the innermost one, begin another in it, or end
it.  All handlers of tokens are made of these three.
-/

namespace DocMarkup.Parser

namespace Construct

/-- The kind of node that a construct becomes. -/
def kind : Construct → Kind
  | root _ => .root
  | sect _ => .sect
  | paragraph .. => .paragraph
  | simpleSection .. => .simpleSection
  | paramSection _ => .paramSection
  | paramList .. => .paramList
  | xrefItem _ => .xrefItem
  | autoList .. => .autoList
  | autoListItem _ => .autoListItem
  | simpleList => .simpleList
  | simpleListItem => .simpleListItem
  | internal => .internal
  | parBlock _ => .parBlock
  | refList _ => .refList
  | list .. => .list
  | listItem _ => .listItem
  | descList .. => .descList
  | descTitle _ => .descTitle
  | descData _ => .descData
  | table .. => .table
  | row _ => .row
  | cell .. => .cell
  | caption .. => .caption
  | blockQuote .. => .blockQuote
  | header .. => .header
  | hyperlink .. => .hyperlink
  | link .. => .link

/-- What stands in front of the children of a construct. -/
def heads : Construct → List Node
  | simpleSection _ heads => heads
  | paramList _ _ names => names
  | table _ given _ => given.toList
  | _ => []

/-- What a construct can turn into while it is open: paragraphs change their styles and attributes,
lists the number of their next item. -/
inductive GoesOn : Construct → Construct → Prop
  | paragraph (attributes attributes' : Attributes) (styles styles' : List OpenStyle) :
      GoesOn (.paragraph attributes styles) (.paragraph attributes' styles')
  | autoList (list : AutoList) (next next' : Whole) :
      GoesOn (.autoList list next) (.autoList list next')
  | list (list : MarkupList) (next next' : Whole) (opener : Token) :
      GoesOn (.list list next opener) (.list list next' opener)

theorem GoesOn.kind {c c' : Construct} (h : c.GoesOn c') : c'.kind = c.kind := by
  cases h <;> rfl

end Construct

/-- The grammar with captions, which are read inside their tables but not listed there. -/
def mayHold (outer inner : Kind) : Bool :=
  outer.lists inner || outer == .table && inner == .caption

/-! ### Nodes made whole -/

/-- Contents of nodes that a step makes without anything below them.  Include steps and changes of
style depend on what is around them. -/
def isWhole : Content → Bool
  | .symbol name => Symbol.isKnown name
  | .hyperlink _ | .image _ | .copy _ => true
  | .includeStep _ | .styleChange _ => false
  | content => !content.kind.isComposite

theorem head?_dropTrailingSpace {children : List Node} {last : Node}
    (h : last ∈ (dropTrailingSpace children).head?) : last.kind ≠ .whiteSpace := by
  intro hspace
  have hhead := List.head?_dropWhile_not (·.isKind .whiteSpace) children
  rw [← dropTrailingSpace, Option.mem_def.1 h] at hhead
  exact absurd hspace (by simpa [Node.isKind] using hhead)

theorem mem_dropTrailingSpace {children : List Node} {n : Node} (hn : n ∈ children)
    (hspace : n.kind ≠ .whiteSpace) : n ∈ dropTrailingSpace children := by
  rw [← List.takeWhile_append_dropWhile (p := (·.isKind .whiteSpace)) (l := children)] at hn
  refine (List.mem_append.1 hn).resolve_left fun htaken => hspace ?_
  have hspace := List.mem_takeWhile_imp (p := fun n : Node => n.isKind .whiteSpace) htaken
  exact eq_of_beq hspace

/-- Plain text: words, addresses, known symbols and white space between them. -/
def IsPlainText (nodes : List Node) : Prop :=
  ∀ n ∈ nodes, ∃ content, n = .leaf content ∧ content.kind.isPlain ∧ isWhole content

theorem isPlainText_nil : IsPlainText [] := nofun

theorem IsPlainText.append {nodes more : List Node} (h : IsPlainText nodes)
    (hmore : IsPlainText more) : IsPlainText (nodes ++ more) :=
  fun n hn => (List.mem_append.1 hn).elim (h n) (hmore n)

theorem isPlainText_leaf {content : Content} (hplain : content.kind.isPlain)
    (hwhole : isWhole content) : IsPlainText [.leaf content] :=
  List.forall_mem_singleton.2 ⟨content, rfl, hplain, hwhole⟩

theorem isPlainText_plainNodes (atStart : Bool) {token : Token} (h : token.IsKnown) :
    IsPlainText (plainNodes atStart token) := by
  unfold plainNodes
  split
  · exact isPlainText_leaf rfl rfl
  · split
    · exact isPlainText_nil
    · exact isPlainText_leaf rfl rfl
  · split
    · exact isPlainText_nil
    · exact isPlainText_leaf rfl rfl
  · next hkind => exact isPlainText_leaf rfl (h hkind)
  · exact isPlainText_leaf rfl rfl
  · exact isPlainText_nil
  · dsimp only
    split
    · exact isPlainText_nil
    · exact isPlainText_leaf rfl rfl

theorem isPlainText_plainText {tokens : List Token} (h : ∀ token ∈ tokens, token.IsKnown) :
    IsPlainText (plainText tokens) := by
  have hafter : ∀ before, IsPlainText before → IsPlainText (plainNodesAfter before tokens) := by
    unfold plainNodesAfter
    induction tokens with
    | nil => exact fun _ hbefore => hbefore
    | cons token rest ih =>
        intro before hbefore
        obtain ⟨htoken, hrest⟩ := List.forall_mem_cons.1 h
        refine ih hrest _ (IsPlainText.append ?_ hbefore)
        exact fun n hn => isPlainText_plainNodes _ htoken n (List.mem_reverse.1 hn)
  intro n hn
  exact hafter [] isPlainText_nil n ((List.dropWhile_sublist _).subset (List.mem_reverse.1 hn))

/-- Plain text does not end in white space. -/
theorem plainText_trimmed (tokens : List Token) :
    ∀ last ∈ (plainText tokens).getLast?, last.kind ≠ .whiteSpace := by
  intro last hlast hspace
  rw [plainText, List.getLast?_reverse] at hlast
  exact head?_dropTrailingSpace hlast hspace

/-- Text read apart from the comment is plain. -/
theorem isPlainText_plain (m : Machine) (warn : Bool) (t : Text) : IsPlainText (m.plain warn t).1 :=
  isPlainText_plainText (Scanner.readTokens_isKnown _ _)

/-- Kinds of nodes that are made with plain text below them. -/
def isTitled : Kind → Bool
  | .reference | .internalReference | .image | .diagramFile | .refItem => true
  | _ => false

/-- Nodes that a step makes whole. -/
inductive Made : Node → Prop
  | leaf (content : Content) (flags : NodeFlags) (h : isWhole content)
      (hflags : flags.synthetic = false) : Made (.node content flags [] [] [])
  | titled (content : Content) (text : List Node) (h : isTitled content.kind)
      (htext : IsPlainText text) : Made (.branch content text)
  | keyword (title body : List Node) (htitle : IsPlainText title) (hbody : IsPlainText body)
      (hend : ∀ last ∈ body.getLast?, last.kind ≠ .whiteSpace) :
      Made (.node (.simpleSection .keyword) {} [] [.branch .title title]
        (markParagraphs (if body.isEmpty then [] else [.branch (.paragraph {}) body])))

/-- A construct that is begun with nothing in front of its children but what a step makes. -/
def Construct.IsFresh : Construct → Prop
  | simpleSection type heads =>
    heads = [] ∨ type = .user ∧ ∃ text, heads = [.branch .title text] ∧ IsPlainText text
  | paramList _ types names =>
    ∀ n ∈ types ++ names, ∃ content, n = .leaf content ∧ content.kind.isName
  | table _ given _ => given = none
  | _ => True

theorem Construct.IsFresh.title {type : SimpleSectionType} {heads : List Node}
    (h : (simpleSection type heads).IsFresh) {head : Node} (hhead : head ∈ heads) :
    ∃ text, head = .branch .title text ∧ IsPlainText text := by
  obtain rfl | ⟨-, text, rfl, htext⟩ := h
  · cases hhead
  · exact ⟨text, List.mem_singleton.1 hhead, htext⟩

/-! ### Frames -/

namespace Frame

/-- Something was written into a construct that stays in it: neither white space nor a section that
the next one may go on with. -/
def IsWritten (f : Frame) : Prop :=
  ∃ n ∈ f.children, n.isSynthetic = false ∧ n.kind ≠ .whiteSpace ∧ n.kind ≠ .simpleSection ∧
    n.kind ≠ .paramSection

/-- What a paragraph has been given when it ends: it does not end in white space, and where styles
were closed there is something written before the nodes that close them. -/
structure IsClosed (f : Frame) : Prop where
  filled : f.children ≠ []
  trimmed : ∀ last ∈ f.children.head?, last.kind ≠ .whiteSpace
  written : f.construct.styles ≠ [] → ∃ n ∈ f.children, n.isSynthetic = false

/-- A construct may end and leave its node; a paragraph has been closed before that. -/
def MayEnd (f : Frame) : Prop := f.construct.kind = .paragraph → f.IsClosed

/-- One change to a construct that goes on.  The last style of a paragraph is left by a node that
was written, and nodes made in recovery belong to styles that are open. -/
inductive Changes (f : Frame) : Frame → Prop
  | construct (c : Construct) (h : f.construct.GoesOn c)
      (hstyles : c.styles = [] → f.construct.styles = [] ∨ f.IsWritten) :
      Changes f { f with construct := c }
  | adds (n : Node) (hn : Made n) (hkind : f.construct.kind.lists n.kind) :
      Changes f { f with children := n :: f.children }
  | marks (change : StyleChange) (flags : NodeFlags) (hkind : f.construct.kind.lists .styleChange)
      (hstyle : f.construct.kind = .paragraph ∨ Machine.isInlineStyle change.style)
      (hflags : flags.synthetic → f.construct.styles ≠ []) :
      Changes f
        { f with children := .node (.styleChange change) flags [] [] [] :: f.children }
  | steps (step : IncludeStep) (hkind : f.construct.kind = .paragraph)
      (hfirst : step.isFirst = Machine.beginsRun f.children) (hlast : step.isLast) :
      Changes f
        { f with children := .leaf (.includeStep step) :: Machine.continueRun f.children }
  | trims : Changes f { f with children := dropTrailingSpace f.children }

/-- A construct is worked on. -/
def Fills (f g : Frame) : Prop := Relation.ReflTransGen Changes f g

/-- A construct is begun in another, which may lose its last child to it: a section goes on with
the section of the same kind before it. -/
inductive Begins (parent : Frame) : Frame → Construct → List Node → Prop
  | fresh (c : Construct) (hc : c.IsFresh) (hkind : mayHold parent.construct.kind c.kind) :
      Begins parent parent c []
  | sectionAfter (n : Node) (before : List Node) (type : SimpleSectionType)
      (hkind : parent.construct.kind = .paragraph) (hchildren : parent.children = n :: before)
      (hn : n.content = .simpleSection type) :
      Begins parent { parent with children := before } (.simpleSection type n.heads)
        (.leaf .separator :: n.children.reverse)
  | parametersAfter (n : Node) (before : List Node) (sect sect' : ParamSection)
      (hkind : parent.construct.kind = .paragraph) (hchildren : parent.children = n :: before)
      (hn : n.content = .paramSection sect) :
      Begins parent { parent with children := before } (.paramSection sect') n.children.reverse

/-- What a construct gets from one within it that ends: its node, unless that was an empty
paragraph.  A caption stands in front of the rows of its table, and only the first is kept.  A link
that leads nowhere leaves its text between two changes of style. -/
inductive Receives (outer inner : Frame) : Frame → Prop
  | node (hkind : outer.construct.kind.lists inner.construct.kind)
      (hend : inner.MayEnd) :
      Receives outer inner { outer with children := inner.toNode :: outer.children }
  | nothing (hkind : inner.construct.kind = .paragraph)
      (hempty : ∀ n ∈ inner.children, n.isSynthetic ∨ n.kind = .whiteSpace) :
      Receives outer inner outer
  | caption (attributes : Attributes) (caption : Option Node) (opener : Token)
      (hinner : inner.construct.kind = .caption)
      (houter : outer.construct = .table attributes caption opener) :
      Receives outer inner
        { outer with construct := .table attributes (some inner.toNode) opener }
  | secondCaption (hinner : inner.construct.kind = .caption) : Receives outer inner outer
  | text (before after : StyleChange) (hinner : inner.construct.kind = .link)
      (hkind : outer.construct.kind = .paragraph) :
      Receives outer inner
        { outer with
          children := .leaf (.styleChange after) ::
            (inner.children ++ .leaf (.styleChange before) :: outer.children) }

theorem Changes.keeps {f g : Frame} (h : f.Changes g) :
    g.construct.kind = f.construct.kind ∧ g.id = f.id ∧ g.madeFor = f.madeFor := by
  cases h with
  | construct c h => exact ⟨h.kind, rfl, rfl⟩
  | adds | marks | steps | trims => exact ⟨rfl, rfl, rfl⟩

theorem Fills.keeps {f g : Frame} (h : f.Fills g) :
    g.construct.kind = f.construct.kind ∧ g.id = f.id ∧ g.madeFor = f.madeFor := by
  induction h with
  | refl => exact ⟨rfl, rfl, rfl⟩
  | tail _ hlast ih =>
      obtain ⟨hkind, hid, hmade⟩ := hlast.keeps
      exact ⟨hkind.trans ih.1, hid.trans ih.2.1, hmade.trans ih.2.2⟩

theorem Begins.keeps {parent parent' : Frame} {c : Construct} {children : List Node}
    (h : parent.Begins parent' c children) :
    mayHold parent.construct.kind c.kind ∧ parent'.construct = parent.construct ∧
      parent'.id = parent.id ∧ parent'.madeFor = parent.madeFor := by
  cases h with
  | fresh _ _ hkind => exact ⟨hkind, rfl, rfl, rfl⟩
  | sectionAfter _ _ _ hkind => exact ⟨by rw [hkind]; rfl, rfl, rfl, rfl⟩
  | parametersAfter _ _ _ _ hkind => exact ⟨by rw [hkind]; rfl, rfl, rfl, rfl⟩

theorem Receives.keeps {outer inner outer' : Frame} (h : outer.Receives inner outer') :
    outer'.construct.kind = outer.construct.kind ∧ outer'.id = outer.id ∧
      outer'.madeFor = outer.madeFor := by
  cases h with
  | caption _ _ _ _ houter => exact ⟨by rw [houter]; rfl, rfl, rfl⟩
  | node | nothing | secondCaption | text => exact ⟨rfl, rfl, rfl⟩

theorem kind_toNode (f : Frame) : f.toNode.kind = f.construct.kind := by
  obtain ⟨construct, children, id, madeFor⟩ := f
  cases construct <;> rfl

theorem isSynthetic_toNode (f : Frame) : f.toNode.isSynthetic = false := by
  obtain ⟨construct, children, id, madeFor⟩ := f
  cases construct <;> rfl

end Frame

end DocMarkup.Parser
