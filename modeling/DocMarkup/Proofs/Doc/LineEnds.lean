import DocMarkup.Proofs.Doc.Mapping
import DocMarkup.Proofs.Text.LineEnds

/-!
Trees without what line ends leave in them: the carriage returns in texts that were taken as they
were written, and the offsets at which styles begin and end.
-/

namespace DocMarkup

/-! ### Attributes -/

namespace Attributes

variable {f : Text → Text} (attributes : Attributes)

theorem rowSpan_mapValues (hread : ∀ t, Whole.read? (f t) = Whole.read? t) :
    (attributes.mapValues f).rowSpan = attributes.rowSpan := by
  rw [rowSpan, rowSpan, read?_mapValues attributes hread]

theorem columnSpan_mapValues (hread : ∀ t, Whole.read? (f t) = Whole.read? t) :
    (attributes.mapValues f).columnSpan = attributes.columnSpan := by
  rw [columnSpan, columnSpan, read?_mapValues attributes hread]

end Attributes

/-! ### Contents and trees -/

/-- A content without the carriage returns before line feeds and without the offset it stands at. -/
def Content.dropReturns : Content → Content
  | .whiteSpace written => .whiteSpace (Text.dropReturns written)
  | .anchor name file => .anchor (Text.dropReturns name) file
  | .styleChange c =>
    .styleChange { c with
      position := 0
      attributes := c.attributes.mapValues Text.dropReturns }
  | .verbatim c => .verbatim { c with text := Text.dropReturns c.text }
  | .formula c => .formula { c with text := Text.dropReturns c.text }
  | .paragraph c => .paragraph { c with attributes := c.attributes.mapValues Text.dropReturns }
  | .image c =>
    .image { c with
      name := Text.dropReturns c.name
      url := Text.dropReturns c.url
      attributes := c.attributes.mapValues Text.dropReturns }
  | .hyperlink c =>
    .hyperlink { c with
      url := Text.dropReturns c.url
      attributes := c.attributes.mapValues Text.dropReturns }
  | .list c => .list { c with attributes := c.attributes.mapValues Text.dropReturns }
  | .listItem c => .listItem { c with attributes := c.attributes.mapValues Text.dropReturns }
  | .descList attributes => .descList (attributes.mapValues Text.dropReturns)
  | .descTitle attributes => .descTitle (attributes.mapValues Text.dropReturns)
  | .descData attributes => .descData (attributes.mapValues Text.dropReturns)
  | .table c => .table { c with attributes := c.attributes.mapValues Text.dropReturns }
  | .row c => .row { c with attributes := c.attributes.mapValues Text.dropReturns }
  | .cell c => .cell { c with attributes := c.attributes.mapValues Text.dropReturns }
  | .caption attributes => .caption (attributes.mapValues Text.dropReturns)
  | .blockQuote attributes => .blockQuote (attributes.mapValues Text.dropReturns)
  | .header c => .header { c with attributes := c.attributes.mapValues Text.dropReturns }
  | content => content

@[simp]
theorem Content.kind_dropReturns (content : Content) : content.dropReturns.kind = content.kind := by
  cases content <;> rfl

/-- Carriage returns matter neither to what is marked nor to what a cell spans. -/
theorem Content.keepsStructure_dropReturns :
    Content.KeepsStructure Content.dropReturns (Attributes.mapValues Text.dropReturns) where
  kind := kind_dropReturns
  paragraph _ := rfl
  paramList _ := rfl
  table _ := rfl
  row _ := rfl
  cell _ := rfl
  rowSpan attributes := attributes.rowSpan_mapValues Text.read?_dropReturns
  columnSpan attributes := attributes.columnSpan_mapValues Text.read?_dropReturns

/-- A tree without the carriage returns before line feeds and without offsets. -/
def Node.dropReturns (n : Node) : Node := n.mapContent Content.dropReturns

/-! ### Trees that are the same without carriage returns -/

namespace Node

variable {n n' : Node} {nodes nodes' : List Node} {content content' : Content}

@[simp]
theorem dropReturns_leaf (content : Content) :
    (leaf content).dropReturns = leaf content.dropReturns :=
  mapContent_leaf ..

@[simp]
theorem dropReturns_branch (content : Content) (children : List Node) :
    (branch content children).dropReturns = branch content.dropReturns (children.map dropReturns) :=
  mapContent_branch ..

theorem dropReturns_node (content : Content) (flags : NodeFlags)
    (types heads children : List Node) :
    (Node.node content flags types heads children).dropReturns =
      .node content.dropReturns flags (types.map dropReturns) (heads.map dropReturns)
        (children.map dropReturns) :=
  mapContent_node ..

@[simp]
theorem dropReturns_asSynthetic : n.asSynthetic.dropReturns = n.dropReturns.asSynthetic :=
  mapContent_asSynthetic ..

@[simp]
theorem dropReturns_asPreformatted : n.asPreformatted.dropReturns = n.dropReturns.asPreformatted :=
  mapContent_asPreformatted ..

@[simp]
theorem dropReturns_withContent :
    (n.withContent content).dropReturns = n.dropReturns.withContent content.dropReturns :=
  mapContent_withContent ..

theorem content_dropReturns : n.dropReturns.content = n.content.dropReturns :=
  content_mapContent ..

theorem isKind_dropReturns (kind : Kind) : n.dropReturns.isKind kind = n.isKind kind :=
  Content.keepsStructure_dropReturns.isKind n kind

theorem isSynthetic_dropReturns : n.dropReturns.isSynthetic = n.isSynthetic :=
  isSynthetic_mapContent ..

theorem content_congr (h : n'.dropReturns = n.dropReturns) :
    n'.content.dropReturns = n.content.dropReturns := by
  rw [← content_dropReturns, h, content_dropReturns]

theorem isKind_congr (h : n'.dropReturns = n.dropReturns) (kind : Kind) :
    n'.isKind kind = n.isKind kind := by
  rw [← isKind_dropReturns, h, isKind_dropReturns]

theorem kind_congr (h : n'.dropReturns = n.dropReturns) : n'.kind = n.kind := by
  rw [kind, ← Content.kind_dropReturns, content_congr h, Content.kind_dropReturns, kind]

theorem heads_congr (h : n'.dropReturns = n.dropReturns) :
    n'.heads.map dropReturns = n.heads.map dropReturns := by
  have hheads (n : Node) : n.dropReturns.heads = n.heads.map dropReturns := heads_mapContent ..
  rw [← hheads, h, hheads]

theorem children_congr (h : n'.dropReturns = n.dropReturns) :
    n'.children.map dropReturns = n.children.map dropReturns := by
  have hchildren (n : Node) : n.dropReturns.children = n.children.map dropReturns :=
    children_mapContent ..
  rw [← hchildren, h, hchildren]

theorem placeCells_congr (h : n'.dropReturns = n.dropReturns) :
    n'.placeCells.dropReturns = n.placeCells.dropReturns := by
  have hplace := Content.keepsStructure_dropReturns.placeCells
  rw [dropReturns, ← hplace, ← dropReturns, h, dropReturns, hplace, dropReturns]

section

variable (h : nodes'.map dropReturns = nodes.map dropReturns)
include h

theorem reverse_congr : nodes'.reverse.map dropReturns = nodes.reverse.map dropReturns := by
  rw [List.map_reverse, h, ← List.map_reverse]

theorem isEmpty_congr : nodes'.isEmpty = nodes.isEmpty := by
  rw [← List.isEmpty_map (f := dropReturns), h, List.isEmpty_map]

theorem all_isSynthetic_congr : nodes'.all isSynthetic = nodes.all isSynthetic := by
  have hall (nodes : List Node) : (nodes.map dropReturns).all isSynthetic = nodes.all isSynthetic := by
    rw [List.all_map]
    exact congrArg nodes.all (funext fun _ => isSynthetic_dropReturns)
  rw [← hall, h, hall]

theorem markParagraphs_congr :
    (markParagraphs nodes').map dropReturns = (markParagraphs nodes).map dropReturns := by
  have hmark := Content.keepsStructure_dropReturns.markParagraphs
  exact (hmark nodes').symm.trans ((congrArg markParagraphs h).trans (hmark nodes))

theorem markCells_congr :
    (markCells nodes').map dropReturns = (markCells nodes).map dropReturns := by
  have hmark := Content.keepsStructure_dropReturns.markCells
  exact (hmark nodes').symm.trans ((congrArg markCells h).trans (hmark nodes))

theorem markParamLists_congr :
    (markParamLists nodes').map dropReturns = (markParamLists nodes).map dropReturns := by
  have hmark := Content.keepsStructure_dropReturns.markParamLists
  exact (hmark nodes').symm.trans ((congrArg markParamLists h).trans (hmark nodes))

theorem branch_congr (hcontent : content'.dropReturns = content.dropReturns) :
    (branch content' nodes').dropReturns = (branch content nodes).dropReturns := by
  rw [dropReturns_branch, hcontent, h, dropReturns_branch]

end

end Node

end DocMarkup
