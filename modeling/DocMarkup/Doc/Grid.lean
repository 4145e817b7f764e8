import DocMarkup.Doc.Node
import DocMarkup.Number.Read

/-!
The grid of a table.  Cells of a row are placed from left to right; a cell that reaches down from
an earlier row moves the cells behind it to the right.
-/

namespace DocMarkup

namespace Attributes

/-- Rows a cell spans below its own as written; zero when nothing sensible is written. -/
def rowSpan (attributes : Attributes) : Whole :=
  match Whole.read? ((attributes.get? (units "rowspan")).getD []) with
  | some n => if n.isNegative then 0 else n
  | none => 0

/-- Columns a cell takes, one at least. -/
def columnSpan (attributes : Attributes) : Whole :=
  match Whole.read? ((attributes.get? (units "colspan")).getD []) with
  | some n => if Whole.lt n 1 then 1 else n
  | none => 1

end Attributes

namespace Grid

/-- A cell that reaches down: how many rows it still takes, and the column it stands in. -/
structure ActiveSpan where
  rowsLeft : Whole
  column : Whole
  deriving DecidableEq, Repr, Inhabited

/-- How many rows and columns a cell asks for. -/
structure Extent where
  rows : Whole
  columns : Whole
  deriving DecidableEq, Repr, Inhabited

/-- The place in a row: the next free column, and the cells seen, those that reach down from above
included. -/
structure Place where
  column : Whole := 0
  cells : Nat := 0
  deriving DecidableEq, Repr, Inhabited

/-- Moves past the cells that reach down into this row.  The spans are looked at once each, in the
order they were opened. -/
def Place.skip (place : Place) (spans : List ActiveSpan) : Place :=
  spans.foldl (fun place span =>
    if Whole.lt 0 span.rowsLeft && span.column == place.column then
      { column := span.column + 1, cells := place.cells + 1 }
    else place) place

/-- Places the cells of a row: their columns, the place behind the last one, and the spans open
now. -/
def placeRow (spans : List ActiveSpan) (place : Place) :
    List Extent → List Whole × Place × List ActiveSpan
  | [] => ([], place, spans)
  | cell :: rest =>
    let here := place.skip spans
    let spans :=
      if Whole.lt 0 cell.rows then spans ++ [{ rowsLeft := cell.rows, column := here.column }]
      else spans
    let next : Place := { column := here.column + cell.columns, cells := here.cells + 1 }
    let (columns, final, spans) := placeRow spans next rest
    (here.column :: columns, final, spans)

/-- The spans as the next row sees them. -/
def endRow (spans : List ActiveSpan) : List ActiveSpan :=
  spans.map fun span =>
    if Whole.lt 0 span.rowsLeft then { span with rowsLeft := span.rowsLeft.pred } else span

/-- A row that has been placed: the columns of its cells, the number of visible cells, and the
first column behind them. -/
structure PlacedRow where
  columns : List Whole
  visibleCells : Nat
  width : Whole
  deriving DecidableEq, Repr, Inhabited

def placeRows (spans : List ActiveSpan) : List (List Extent) → List PlacedRow
  | [] => []
  | row :: rest =>
    let (columns, final, spans) := placeRow spans {} row
    { columns, visibleCells := final.cells, width := final.column } ::
      placeRows (endRow spans) rest

def width (rows : List PlacedRow) : Whole :=
  rows.foldl (fun width row => Whole.max width row.width) 0

end Grid

namespace Node

/-- What a cell asks for; nothing for other nodes. -/
def extent? (n : Node) : Option Grid.Extent :=
  match n.content with
  | .cell cell =>
    some { rows := cell.attributes.rowSpan, columns := cell.attributes.columnSpan }
  | _ => none

def extents (rows : List Node) : List (List Grid.Extent) :=
  (rows.filter (·.isKind .row)).map fun row => row.children.filterMap extent?

/-- Gives the cells of a row their row and their columns. -/
def numberCells (row : Whole) : List Whole → List Node → List Node
  | _, [] => []
  | columns, n :: rest =>
    match n.content, columns with
    | .cell cell, column :: columns =>
      n.withContent (.cell { cell with row, column }) :: numberCells row columns rest
    | _, columns => n :: numberCells row columns rest

def numberRows (index : Nat) : List Grid.PlacedRow → List Node → List Node
  | _, [] => []
  | placed, n :: rest =>
    match n.content, placed with
    | .row row, here :: placed =>
      let number := Whole.ofNat index
      (n.withContent (.row { row with row := number, visibleCells := here.visibleCells })
        |>.withChildren (numberCells number here.columns n.children)) ::
        numberRows (index + 1) placed rest
    | _, placed => n :: numberRows index placed rest

/-- A table with its cells placed; other nodes stay as they are. -/
def placeCells (n : Node) : Node :=
  match n.content with
  | .table table =>
    let placed := Grid.placeRows [] (extents n.children)
    (n.withContent (.table { table with columns := Grid.width placed })).withChildren
      (numberRows 0 placed n.children)
  | _ => n

/-- A row is a heading row when its first child is a heading cell. -/
def isHeadingRow (n : Node) : Bool :=
  match n.children.head?.map content with
  | some (.cell cell) => cell.isHeading
  | _ => false

end Node

end DocMarkup
