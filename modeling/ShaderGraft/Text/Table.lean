import ShaderGraft.Text.Glyph

/-!
Tables of text. A tab ends a cell, and a cell is padded with blanks to the width of its column plus
two. A column is a run of consecutive lines that have a cell there besides their last one, which is
never padded. A form feed ends the table and starts another one, and text between two bytes 0xff
stays as it is.
-/

namespace ShaderGraft.Text.Table

/-- A cell: its text and its width. -/
structure Cell where
  text : Bytes
  width : Nat
deriving DecidableEq, Repr

/-- A cell with the given text. The two bytes around escaped text have no width. -/
def Cell.ofBytes (text : Bytes) : Cell :=
  { text, width := Text.width text - 2 * (text.count 0xff / 2) }

/-- A text that is split into tables up to some byte. All lists are backwards. -/
structure Split where
  /-- Whether an opening 0xff is still open. -/
  escaped : Bool := false
  cell : Bytes := []
  line : List Cell := []
  lines : List (List Cell) := []
  tables : List (List (List Cell)) := []

namespace Split

/-- Ends the cell. -/
def endCell (s : Split) : Split :=
  { s with cell := [], line := Cell.ofBytes s.cell.reverse :: s.line }

/-- Ends the line, and with it the cell. -/
def endLine (s : Split) : Split :=
  let s := s.endCell
  { s with line := [], lines := s.line.reverse :: s.lines }

/-- Ends the table, and with it the line. -/
def endTable (s : Split) : Split :=
  let s := s.endLine
  { s with lines := [], tables := s.lines.reverse :: s.tables }

/-- Adds a byte. -/
def push (s : Split) (b : UInt8) : Split :=
  let added := { s with cell := b :: s.cell }
  if b == 0xff then { added with escaped := ! s.escaped }
  else if s.escaped then added
  else match b with
    | 9 | 11 => s.endCell
    | 10 => s.endLine
    | 12 => s.endTable
    | _ => added

end Split

/-- The tables of a text, each with its lines. -/
def tables (text : Bytes) : List (List (List Cell)) :=
  (text.foldl Split.push {}).endTable.tables.reverse

/-- A line of a table, of which the cells up to some column are done. -/
structure Row where
  index : Nat
  /-- The text of the cells that are done, backwards. -/
  done : Bytes := []
  rest : List Cell
deriving Repr

/-- Whether the next cell of a row is padded, that is, not its last one. -/
def Row.isPadded (row : Row) : Bool :=
  match row.rest with
  | _ :: _ :: _ => true
  | _ => false

/-- The row with its next cell done and padded to the given width. -/
def Row.pad (width : Nat) (row : Row) : Row :=
  match row.rest with
  | [] => row
  | cell :: rest =>
    { row with
      done := List.replicate (width - cell.width) 32 ++ (cell.text.reverse ++ row.done), rest }

/-- The text of a row, whose last cell is not padded. -/
def Row.text (row : Row) : Bytes :=
  row.done.reverse ++ row.rest.flatMap Cell.text

/-- Pads the next cell of rows that are one column there. -/
def padColumn (rows : List Row) : List Row :=
  let width := rows.foldl (fun w row => max w ((row.rest.head?.map Cell.width).getD 0)) 0
  rows.map (Row.pad (width + 2))

/-- Rows on the way: the columns to be padded next, and the rows that have none. -/
structure Progress where
  columns : List (List Row) := []
  finished : List Row := []

/-- Adds consecutive rows. Each run of those with a padded cell next is a column. `run` are such rows
right before, backwards. -/
def Progress.add (p : Progress) (run : List Row) : List Row → Progress
  | [] => if run.isEmpty then p else { p with columns := run.reverse :: p.columns }
  | row :: rows =>
    if row.isPadded then p.add (row :: run) rows
    else
      let p := if run.isEmpty then p else { p with columns := run.reverse :: p.columns }
      { p with finished := row :: p.finished }.add [] rows

/-- Pads columns, `fuel` of them side by side at most, and gives all rows in any order. -/
def padColumns : (fuel : Nat) → Progress → List Row
  | 0, p => p.columns.flatten ++ p.finished
  | fuel + 1, p =>
    if p.columns.isEmpty then p.finished
    else
      padColumns fuel (p.columns.foldl (fun q rows => q.add [] (padColumn rows))
        { finished := p.finished })

/-- The lines of a table. -/
def renderLines (lines : List (List Cell)) : List Bytes :=
  let rows := lines.zipIdx.map fun (cells, index) => { index, rest := cells }
  let fuel := lines.foldl (fun n cells => max n cells.length) 0
  let done := padColumns fuel (Progress.add {} [] rows)
  (done.mergeSort fun a b => a.index ≤ b.index).map Row.text

/-- Aligns the cells of a text. -/
def render (text : Bytes) : Bytes :=
  List.intercalate [10] ((tables text).flatMap renderLines)

end ShaderGraft.Text.Table
