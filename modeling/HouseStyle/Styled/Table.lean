import HouseStyle.Styled.Basic

/-! Tables for terminals. Columns are as wide as what stands in them; where a table would be too
wide, the widest columns get one common width and their cells break into lines. -/

namespace HouseStyle

structure Column where
  header : Text
  style : Style := .plain
  deriving Repr, Inhabited

structure Table where
  title : Text
  columns : List Column
  rows : List (List Text)
  deriving Repr, Inhabited

namespace Table

def titleStyle : Style := { italic := true }

def headerStyle : Style := { bold := true, colour := some .magenta }

def blanks (n : Nat) : Text := Text.fill n ' '

/-! ### Cells -/

/-- Cuts what is too wide and marks the cut. -/
def cut (width : Nat) (t : Text) : Text :=
  if t.width ≤ width then t else t.take (width - 1) ++ [.char '…']

/-- Puts words into lines, each as many as fit; `line` is the line so far. -/
def fillLines (width : Nat) (line : Text) : List Text → List Text
  | [] => [line]
  | word :: rest =>
    let longer := line ++ .char ' ' :: word
    if longer.width ≤ width then fillLines width longer rest
    else line :: fillLines width word rest

/-- The lines of a cell; a word that is too wide for a line is cut. -/
def cellLines (width : Nat) (t : Text) : List Text :=
  match t.splitOn (.char ' ') with
  | [] => [[]]
  | word :: rest => (fillLines width word rest).map (cut width)

/-- A line of a cell between a blank on each side; a line that the cell does not have is blank. -/
def cellPieces (style : Style) (width : Nat) : Option Text → Styled
  | some line => [⟨style, blanks 1⟩, ⟨style, line ++ blanks (width - line.width)⟩, ⟨style, blanks 1⟩]
  | none => [⟨style, blanks (width + 2)⟩]

/-- The lines of a row of cells, which are given with their styles and widths. -/
def rowLines (cells : List (Style × Nat × Text)) : List Styled :=
  let cells := cells.map fun (style, width, t) => (style, width, cellLines width t)
  let height := (cells.map fun (_, _, lines) => lines.length).foldl max 0
  (List.range height).map fun i =>
    let parts := cells.map fun (style, width, lines) => cellPieces style width lines[i]?
    Styled.plain (blanks 1) ++ (parts.intersperse (Styled.plain (blanks 1))).flatten ++
      Styled.plain (blanks 1)

/-! ### Widths -/

/-- The widths that the columns would like to have. -/
def naturalWidths (t : Table) : List Nat :=
  let cells := t.columns.map Column.header :: t.rows
  (List.range t.columns.length).map fun i =>
    (cells.map fun row => Text.width (row.getD i [])).foldl max 1

/-- The greatest common limit, from `limit` down, under which the widths fit into the room. -/
def limitFor (room : Nat) (widths : List Nat) : (limit : Nat) → Nat
  | 0 => 0
  | limit + 1 =>
    if total (widths.map (min (limit + 1))) ≤ room then limit + 1 else limitFor room widths limit

/-- The widths of the columns in a table of some width. Each column takes three blanks besides, and
the table one. -/
def widths (t : Table) (size : Nat) : List Nat :=
  let natural := t.naturalWidths
  let room := size - (3 * natural.length + 1)
  natural.map (min (limitFor room natural (natural.foldl max 0)))

/-! ### The whole -/

/-- A text in the middle of a line; an odd blank comes last. -/
def centred (width : Nat) (t : Text) : Text :=
  let left := (width - t.width) / 2
  blanks left ++ t ++ blanks (width - t.width - left)

/-- The lines of a table of some width. -/
def lines (t : Table) (size : Nat) : List Styled :=
  let widths := t.widths size
  let width := total (widths.map (· + 3)) + 1
  let blank := Styled.plain (blanks width)
  let rule := Styled.plain (blanks 1 ++ Text.fill (width - 2) '─' ++ blanks 1)
  let row (cells : List (Style × Text)) : List Styled :=
    rowLines ((cells.zip widths).map fun ((style, text), width) => (style, width, text))
  List.flatten [
    [[⟨titleStyle, centred width t.title⟩], blank],
    row (t.columns.map fun c => (headerStyle, c.header)),
    [rule],
    t.rows.flatMap fun cells => row ((t.columns.zip cells).map fun (c, text) => (c.style, text)),
    [blank]]

end Table
end HouseStyle
