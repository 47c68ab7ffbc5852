import Phrasebook.Text.Columns
import Phrasebook.Text.Split

/-!
# Grids of text

A grid in a frame: a row of titles, a double line, and the other rows. Every column is as wide as
its widest line, and a cell with several lines takes as many lines of the grid.
-/

namespace Phrasebook.Text.Grid

/-- The lines of a cell. -/
def cellLines (cell : String) : List String :=
  (splitAt '\n' cell.toList).map String.ofList

/-- How wide a cell is. -/
def cellWidth (cell : String) : Nat :=
  ((cellLines cell).map columns).foldl max 0

/-- The greater of two widths in each column. -/
def wider : List Nat → List Nat → List Nat
  | m :: ms, n :: ns => max m n :: wider ms ns
  | ms, [] => ms
  | [], ns => ns

/-- The widths of the columns. -/
def widths (rows : List (List String)) : List Nat :=
  (rows.map (·.map cellWidth)).foldl wider []

/-- A line with blanks up to a width. -/
def pad (width : Nat) (line : String) : String :=
  line ++ String.ofList (List.replicate (width - columns line) ' ')

/-- A line of the grid, from the lines of its cells. -/
def frameLine (widths : List Nat) (cells : List String) : String :=
  "│ " ++ "   ".intercalate ((widths.zip cells).map fun (width, cell) => pad width cell) ++ " │"

/-- The lines of a row. -/
def rowLines (widths : List Nat) (row : List String) : List String :=
  let cells := row.map cellLines
  let height := (cells.map List.length).foldl max 0
  (List.range height).map fun i => frameLine widths (cells.map fun lines => (lines[i]?).getD "")

/-- A line of the frame. -/
def edge (widths : List Nat) (left line right : Char) : String :=
  let length := widths.foldr (· + ·) 0 + 3 * widths.length - 1
  String.ofList (left :: List.replicate length line ++ [right])

/-- A grid with its titles. -/
def render (titles : List String) (rows : List (List String)) : String :=
  let widths := widths (titles :: rows)
  "\n".intercalate <|
    edge widths '┌' '─' '┐' :: rowLines widths titles ++ edge widths '╞' '═' '╡' ::
      rows.flatMap (rowLines widths) ++ [edge widths '└' '─' '┘']

end Phrasebook.Text.Grid
