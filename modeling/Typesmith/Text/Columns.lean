import Typesmith.Text.Scan

namespace Typesmith.Text

def columnGap : Nat := 2

/-- The width of the cell that heads a run of rows, where `cells` are the widths of a column from a row
on, and rows without the column have none. -/
def runWidth : List (Option Nat) → Nat
  | some w :: rest => max w (runWidth rest)
  | _ => 0

/-- The widths of a column, row by row: in each run of rows that have the column, all get the
greatest. `above` is the greatest width seen in the current run. -/
def spreadWidths (above : Nat) : List (Option Nat) → List (Option Nat)
  | [] => []
  | none :: rest => none :: spreadWidths 0 rest
  | some w :: rest =>
    let widest := max above (max w (runWidth rest))
    some widest :: spreadWidths widest rest

def cellWidth? (column : Nat) (row : List String) : Option Nat :=
  if column + 1 < row.length then row[column]?.map (·.length) else none

def rowText : List String → List Nat → String
  | [], _ => ""
  | [cell], _ => cell
  | cell :: rest, w :: widths =>
    cell ++ String.ofList (List.replicate (w + columnGap - cell.length) ' ') ++ rowText rest widths
  | cell :: rest, [] => cell ++ rowText rest []

def alignRows (rows : List (List String)) : String :=
  let columns := (rows.map List.length).foldl max 0
  let widths := (List.range columns).map fun c => spreadWidths 0 (rows.map (cellWidth? c))
  let lines := rows.mapIdx fun i row => rowText row (widths.map fun ws => ((ws[i]?).join).getD 0) ++ "\n"
  join "" lines

end Typesmith.Text
