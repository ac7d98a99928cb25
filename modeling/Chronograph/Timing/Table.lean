import Chronograph.Decimal.Notation
import Chronograph.Timing.Summary

/-!
# Tables

A summary as a table: a header, a rule, a line for each row and a line for the
total.  The column of names is as wide as the longest name, in characters, and
at least as wide as its header; numbers are aligned to the right in columns of
a least width.
-/

namespace Chronograph

/-- A text with spaces behind it up to a width. -/
def padRight (width : Nat) (s : List Char) : List Char := s ++ List.replicate (width - s.length) ' '

/-- A text with spaces before it up to a width. -/
def padLeft (width : Nat) (s : List Char) : List Char := List.replicate (width - s.length) ' ' ++ s

/-- The width of the column of names. -/
def nameWidth (rows : List Row) : Nat :=
  rows.foldl (fun w r => max w r.name.toList.length) "operator".toList.length

/-- A time in its column. -/
def timeCell (x : Float) : List Char := padLeft 12 (placesText 3 x.toModel.unpack)

/-- The lines of a table: header, rule, rows and total. -/
def tableLines (rows : List Row) (calls : Nat) : List (List Char) :=
  let width := nameWidth rows
  [padRight width "operator".toList ++ [' ', ' '] ++ padLeft 12 "mean_us".toList ++ [' ', ' ']
      ++ padLeft 7 "share".toList,
    List.replicate (width + 23) '-']
  ++ rows.map (fun r =>
    padRight width r.name.toList ++ [' ', ' '] ++ timeCell r.mean.toFloat ++ [' ', ' ']
      ++ padLeft 6 (placesText 2 r.percent.toModel.unpack) ++ ['%'])
  ++ [padRight width "total".toList ++ [' ', ' '] ++ timeCell (sumOf (rows.map (·.mean)))
      ++ "  (".toList ++ digitsOf calls ++ " calls)".toList]

/-- The table of some rows over a number of runs. -/
def table (rows : List Row) (calls : Nat) : String :=
  String.ofList ((tableLines rows calls).flatMap fun line => line ++ ['\n'])

end Chronograph
