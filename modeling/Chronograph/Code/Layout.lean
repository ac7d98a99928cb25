import Chronograph.Text.Blank
import Chronograph.Text.Bytes
import Chronograph.Text.Lines

/-!
# The layout of blocks

Generated code is laid out block by block.  A block is a text of one or more
lines; its **margin** is the least number of spaces and tabs that start one of
its lines, blank lines aside.  Laying a block out at a depth takes the margin
off every line and puts two spaces for each level of depth in front, so that
the lines keep their places relative to each other.  A blank first line and a
blank last line are dropped, and a blank line between is written empty.

The margin is taken off in bytes, and also off blank lines.  A line that is
not blank starts with at least that many spaces or tabs, of one byte each; but
a blank line may start with a longer character, and a margin that ends inside
it is a fault.
-/

namespace Chronograph

/-- The margin of a block ends inside a character of a blank line. -/
structure MarginFault where
  line : List Char
  margin : Nat
deriving DecidableEq, Repr

/-- A space or a tab. -/
def isIndent (c : Char) : Bool := c == ' ' || c == '\t'

/-- The number of spaces and tabs that start a line. -/
def indentOf (line : List Char) : Nat := (line.takeWhile isIndent).length

/-- The lines of a block without a blank first line, and then without a blank
last line. -/
def keptLines (block : List Char) : List (List Char) :=
  let lines := splitLines block
  let lines := match lines with
    | first :: rest => if isBlankText first then rest else lines
    | [] => []
  match lines.getLast? with
  | some last => if isBlankText last then lines.dropLast else lines
  | none => []

/-- The margin of some lines: the least indent of one that is not blank, and
zero if all are blank. -/
def marginOf (lines : List (List Char)) : Nat :=
  ((lines.filter fun line => !isBlankText line).map indentOf).min?.getD 0

/-- A line without the bytes of the margin; a line of fewer bytes stays. -/
def cutMargin (margin : Nat) (line : List Char) : Except MarginFault (List Char) :=
  if margin ≤ byteLength line then
    match dropBytes margin line with
    | some rest => .ok rest
    | none => .error ⟨line, margin⟩
  else .ok line

/-- A line with its newline at a depth; a blank line is written empty. -/
def indentLine (depth : Nat) (line : List Char) : List Char :=
  if isBlankText line then ['\n'] else List.replicate (2 * depth) ' ' ++ line ++ ['\n']

/-- A block laid out at a depth.  The empty text is no block and writes
nothing. -/
def layOut (depth : Nat) (block : List Char) : Except MarginFault (List Char) :=
  if block.isEmpty then .ok []
  else do
    let lines := keptLines block
    let cut ← lines.mapM (cutMargin (marginOf lines))
    return cut.flatMap (indentLine depth)

end Chronograph
