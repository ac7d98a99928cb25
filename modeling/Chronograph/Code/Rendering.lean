import Chronograph.Code.Layout
import Chronograph.Code.Tree
import Chronograph.Text.StringLiteral

/-!
# The text of a code unit

Every item and every statement has a text of its own, and the text of a list
is the texts of its members one after the other: nothing that is written
depends on what was written before.  Statements inside a function or a block
stand one level deeper than it; the items of a namespace do not.
-/

namespace Chronograph

/-- The text of a comment: each line behind two slashes. -/
def renderComment (depth : Nat) (text : String) : Except MarginFault (List Char) := do
  let lines ← (commentLines text.toList).mapM fun line =>
    layOut depth (if line.isEmpty then "//".toList else "// ".toList ++ line)
  return lines.flatten

/-- Code that is printed as it is, with a newline at its end; the empty text
stays empty. -/
def renderVerbatim (text : List Char) : List Char :=
  if text = [] ∨ text.getLast? = some '\n' then text else text ++ ['\n']

/-- The statement that reads the clock. -/
def timerStartText : String := "tp_start = std::chrono::steady_clock::now();"

/-- The statement that stores the time since the clock was read under the name
of an operator, line by line. -/
def timerStopLines (operator : String) : List (List Char) :=
  ["current_execution[\"".toList ++ escapeLiteral operator.toList
      ++ "\"] = static_cast<double>(".toList,
    "    std::chrono::duration_cast<std::chrono::microseconds>(".toList,
    "        std::chrono::steady_clock::now() - tp_start).count());".toList]

/-- That statement as a block: its lines have a margin, and a blank line stands
on each side.  Laying the block out takes both away. -/
def timerStopText (operator : String) : String :=
  String.ofList <| joinLines <|
    [] :: (timerStopLines operator).map (List.replicate 12 ' ' ++ ·) ++ [List.replicate 8 ' ']

/-- The line that opens a block. -/
def openingLine (header : String) : String := if header.isEmpty then "\x7b" else header ++ " \x7b"

mutual

/-- The text of a statement at a depth. -/
def Stmt.render (depth : Nat) : Stmt → Except MarginFault (List Char)
  | .line text => layOut depth text.toList
  | .comment text => renderComment depth text
  | .blank => .ok ['\n']
  | .verbatim text => .ok (renderVerbatim text.toList)
  | .block header body => do
    let opening ← layOut depth (openingLine header).toList
    let inner ← Stmt.renderAll (depth + 1) body
    let closing ← layOut depth ['}']
    return opening ++ inner ++ closing
  | .timerStart _ => layOut depth timerStartText.toList
  | .timerStop _ operator => layOut depth (timerStopText operator).toList

/-- The text of statements at a depth, one after the other. -/
def Stmt.renderAll (depth : Nat) : List Stmt → Except MarginFault (List Char)
  | [] => .ok []
  | s :: rest => do
    let first ← Stmt.render depth s
    let others ← Stmt.renderAll depth rest
    return first ++ others

end

/-- The line that opens a function. -/
def Function.opening (f : Function) : String :=
  f.returns ++ " " ++ f.name ++ "("
    ++ ", ".intercalate (f.params.map fun p => p.type ++ " " ++ p.name) ++ ") \x7b"

/-- The text of a function. -/
def Function.render (f : Function) : Except MarginFault (List Char) := do
  let opening ← layOut 0 f.opening.toList
  let inner ← Stmt.renderAll 1 f.body
  let closing ← layOut 0 ['}']
  return opening ++ inner ++ closing

/-- The line that declares a variable. -/
def globalLine (type name : String) (length : Option UInt64) (init : Option String) : String :=
  let extent := match length with
    | some n => "[" ++ n.toNat.repr ++ "]"
    | none => ""
  let value := match init with
    | some text => " = " ++ text
    | none => ""
  type ++ " " ++ name ++ extent ++ value ++ ";"

mutual

/-- The text of an item. -/
def Item.render : Item → Except MarginFault (List Char)
  | .comment text => renderComment 0 text
  | .header name => layOut 0 ("#include <" ++ name ++ ">").toList
  | .blank => .ok ['\n']
  | .scope name items => do
    let opening ← layOut 0 ("namespace " ++ name ++ " \x7b").toList
    let inner ← Item.renderAll items
    let closing ← layOut 0 ("\x7d  // namespace " ++ name).toList
    return opening ++ inner ++ closing
  | .foreign signature => layOut 0 ("extern \"C\" " ++ signature ++ ";").toList
  | .typeAlias name target => layOut 0 ("using " ++ name ++ " = " ++ target ++ ";").toList
  | .global type name length init => layOut 0 (globalLine type name length init).toList
  | .function f => f.render

/-- The text of items, one after the other. -/
def Item.renderAll : List Item → Except MarginFault (List Char)
  | [] => .ok []
  | item :: rest => do
    let first ← Item.render item
    let others ← Item.renderAll rest
    return first ++ others

end

/-- The text of a unit. -/
def CodeUnit.render (u : CodeUnit) : Except MarginFault String :=
  String.ofList <$> Item.renderAll u.items

end Chronograph
