import Chronograph.Graph.Tensor
import Chronograph.Text.Placeholder

/-!
# Graphs

A computation graph: operators in the order in which they run, tables of
constants, intermediate and input tensors, the names of the outputs and of the
external routines.  A graph is any such record.  The functions `add…` build one
step by step: in each table of tensors a name occurs once, and a tensor added
under a name that the table has takes the place of the old one.
-/

namespace Chronograph

/-- One operator: a name, under which it is timed, and the code of its body, a
text made from the decimal text of the operator's position. -/
structure Operator where
  name : String
  body : String → String

/-- An operator whose body is a template; the position takes the place of each
placeholder. -/
def Operator.ofTemplate (name body : String) : Operator where
  name := name
  body position := String.ofList (fillTemplate position.toList body.toList)

/-- A computation graph. -/
structure Graph where
  name : String
  sourceFile : String := ""
  parseTime : String := ""
  operators : List Operator := []
  constants : List Constant := []
  intermediates : List Tensor := []
  inputs : List Tensor := []
  outputs : List String := []
  routines : List String := []

/-- The table with `item` in the place of the first entry of its name, or at
the end if no entry has that name. -/
def replaceOrAppend {α : Type} (name : α → String) (item : α) : List α → List α
  | [] => [item]
  | old :: rest =>
    if name old = name item then item :: rest else old :: replaceOrAppend name item rest

namespace Graph

def withSource (g : Graph) (sourceFile parseTime : String) : Graph :=
  { g with sourceFile, parseTime }

def addOperator (g : Graph) (op : Operator) : Graph :=
  { g with operators := g.operators ++ [op] }

def addConstant (g : Graph) (c : Constant) : Graph :=
  { g with constants := replaceOrAppend Constant.name c g.constants }

def addIntermediate (g : Graph) (t : Tensor) : Graph :=
  { g with intermediates := replaceOrAppend Tensor.name t g.intermediates }

def addInput (g : Graph) (t : Tensor) : Graph :=
  { g with inputs := replaceOrAppend Tensor.name t g.inputs }

def addOutput (g : Graph) (name : String) : Graph :=
  { g with outputs := g.outputs ++ [name] }

/-- A routine is listed once, where it was first asked for. -/
def requireRoutine (g : Graph) (routine : String) : Graph :=
  if g.routines.contains routine then g else { g with routines := g.routines ++ [routine] }

/-- The first intermediate tensor of a name. -/
def intermediate? (g : Graph) (name : String) : Option Tensor :=
  g.intermediates.find? (·.name == name)

end Graph

end Chronograph
