import Chronograph.Code.Literal
import Chronograph.Code.Tree
import Chronograph.Module.Acceptance
import Chronograph.Module.Event

/-!
# Tensor buffers

Every constant and every intermediate tensor gets a verdict of its own: it is
declared as a buffer, it is skipped, or it is a fault of the graph.  A type that
is not declared is skipped without a look at the shape; a tensor without
elements is skipped too, because an array cannot be empty.  `settle` walks the
verdicts in order, up to the first fault.
-/

namespace Chronograph

/-- The name of a tensor's buffer. -/
def bufferName (tensor : String) : String := "tensor_" ++ tensor

/-- The buffer of a tensor. -/
structure Buffer where
  tensor : String
  type : ElementType
  codeType : String
  length : UInt64
  init : String
  /-- A literal needs the header `cmath`. -/
  nonFinite : Bool := false
deriving DecidableEq

/-- The declaration of a buffer. -/
def Buffer.item (b : Buffer) : Item :=
  .global b.codeType (bufferName b.tensor) (some b.length) (some b.init)

/-- What becomes of a tensor. -/
inductive Verdict where
  | declared (buffer : Buffer)
  | skipped (event : Event)
  | refused (fault : GraphFault)
deriving DecidableEq

/-- A constant is declared with its literals; the data must have as many
elements as the shape asks for. -/
def Constant.verdict (c : Constant) : Verdict :=
  match c.type.codeType? with
  | none => .skipped (.constantTypeSkipped c.name c.type)
  | some codeType =>
    match countElements c.name c.shape with
    | .error fault => .refused fault
    | .ok length =>
      if c.data.length ≠ length.toNat then .refused (.constantSize c.name length c.data.length)
      else if length = 0 then .skipped (.emptyConstantSkipped c.name)
      else .declared {
        tensor := c.name, type := c.type, codeType, length
        init := braced c.data.literals
        nonFinite := c.data.hasNonFinite }

/-- An intermediate tensor is declared with all elements zero. -/
def Tensor.verdict (t : Tensor) : Verdict :=
  match t.type.codeType? with
  | none => .skipped (.intermediateTypeSkipped t.name t.type)
  | some codeType =>
    match countElements t.name t.shape with
    | .error fault => .refused fault
    | .ok length =>
      if length = 0 then .skipped (.emptyIntermediateSkipped t.name)
      else .declared { tensor := t.name, type := t.type, codeType, length, init := "\x7b\x7d" }

/-- The verdicts on a graph's tensors, constants first. -/
def Graph.verdicts (g : Graph) : List Verdict :=
  g.constants.map Constant.verdict ++ g.intermediates.map Tensor.verdict

/-- The buffers of the declared tensors, with the events of the skipped ones, up
to the first fault. -/
def settle : List Verdict → Traced GraphFault (List Buffer)
  | [] => ⟨[], .ok []⟩
  | .declared b :: rest => { settle rest with outcome := (settle rest).outcome.map (b :: ·) }
  | .skipped e :: rest => { settle rest with events := e :: (settle rest).events }
  | .refused f :: _ => ⟨[], .error f⟩

end Chronograph
