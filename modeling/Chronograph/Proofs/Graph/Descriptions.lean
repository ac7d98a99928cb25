import Chronograph.Graph.Description
import Chronograph.Proofs.Json.Collections

/-!
# Descriptions come back from their texts

A description is written with all its fields and read again as the same
description (`Description.ofJson_toCompact`).  The proof goes along the formats:
each record is read where it is written, since each of its fields is.  Nothing is
asked of names, bodies, shapes and element types.  Of the numbers of a constant it
is asked that their own texts stand for them (`Json.Number.ComesBack`), which only
some floats fail.
-/

namespace Chronograph

open Json (Reads Puts reads_text reads_word reads_number reads_variant)

theorem ElementType.reads (t : ElementType) : Reads ElementType.read (.text t.name) t := by
  refine reads_variant ?_
  cases t <;> rfl

theorem Shape.reads (shape : Shape) : Reads Shape.read shape.toJson shape :=
  Reads.list_map fun n _ => reads_word n

theorem Tensor.reads (t : Tensor) : Reads Tensor.format.read t.toJson t := by
  have hname := reads_text t.name
  have htype := t.type.reads
  have hshape := t.shape.reads
  refine Puts.reads ?_ (by decide)
  exact .cons (hname.field _) (.cons (htype.field _) (.cons (hshape.field _) (.nil t)))

theorem OperatorDescription.reads (o : OperatorDescription) :
    Reads OperatorDescription.format.read o.toJson o := by
  have hname := reads_text o.name
  have hbody := reads_text o.body
  refine Puts.reads ?_ (by decide)
  exact .cons (hname.field _) (.cons (hbody.field _) (.nil o))

theorem ConstantDescription.reads {c : ConstantDescription} (h : ∀ n ∈ c.data, n.ComesBack) :
    Reads ConstantDescription.format.read c.toJson c := by
  have hname := reads_text c.name
  have htype := c.type.reads
  have hshape := c.shape.reads
  have hdata : Reads (Json.readList Json.readNumber) (.list (c.data.map .number)) c.data :=
    Reads.list_map fun n hn => reads_number (h n hn)
  refine Puts.reads ?_ (by decide)
  exact .cons (hname.field _) (.cons (htype.field _) (.cons (hshape.field _)
    (.cons (hdata.field _) (.nil c))))

theorem Description.reads {d : Description} (h : ∀ c ∈ d.constants, ∀ n ∈ c.data, n.ComesBack) :
    Reads Description.format.read d.toJson d := by
  have hoperators : Reads _ _ d.operators := Reads.list_map fun o _ => o.reads
  have hconstants : Reads _ _ d.constants :=
    Reads.list_map fun c hc => ConstantDescription.reads (h c hc)
  have hintermediates : Reads _ _ d.intermediates := Reads.list_map fun t _ => t.reads
  have hinputs : Reads _ _ d.inputs := Reads.list_map fun t _ => t.reads
  have houtputs : Reads _ _ d.outputs := Reads.list_map fun s _ => reads_text s
  have hroutines : Reads _ _ d.routines := Reads.list_map fun s _ => reads_text s
  refine Puts.reads ?_ (by decide)
  exact .cons ((reads_text d.name).field _) (.cons ((reads_text d.sourceFile).field _)
    (.cons ((reads_text d.parseTime).field _) (.cons (hoperators.field _)
    (.cons (hconstants.field _) (.cons (hintermediates.field _) (.cons (hinputs.field _)
    (.cons (houtputs.field _) (.cons (hroutines.field _) (.nil d)))))))))

/-- **A description comes back** from its compact text: every name, body, shape and
element type as it was, and every number of its constants in kind and value.  Of
the numbers it is asked that a negative one is below zero, and that a float is read
from its own text as that float. -/
theorem Description.ofJson_toCompact {d : Description}
    (h : ∀ c ∈ d.constants, ∀ n ∈ c.data, n.ComesBack) :
    Description.ofJson d.toJson.toCompact = .ok d :=
  (Description.reads h).compact

/-- A description at the limits: texts that need escapes, the largest dimension and
the outermost numbers. -/
def limitDescription : Description where
  name := "\"q\\\n\u0001\u007fé𝄞"
  parseTime := "\t"
  operators := [{ name := "op", body := "" }]
  constants := [{
    name := "k"
    type := .float16
    shape := [0, 0xFFFFFFFFFFFFFFFF]
    data := [.natural 0xFFFFFFFFFFFFFFFF, .negative Int64.minValue,
      .float (Float.ofBits 0x4004000000000000)] }]
  inputs := [{ name := "x", type := .bool, shape := [] }]
  outputs := ["Y"]

/-- It comes back: its float is read from `2.5`. -/
theorem limitDescription_comes_back :
    (∀ c ∈ limitDescription.constants, ∀ n ∈ c.data, n.ComesBack) ∧
      Description.ofJson limitDescription.toJson.toCompact = .ok limitDescription := by
  have h : ∀ c ∈ limitDescription.constants, ∀ n ∈ c.data, n.ComesBack := by
    intro c hc n hn
    obtain rfl := List.mem_singleton.mp hc
    simp only [List.mem_cons, List.not_mem_nil, or_false] at hn
    obtain rfl | rfl | rfl := hn
    · trivial
    · show Int64.minValue < 0
      decide
    · have hspelling : Json.spelling? (Float.ofBits 0x4004000000000000) = some (false, ⟨25, -1⟩) := by
        decide +kernel
      exact Json.IsShort.reread_eq_self ⟨false, _, hspelling, by decide, by decide⟩
  exact ⟨h, Description.ofJson_toCompact h⟩

end Chronograph
