import Chronograph.Module.Profiled
import Chronograph.Proofs.Module.Flush

/-!
# Which graphs are accepted

A graph can fail in two ways.  Its output may be none that can be returned
(`OutputFault`), or another of its tensors may be refused (`TensorFault`); the
first way comes first.  Among the faults of an output each presumes that those
before it do not apply, and among the tensors the first that is refused decides,
so a graph has at most one `FirstFault`, and it is the one that is reported.

Nothing else of a graph is looked at, and neither are the options
(`map_assemble_eq`).  All of this is said at once in `acceptance_exact`.
-/

namespace Chronograph

/-! ## The output -/

/-- The tensor that a graph's only output names: the first intermediate of that
name. -/
def Designates (g : Graph) (t : Tensor) : Prop :=
  g.outputs = [t.name] ∧
    ∃ before after, g.intermediates = before ++ t :: after ∧ ∀ s ∈ before, s.name ≠ t.name

/-- The tensor that a graph's output names is one of its intermediates. -/
theorem Designates.mem {g : Graph} {t : Tensor} (h : Designates g t) : t ∈ g.intermediates := by
  obtain ⟨-, before, after, hsplit, -⟩ := h
  simp [hsplit]

/-- An output that can be returned. -/
structure SoundOutput (g : Graph) (t : Tensor) : Prop where
  designated : Designates g t
  declared : t.type.Declared
  fits : t.shape.Fits
  nonempty : t.shape.product ≠ 0

/-- Why a graph has no output that can be returned.  Each cause presumes that
those before it do not apply. -/
inductive OutputFault (g : Graph) : GraphFault → Prop
  | count (h : g.outputs.length ≠ 1) : OutputFault g (.outputCount g.outputs.length)
  | notFound {name : String} (houtputs : g.outputs = [name])
      (h : ∀ t ∈ g.intermediates, t.name ≠ name) : OutputFault g (.outputNotFound name)
  | type {t : Tensor} (ht : Designates g t) (h : ¬ t.type.Declared) :
      OutputFault g (.outputType t.name t.type)
  | overflow {t : Tensor} (ht : Designates g t) (htype : t.type.Declared) (h : ¬ t.shape.Fits) :
      OutputFault g (.shapeOverflow t.name)
  | empty {t : Tensor} (ht : Designates g t) (htype : t.type.Declared) (hshape : t.shape.Fits)
      (h : t.shape.product = 0) : OutputFault g (.emptyOutput t.name)

theorem intermediate?_eq_some_iff {g : Graph} {name : String} {t : Tensor} :
    g.intermediate? name = some t ↔ t.name = name ∧
      ∃ before after, g.intermediates = before ++ t :: after ∧ ∀ s ∈ before, s.name ≠ name := by
  rw [Graph.intermediate?, List.find?_eq_some_iff_append]
  simp

theorem intermediate?_eq_none_iff {g : Graph} {name : String} :
    g.intermediate? name = none ↔ ∀ t ∈ g.intermediates, t.name ≠ name := by
  rw [Graph.intermediate?, List.find?_eq_none]
  simp

theorem Designates.output_eq {g : Graph} {t : Tensor} (h : Designates g t) :
    g.output =
      if t.type.codeType?.isNone then .error (.outputType t.name t.type)
      else (countElements t.name t.shape).bind fun n =>
        if n = 0 then .error (.emptyOutput t.name) else .ok t := by
  obtain ⟨houtputs, hfirst⟩ := h
  have hfind : g.intermediate? t.name = some t := intermediate?_eq_some_iff.mpr ⟨rfl, hfirst⟩
  rw [Graph.output, houtputs]
  dsimp only
  rw [hfind]
  rfl

theorem SoundOutput.output_eq {g : Graph} {t : Tensor} (h : SoundOutput g t) :
    g.output = .ok t := by
  obtain ⟨codeType, hcode⟩ := h.declared.exists_codeType?
  obtain ⟨n, hcount⟩ := exists_countElements t.name h.fits
  have hn : n ≠ 0 := by
    intro hzero
    rw [eq_zero_iff_toNat, (countElements_eq_ok_iff.mp hcount).2] at hzero
    exact h.nonempty hzero
  simp [h.designated.output_eq, hcode, hcount, Except.bind, hn]

theorem OutputFault.output_eq {g : Graph} {fault : GraphFault} (h : OutputFault g fault) :
    g.output = .error fault := by
  cases h with
  | count h =>
      unfold Graph.output
      split
      · next hname => rw [hname] at h; exact absurd rfl h
      · rfl
  | notFound houtputs h =>
      rw [Graph.output, houtputs]
      dsimp only
      rw [intermediate?_eq_none_iff.mpr h]
  | type ht h => simp [ht.output_eq, (codeType?_eq_none_iff _).mpr h]
  | overflow ht htype h =>
      obtain ⟨codeType, hcode⟩ := htype.exists_codeType?
      rename_i t
      have hcount : countElements t.name t.shape = .error (.shapeOverflow t.name) :=
        countElements_eq_error_iff.mpr ⟨h, rfl⟩
      simp [ht.output_eq, hcode, hcount, Except.bind]
  | empty ht htype hshape h =>
      obtain ⟨codeType, hcode⟩ := htype.exists_codeType?
      rename_i t
      obtain ⟨n, hcount⟩ := exists_countElements t.name hshape
      have hn : n = 0 := by rw [eq_zero_iff_toNat, (countElements_eq_ok_iff.mp hcount).2, h]
      simp [ht.output_eq, hcode, hcount, Except.bind, hn]

/-- Every graph has a sound output or a fault of its output. -/
theorem soundOutput_or_fault (g : Graph) :
    (∃ t, SoundOutput g t) ∨ ∃ fault, OutputFault g fault := by
  by_cases hlength : g.outputs.length = 1
  · obtain ⟨name, hname⟩ := List.length_eq_one_iff.mp hlength
    cases hfind : g.intermediate? name with
    | none => exact .inr ⟨_, .notFound hname (intermediate?_eq_none_iff.mp hfind)⟩
    | some t =>
        obtain ⟨rfl, hfirst⟩ := intermediate?_eq_some_iff.mp hfind
        have ht : Designates g t := ⟨hname, hfirst⟩
        by_cases htype : t.type.Declared
        · by_cases hshape : t.shape.Fits
          · by_cases hzero : t.shape.product = 0
            · exact .inr ⟨_, .empty ht htype hshape hzero⟩
            · exact .inl ⟨t, ht, htype, hshape, hzero⟩
          · exact .inr ⟨_, .overflow ht htype hshape⟩
        · exact .inr ⟨_, .type ht htype⟩
  · exact .inr ⟨_, .count hlength⟩

theorem output_eq_ok_iff {g : Graph} {t : Tensor} : g.output = .ok t ↔ SoundOutput g t := by
  constructor
  · intro h
    rcases soundOutput_or_fault g with ⟨s, hs⟩ | ⟨fault, hfault⟩
    · rw [hs.output_eq] at h
      cases h
      exact hs
    · rw [hfault.output_eq] at h
      cases h
  · exact SoundOutput.output_eq

theorem output_eq_error_iff {g : Graph} {fault : GraphFault} :
    g.output = .error fault ↔ OutputFault g fault := by
  constructor
  · intro h
    rcases soundOutput_or_fault g with ⟨s, hs⟩ | ⟨other, hother⟩
    · rw [hs.output_eq] at h
      cases h
    · rw [hother.output_eq] at h
      cases h
      exact hother
  · exact OutputFault.output_eq

/-! ## The other tensors -/

/-- Whether no tensor but the output is in the way of a unit. -/
structure SoundTensors (g : Graph) : Prop where
  constants : ∀ c ∈ g.constants, c.type.Declared → c.shape.Fits ∧ c.data.length = c.shape.product
  intermediates : ∀ t ∈ g.intermediates, t.type.Declared → t.shape.Fits

/-- The first tensor that is refused, constants before intermediates. -/
inductive TensorFault (g : Graph) : GraphFault → Prop
  | constant {before after : List Constant} {c : Constant} {fault : GraphFault}
      (hsplit : g.constants = before ++ c :: after)
      (hbefore : ∀ b ∈ before, ∀ other, ¬ b.Refused other) (hc : c.Refused fault) :
      TensorFault g fault
  | intermediate {before after : List Tensor} {t : Tensor} {fault : GraphFault}
      (hconstants : ∀ c ∈ g.constants, ∀ other, ¬ c.Refused other)
      (hsplit : g.intermediates = before ++ t :: after)
      (hbefore : ∀ b ∈ before, ∀ other, ¬ b.Refused other) (ht : t.Refused fault) :
      TensorFault g fault

theorem Constant.not_refused_iff {c : Constant} :
    (∀ fault, ¬ c.Refused fault) ↔
      (c.type.Declared → c.shape.Fits ∧ c.data.length = c.shape.product) := by
  constructor
  · intro h htype
    have hshape : c.shape.Fits := by
      by_contra hshape
      exact h _ (.overflow htype hshape)
    refine ⟨hshape, ?_⟩
    by_contra hlength
    obtain ⟨n, hcount⟩ := exists_countElements c.name hshape
    exact h _ (.size htype hshape hlength (countElements_eq_ok_iff.mp hcount).2)
  · rintro h fault (⟨htype, hshape⟩ | ⟨htype, -, hlength, -⟩)
    · exact hshape (h htype).1
    · exact hlength (h htype).2

theorem Tensor.not_refused_iff {t : Tensor} :
    (∀ fault, ¬ t.Refused fault) ↔ (t.type.Declared → t.shape.Fits) := by
  constructor
  · intro h htype
    by_contra hshape
    exact h _ (.overflow htype hshape)
  · rintro h fault ⟨htype, hshape⟩
    exact hshape (h htype)

theorem noneRefused_verdicts_iff {g : Graph} :
    NoneRefused g.verdicts ↔
      (∀ c ∈ g.constants, ∀ fault, ¬ c.Refused fault) ∧
        ∀ t ∈ g.intermediates, ∀ fault, ¬ t.Refused fault := by
  simp [NoneRefused, Graph.verdicts, or_imp, forall_and, Constant.verdict_refused_iff,
    Tensor.verdict_refused_iff]

theorem soundTensors_iff {g : Graph} : SoundTensors g ↔ NoneRefused g.verdicts := by
  simp only [noneRefused_verdicts_iff, Constant.not_refused_iff, Tensor.not_refused_iff]
  exact ⟨fun h => ⟨h.constants, h.intermediates⟩, fun h => ⟨h.1, h.2⟩⟩

/-- The first refusal in a table is that of its first entry that is refused. -/
theorem settle_map_eq_error_iff {α : Type} {f : α → Verdict} {table : List α} {fault : GraphFault} :
    (settle (table.map f)).outcome = .error fault ↔
      ∃ before x after, table = before ++ x :: after ∧
        (∀ b ∈ before, ∀ other, f b ≠ .refused other) ∧ f x = .refused fault := by
  rw [settle_eq_error_iff]
  constructor
  · rintro ⟨verdicts, others, hsplit, hnone⟩
    obtain ⟨before, rest, rfl, rfl, hrest⟩ := List.map_eq_append_iff.mp hsplit
    obtain ⟨x, after, rfl, hx, rfl⟩ := List.map_eq_cons_iff.mp hrest
    exact ⟨before, x, after, rfl, fun b hb => hnone _ (List.mem_map_of_mem hb), hx⟩
  · rintro ⟨before, x, after, rfl, hnone, hx⟩
    refine ⟨before.map f, after.map f, by simp [hx], ?_⟩
    intro v hv
    obtain ⟨b, hb, rfl⟩ := List.mem_map.mp hv
    exact hnone b hb

/-- **The fault of a graph's tensors** is that of the first one refused. -/
theorem settle_verdicts_eq_error_iff {g : Graph} {fault : GraphFault} :
    (settle g.verdicts).outcome = .error fault ↔ TensorFault g fault := by
  rw [Graph.verdicts, settle_append_eq_error_iff, settle_map_eq_error_iff, settle_map_eq_error_iff]
  have hnone : NoneRefused (g.constants.map Constant.verdict) ↔
      ∀ c ∈ g.constants, ∀ other, ¬ c.Refused other := by
    simp [NoneRefused, Constant.verdict_refused_iff]
  simp only [hnone, ne_eq, Constant.verdict_refused_iff, Tensor.verdict_refused_iff]
  constructor
  · rintro (⟨before, c, after, hsplit, hbefore, hc⟩ |
      ⟨hconstants, before, t, after, hsplit, hbefore, ht⟩)
    · exact .constant hsplit hbefore hc
    · exact .intermediate hconstants hsplit hbefore ht
  · rintro (⟨hsplit, hbefore, hc⟩ | ⟨hconstants, hsplit, hbefore, ht⟩)
    · exact .inl ⟨_, _, _, hsplit, hbefore, hc⟩
    · exact .inr ⟨hconstants, _, _, _, hsplit, hbefore, ht⟩

theorem exists_settle_eq_ok_iff {g : Graph} :
    (∃ buffers, (settle g.verdicts).outcome = .ok buffers) ↔ SoundTensors g := by
  rw [soundTensors_iff]
  constructor
  · rintro ⟨buffers, h⟩
    exact (settle_eq_ok_iff.mp h).1
  · intro h
    exact ⟨_, settle_eq_ok_iff.mpr ⟨h, rfl⟩⟩

/-! ## Units -/

/-- The first fault of a graph: that of its output, and only then that of its
tensors. -/
inductive FirstFault (g : Graph) : GraphFault → Prop
  | output {fault : GraphFault} (h : OutputFault g fault) : FirstFault g fault
  | tensor {t : Tensor} {fault : GraphFault} (ht : SoundOutput g t) (h : TensorFault g fault) :
      FirstFault g fault

theorem exists_assemble_iff {g : Graph} {o : Options} :
    (∃ unit, (assemble g o).outcome = .ok unit) ↔ (∃ t, SoundOutput g t) ∧ SoundTensors g := by
  rw [← exists_settle_eq_ok_iff]
  simp only [assemble_eq_ok_iff, ← output_eq_ok_iff]
  constructor
  · rintro ⟨unit, output, buffers, houtput, hbuffers, -⟩
    exact ⟨⟨output, houtput⟩, buffers, hbuffers⟩
  · rintro ⟨⟨output, houtput⟩, buffers, hbuffers⟩
    exact ⟨_, output, buffers, houtput, hbuffers, rfl⟩

theorem assemble_eq_error_iff {g : Graph} {o : Options} {fault : GraphFault} :
    (assemble g o).outcome = .error fault ↔ FirstFault g fault := by
  have hcases : FirstFault g fault ↔
      g.output = .error fault ∨
        (∃ t, g.output = .ok t) ∧ (settle g.verdicts).outcome = .error fault := by
    simp only [output_eq_error_iff, output_eq_ok_iff, settle_verdicts_eq_error_iff]
    constructor
    · rintro (h | ⟨ht, h⟩)
      · exact .inl h
      · exact .inr ⟨⟨_, ht⟩, h⟩
    · rintro (h | ⟨⟨t, ht⟩, h⟩)
      · exact .output h
      · exact .tensor ht h
  rw [hcases, assemble]
  cases g.output with
  | error other => simp
  | ok t => cases hsettled : (settle g.verdicts).outcome <;> simp [hsettled]

/-- The outcome of an assembly, but for what the unit is, depends on three tables
of the graph. -/
theorem map_assemble_eq (g other : Graph) (o options : Options) :
    (assemble { other with
        constants := g.constants, intermediates := g.intermediates, outputs := g.outputs }
      options).outcome.map (fun _ => ()) = (assemble g o).outcome.map fun _ => () := by
  have houtput : { other with
      constants := g.constants, intermediates := g.intermediates, outputs := g.outputs }.output =
        g.output := rfl
  have hverdicts : { other with
      constants := g.constants, intermediates := g.intermediates, outputs := g.outputs }.verdicts =
        g.verdicts := rfl
  rw [assemble, assemble, houtput, hverdicts]
  cases g.output with
  | error fault => rfl
  | ok output => cases hsettled : (settle g.verdicts).outcome <;> simp [hsettled, Except.map]

/-- The outcome of a generation is that of the assembly, but for what is made. -/
theorem map_generate_eq (g : Graph) (o : Options) :
    (generate g o).outcome.map (fun _ => ()) =
      ((assemble g o).outcome.map fun _ => ()).mapError .graph := by
  cases hunit : (assemble g o).outcome with
  | error fault =>
      rw [generate_eq_error_iff.mpr ⟨fault, rfl, hunit⟩]
      rfl
  | ok unit =>
      obtain ⟨text, htext⟩ := exists_generate_iff.mpr ⟨unit, hunit⟩
      rw [htext]
      rfl

/-! ## Accepted graphs -/

theorem ofGraph_eq_error_iff {g : Graph} {fault : GraphFault} :
    ProfiledGraph.ofGraph g = .error fault ↔ OutputFault g fault := by
  rw [← output_eq_error_iff, ProfiledGraph.ofGraph]
  split <;> simp [*]

theorem graph_eq_of_ofGraph {g : Graph} {p : ProfiledGraph} (h : ProfiledGraph.ofGraph g = .ok p) :
    p.graph = g := by
  rw [ProfiledGraph.ofGraph] at h
  split at h
  · cases h
    rfl
  · cases h

/-- A graph with a sound output has the fault of its tensors and no other. -/
theorem SoundOutput.firstFault_iff {g : Graph} {t : Tensor} {fault : GraphFault}
    (h : SoundOutput g t) : FirstFault g fault ↔ TensorFault g fault := by
  constructor
  · rintro (hfault | ⟨-, hfault⟩)
    · have := hfault.output_eq
      rw [h.output_eq] at this
      cases this
    · exact hfault
  · exact .tensor h

/-- An accepted graph has no unit only if one of its tensors is refused. -/
theorem ProfiledGraph.assemble_eq_error_iff {p : ProfiledGraph} {fault : GraphFault} :
    p.assemble.outcome = .error fault ↔ TensorFault p.graph fault := by
  rw [ProfiledGraph.assemble, Chronograph.assemble_eq_error_iff,
    (output_eq_ok_iff.mp p.accepted).firstFault_iff]

/-- The faults that tensors are refused for. -/
inductive SizeFault : GraphFault → Prop
  | constant (name : String) (expected : UInt64) (actual : Nat) :
      SizeFault (.constantSize name expected actual)
  | overflow (name : String) : SizeFault (.shapeOverflow name)

theorem TensorFault.sizeFault {g : Graph} {fault : GraphFault} (h : TensorFault g fault) :
    SizeFault fault := by
  cases h with
  | constant _ _ hc =>
      cases hc with
      | overflow => exact .overflow _
      | size => exact .constant _ _ _
  | intermediate _ _ _ ht =>
      cases ht with
      | overflow => exact .overflow _

/-- **Acceptance.**  A graph has a unit, and a module, exactly if it has a sound
output and all its tensors are sound; otherwise it fails with its first fault.
Whatever else is in the graph, and whatever the options are, the outcome is the
same.  A graph can be wrapped exactly if its output has no fault, and once it is
wrapped it fails only for the size of a tensor. -/
theorem acceptance_exact (g : Graph) (o : Options) :
    ((∃ unit, (assemble g o).outcome = .ok unit) ↔ (∃ t, SoundOutput g t) ∧ SoundTensors g) ∧
    ((∃ text, (generate g o).outcome = .ok text) ↔ (∃ t, SoundOutput g t) ∧ SoundTensors g) ∧
    (∀ fault, (assemble g o).outcome = .error fault ↔ FirstFault g fault) ∧
    (∀ fault, (generate g o).outcome = .error fault ↔
      ∃ cause, fault = .graph cause ∧ FirstFault g cause) ∧
    (∀ (other : Graph) (options : Options),
      let changed := { other with
        constants := g.constants, intermediates := g.intermediates, outputs := g.outputs }
      (assemble changed options).outcome.map (fun _ => ()) =
          (assemble g o).outcome.map (fun _ => ()) ∧
        (generate changed options).outcome.map (fun _ => ()) =
          (generate g o).outcome.map (fun _ => ())) ∧
    (∀ fault, ProfiledGraph.ofGraph g = .error fault ↔ OutputFault g fault) ∧
    ((∃ p, ProfiledGraph.ofGraph g = .ok p) ↔ ∃ t, SoundOutput g t) ∧
    (∀ p, ProfiledGraph.ofGraph g = .ok p → ∀ fault,
      ((p.withOptions o).assemble.outcome = .error fault ↔ TensorFault g fault) ∧
      ((p.withOptions o).generate.outcome = .error (.graph fault) ↔ TensorFault g fault) ∧
      (TensorFault g fault → SizeFault fault)) := by
  refine ⟨exists_assemble_iff, exists_generate_iff.trans exists_assemble_iff,
    fun _ => assemble_eq_error_iff, ?_, ?_, fun _ => ofGraph_eq_error_iff, ?_, ?_⟩
  · intro fault
    simp only [generate_eq_error_iff, assemble_eq_error_iff]
  · intro other options
    have hassemble := map_assemble_eq g other o options
    exact ⟨hassemble, by simp only [map_generate_eq, hassemble]⟩
  · simp only [← output_eq_ok_iff, ProfiledGraph.ofGraph]
    split <;> simp [*]
  · intro p hp fault
    have hassemble : (p.withOptions o).assemble.outcome = .error fault ↔ TensorFault g fault := by
      rw [ProfiledGraph.assemble_eq_error_iff, ← graph_eq_of_ofGraph hp]
      rfl
    refine ⟨hassemble, ?_, TensorFault.sizeFault⟩
    rw [← hassemble, ProfiledGraph.generate, generate_eq_error_iff]
    simp [ProfiledGraph.assemble]

/-- A graph that can be wrapped, with two tensors that are refused: the constant
has one element of two, and the second intermediate has 2^64 elements. -/
def misfitGraph : Graph where
  name := "misfit"
  constants := [{ name := "W", shape := [2], data := .int32 [7] }]
  intermediates := [{ name := "Y", type := .float, shape := [2] },
    { name := "Z", type := .float, shape := [0x8000000000000000, 2] }]
  outputs := ["Y"]

/-- The graph wrapped. -/
def misfit : ProfiledGraph where
  graph := misfitGraph
  output := { name := "Y", type := .float, shape := [2] }
  accepted := rfl

/-- Its first fault is that of the constant. -/
theorem acceptance_exact_misfit :
    ProfiledGraph.ofGraph misfitGraph = .ok misfit ∧
      (misfit.withOptions { utility := false }).assemble.outcome = .error (.constantSize "W" 2 1) ∧
      SizeFault (.constantSize "W" 2 1) := by
  have hwrapped : ProfiledGraph.ofGraph misfitGraph = .ok misfit := rfl
  have hfits : Shape.Fits [2] := by
    intro k
    cases k with
    | zero => decide
    | succ k => simp [Shape.product]
  let weights : Constant := { name := "W", shape := [2], data := .int32 [7] }
  have htype : weights.type.Declared := .inr (.inr (.inl rfl))
  have hrefused : weights.Refused (.constantSize "W" 2 1) := .size htype hfits (by decide) rfl
  have hsplit : misfitGraph.constants = [] ++ [weights] := rfl
  have hfault : TensorFault misfitGraph (.constantSize "W" 2 1) :=
    .constant hsplit (by simp) hrefused
  obtain ⟨-, -, -, -, -, -, -, hlater⟩ := acceptance_exact misfitGraph { utility := false }
  obtain ⟨hassemble, -, hsize⟩ := hlater misfit hwrapped (.constantSize "W" 2 1)
  exact ⟨hwrapped, hassemble.mpr hfault, hsize hfault⟩

end Chronograph
