import Chronograph.Proofs.Module.Acceptance

/-!
# What leaves no trace

Some entries of a graph's tables are idle: tensors of a type that is not declared,
tensors without elements, names of routines that are not known or already there.
Wherever such entries are put into the tables, and however many, the graph still has
the same unit and the same module, or the same fault (`generate_padded`).

Each table is read in one way only: by a walk that gives nothing for an idle entry
(`Padded.filterMap_eq`, `settle_padded`), by a search that passes over it
(`Padded.find?_eq`), or by asking whether a name is there (`Padded.mem_or_extra`).  The
size of a tensor is not looked at before its type is, so an idle tensor may also have
a shape that could not be addressed.
-/

namespace Chronograph

/-! ## Padded lists -/

section Lists

variable {α β : Type} {extra : α → Prop} {xs ys : List α}

/-- The second list has the entries of the first, in their order, and extra ones
anywhere between. -/
inductive Padded (extra : α → Prop) : List α → List α → Prop
  | nil : Padded extra [] []
  | keep {xs ys : List α} (x : α) (h : Padded extra xs ys) : Padded extra (x :: xs) (x :: ys)
  | insert {xs ys : List α} {x : α} (hx : extra x) (h : Padded extra xs ys) :
      Padded extra xs (x :: ys)

/-- A walk that gives nothing for an extra entry gives the same. -/
theorem Padded.filterMap_eq {f : α → Option β} (h : Padded extra xs ys)
    (hf : ∀ x, extra x → f x = none) : ys.filterMap f = xs.filterMap f := by
  induction h with
  | nil => rfl
  | keep x h ih => rw [List.filterMap_cons, List.filterMap_cons, ih]
  | insert hx h ih => rw [List.filterMap_cons, hf _ hx, ih]

/-- A search that passes over extra entries finds the same. -/
theorem Padded.find?_eq {p : α → Bool} (h : Padded extra xs ys)
    (hp : ∀ x, extra x → p x = false) : ys.find? p = xs.find? p := by
  induction h with
  | nil => rfl
  | keep x h ih => rw [List.find?_cons, List.find?_cons, ih]
  | insert hx h ih => rw [List.find?_cons, hp _ hx, ih]

theorem Padded.subset (h : Padded extra xs ys) : xs ⊆ ys := by
  induction h with
  | nil => exact List.Subset.refl []
  | keep x h ih => exact List.cons_subset_cons x ih
  | insert hx h ih => exact List.subset_cons_of_subset _ ih

/-- What is in the padded list but not in the first is extra. -/
theorem Padded.mem_or_extra {x : α} (h : Padded extra xs ys) (hx : x ∈ ys) : x ∈ xs ∨ extra x := by
  induction h with
  | nil => cases hx
  | keep y h ih =>
      rcases List.mem_cons.mp hx with rfl | hx
      · exact .inl List.mem_cons_self
      · exact (ih hx).imp_left (List.mem_cons_of_mem y)
  | insert hy h ih =>
      rcases List.mem_cons.mp hx with rfl | hx
      · exact .inr hy
      · exact ih hx

theorem Padded.map {extra' : β → Prop} {f : α → β} (h : Padded extra xs ys)
    (hf : ∀ x, extra x → extra' (f x)) : Padded extra' (xs.map f) (ys.map f) := by
  induction h with
  | nil => exact .nil
  | keep x h ih => exact .keep (f x) ih
  | insert hx h ih => exact .insert (hf _ hx) ih

theorem Padded.append {xs' ys' : List α} (h : Padded extra xs ys) (h' : Padded extra xs' ys') :
    Padded extra (xs ++ xs') (ys ++ ys') := by
  induction h with
  | nil => exact h'
  | keep x h ih => exact .keep x ih
  | insert hx h ih => exact .insert hx ih

end Lists

/-! ## Idle entries -/

/-- A constant of a type that is not declared, whatever its shape and data, or one
without elements. -/
def Constant.Idle (c : Constant) : Prop :=
  ¬ c.type.Declared ∨ (c.shape.elementCount = some 0 ∧ c.data.length = 0)

/-- A tensor of a type that is not declared, whatever its shape, or one without
elements. -/
def Tensor.Idle (t : Tensor) : Prop := ¬ t.type.Declared ∨ t.shape.elementCount = some 0

/-- A verdict that declares nothing and refuses nothing. -/
def Verdict.IsSkip (v : Verdict) : Prop := ∃ event, v = .skipped event

theorem Constant.Idle.isSkip {c : Constant} (h : c.Idle) : c.verdict.IsSkip := by
  rcases h with htype | ⟨hcount, hdata⟩
  · rw [Constant.verdict, (codeType?_eq_none_iff c.type).mpr htype]
    exact ⟨_, rfl⟩
  · cases hcode : c.type.codeType? with
    | none => exact ⟨_, by rw [Constant.verdict, hcode]⟩
    | some codeType =>
        refine ⟨.emptyConstantSkipped c.name, ?_⟩
        simp [Constant.verdict, hcode, countElements, hcount, hdata]

theorem Tensor.Idle.isSkip {t : Tensor} (h : t.Idle) : t.verdict.IsSkip := by
  rcases h with htype | hcount
  · rw [Tensor.verdict, (codeType?_eq_none_iff t.type).mpr htype]
    exact ⟨_, rfl⟩
  · cases hcode : t.type.codeType? with
    | none => exact ⟨_, by rw [Tensor.verdict, hcode]⟩
    | some codeType =>
        refine ⟨.emptyIntermediateSkipped t.name, ?_⟩
        simp [Tensor.verdict, hcode, countElements, hcount]

/-- Verdicts that skip change neither the buffers nor the first fault. -/
theorem settle_padded {verdicts more : List Verdict} (h : Padded Verdict.IsSkip verdicts more) :
    (settle more).outcome = (settle verdicts).outcome := by
  induction h with
  | nil => rfl
  | keep v h ih =>
      cases v with
      | declared b => rw [settle, settle, ih]
      | skipped event => rw [settle, settle, ih]
      | refused fault => rw [settle, settle]
  | insert hv h ih =>
      obtain ⟨event, rfl⟩ := hv
      rw [settle, ih]

/-! ## Padded graphs -/

/-- The second graph is the first with idle entries put into its tables: tensors
that are not declared, intermediates among them only under other names than that of
the output, and names of routines that are not known or that it has already. -/
structure Graph.PaddedTo (g more : Graph) : Prop where
  name : more.name = g.name
  sourceFile : more.sourceFile = g.sourceFile
  parseTime : more.parseTime = g.parseTime
  operators : more.operators = g.operators
  outputs : more.outputs = g.outputs
  constants : Padded Constant.Idle g.constants more.constants
  intermediates : Padded (fun t => t.Idle ∧ g.outputs ≠ [t.name]) g.intermediates more.intermediates
  inputs : Padded (fun t => ¬ t.type.Declared) g.inputs more.inputs
  routines : Padded (fun name => Routine.ofName? name = none ∨ name ∈ g.routines)
    g.routines more.routines

namespace Graph.PaddedTo

variable {g more : Graph}

theorem output_eq (h : g.PaddedTo more) : more.output = g.output := by
  rw [Graph.output, Graph.output, h.outputs]
  cases hname : g.outputs with
  | nil => rfl
  | cons name rest =>
      cases rest with
      | cons second rest => rfl
      | nil =>
          have hfind : more.intermediate? name = g.intermediate? name := by
            refine h.intermediates.find?_eq ?_
            rintro t ⟨-, hother⟩
            rw [hname] at hother
            exact beq_false_of_ne fun heq => hother (by rw [heq])
          dsimp only
          rw [hfind]

theorem verdicts (h : g.PaddedTo more) : Padded Verdict.IsSkip g.verdicts more.verdicts := by
  refine Padded.append ?_ ?_
  · exact h.constants.map fun c hc => hc.isSkip
  · exact h.intermediates.map fun t ht => ht.1.isSkip

theorem codeInputs_eq (h : g.PaddedTo more) : more.codeInputs = g.codeInputs := by
  refine h.inputs.filterMap_eq ?_
  intro t ht
  rw [(codeType?_eq_none_iff t.type).mpr ht]
  rfl

theorem knownRoutines_eq (h : g.PaddedTo more) :
    knownRoutines more.routines = knownRoutines g.routines := by
  refine List.filter_congr ?_
  intro r _
  rw [Bool.eq_iff_iff, List.contains_iff_mem, List.contains_iff_mem]
  constructor
  · intro hmem
    rcases h.routines.mem_or_extra hmem with hmem | hunknown | hmem
    · exact hmem
    · rw [Routine.ofName?_name] at hunknown
      cases hunknown
    · exact hmem
  · exact fun hmem => h.routines.subset hmem

/-- The unit that is made from an output and buffers is the same. -/
theorem moduleUnit_eq (h : g.PaddedTo more) (o : Options) (output : Tensor)
    (buffers : List Buffer) : moduleUnit more o output buffers = moduleUnit g o output buffers := by
  have hscope : routineScope? more.routines = routineScope? g.routines := by
    rw [routineScope?, routineScope?, h.knownRoutines_eq]
  have hinfer : inferFunction more o output = inferFunction g o output := by
    rw [inferFunction, inferFunction, h.codeInputs_eq, h.operators]
  have hitems : moduleItems more o output buffers = moduleItems g o output buffers := by
    rw [moduleItems, moduleItems, hscope, hinfer]
  have hheaders : headers more o output buffers = headers g o output buffers := by
    unfold headers
    rw [h.codeInputs_eq]
  have hprovenance : provenance more = provenance g := by
    unfold provenance
    rw [h.sourceFile, h.parseTime]
  rw [moduleUnit, moduleUnit, moduleName, moduleName, hprovenance, hheaders, h.name, hitems]

theorem assemble_eq (h : g.PaddedTo more) (o : Options) :
    (assemble more o).outcome = (assemble g o).outcome := by
  have hsettled := settle_padded h.verdicts
  rw [assemble, assemble, h.output_eq]
  cases g.output with
  | error fault => rfl
  | ok output =>
      dsimp only
      rw [hsettled]
      cases (settle g.verdicts).outcome with
      | error fault => rfl
      | ok buffers =>
          dsimp only
          rw [h.moduleUnit_eq]

theorem generate_eq (h : g.PaddedTo more) (o : Options) :
    (generate more o).outcome = (generate g o).outcome := by
  rw [generate, generate, h.assemble_eq]
  cases (assemble g o).outcome with
  | error fault => rfl
  | ok unit =>
      dsimp only
      cases unit.render with
      | error fault => rfl
      | ok text => rfl

end Graph.PaddedTo

/-- **Idle entries leave no trace.**  A graph with idle entries put anywhere into its
tables has the unit and the module of the graph without them, or the same fault. -/
theorem generate_padded {g more : Graph} (h : g.PaddedTo more) (o : Options) :
    (assemble more o).outcome = (assemble g o).outcome ∧
      (generate more o).outcome = (generate g o).outcome :=
  ⟨h.assemble_eq o, h.generate_eq o⟩

/-- A graph with an output, a constant and a routine. -/
def plainGraph : Graph where
  name := "plain"
  constants := [{ name := "W", shape := [2], data := .int32 [3, -4] }]
  intermediates := [{ name := "Y", type := .float, shape := [2] }]
  inputs := [{ name := "X", type := .float, shape := [2] }]
  outputs := ["Y"]
  routines := ["Gemm"]

/-- That graph with idle entries in all tables, among them tensors of 2^64 elements,
with more bytes than elements, and of the names of others. -/
def cluttered : Graph :=
  { plainGraph with
    constants := [{ name := "W", shape := [0x8000000000000000, 2], data := .raw .int8 [1, 2] },
      { name := "W", shape := [2], data := .int32 [3, -4] },
      { name := "E", shape := [3, 0], data := .double [] }]
    intermediates := [{ name := "Z", type := .float16, shape := [0x8000000000000000, 2] },
      { name := "Y", type := .float, shape := [2] }, { name := "W", type := .int64, shape := [0] }]
    inputs := [{ name := "X", type := .float, shape := [2] },
      { name := "Y", type := .bool, shape := [] }]
    routines := ["Trsm", "Gemm", "gemm", "Gemm"] }

/-- Both have the same module. -/
theorem generate_padded_cluttered :
    plainGraph.PaddedTo cluttered ∧
      ∃ text, (generate plainGraph {}).outcome = .ok text ∧
        (generate cluttered {}).outcome = .ok text := by
  have hpadded : plainGraph.PaddedTo cluttered := by
    refine ⟨rfl, rfl, rfl, rfl, rfl, ?_, ?_, ?_, ?_⟩
    · exact .insert (.inl (by decide)) (.keep _ (.insert (.inr (by decide)) .nil))
    · exact .insert ⟨.inl (by decide), by decide⟩
        (.keep _ (.insert ⟨.inr (by decide), by decide⟩ .nil))
    · exact .keep _ (.insert (by decide) .nil)
    · exact .insert (.inl (by decide))
        (.keep _ (.insert (.inl (by decide)) (.insert (.inr (by decide)) .nil)))
  have hunit : (assemble plainGraph {}).outcome.isOk = true := by decide +kernel
  obtain ⟨text, htext⟩ := exists_generate_iff.mpr (exists_eq_ok_of_isOk hunit)
  exact ⟨hpadded, text, htext, (generate_padded hpadded {}).2.trans htext⟩

end Chronograph
