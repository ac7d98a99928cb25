import Chronograph.Graph.Conversion
import Chronograph.Proofs.Graph.Tables

/-!
# Graphs built step by step

A graph is built by steps, each of which adds one entry to one of its tables, in any
order (`Graph.build`).  What a step does to a table is decided by what it adds to it:
all other steps leave the table alone (`table_foldl_build`).  So a table is filled as
if the steps that are meant for it were the only ones (`tables_built`), and a graph
that is described is one that is built, entry by entry (`ofDescription_eq_built`).
-/

namespace Chronograph

/-- A step of building a graph. -/
inductive BuildStep where
  /-- The file that the graph comes from is noted, and the time. -/
  | source (file time : String)
  | operator (op : Operator)
  | constant (c : Constant)
  | intermediate (t : Tensor)
  | input (t : Tensor)
  | output (name : String)
  | routine (name : String)

/-- The graph after a step. -/
def Graph.build (g : Graph) : BuildStep → Graph
  | .source file time => g.withSource file time
  | .operator op => g.addOperator op
  | .constant c => g.addConstant c
  | .intermediate t => g.addIntermediate t
  | .input t => g.addInput t
  | .output name => g.addOutput name
  | .routine name => g.requireRoutine name

/-- The graph that some steps build from the empty one. -/
def Graph.built (name : String) (steps : List BuildStep) : Graph :=
  steps.foldl Graph.build { name }

namespace BuildStep

/-- The file and the time that a step notes. -/
def source? : BuildStep → Option (String × String)
  | source file time => some (file, time)
  | _ => none

/-- The operator that a step adds. -/
def operator? : BuildStep → Option Operator
  | operator op => some op
  | _ => none

/-- The constant that a step adds. -/
def constant? : BuildStep → Option Constant
  | constant c => some c
  | _ => none

/-- The intermediate tensor that a step adds. -/
def intermediate? : BuildStep → Option Tensor
  | intermediate t => some t
  | _ => none

/-- The input that a step adds. -/
def input? : BuildStep → Option Tensor
  | input t => some t
  | _ => none

/-- The output that a step adds. -/
def output? : BuildStep → Option String
  | output name => some name
  | _ => none

/-- The routine that a step asks for. -/
def routine? : BuildStep → Option String
  | routine name => some name
  | _ => none

end BuildStep

/-! ## One table at a time -/

/-- The names of routines with one more, if it is new. -/
def appendNew (names : List String) (n : String) : List String :=
  if n ∈ names then names else names ++ [n]

/-- **What a step does to each table.** -/
theorem build_eq (g : Graph) (step : BuildStep) :
    g.build step = {
      name := g.name
      sourceFile := step.source?.elim g.sourceFile Prod.fst
      parseTime := step.source?.elim g.parseTime Prod.snd
      operators := step.operator?.elim g.operators fun op => g.operators ++ [op]
      constants := step.constant?.elim g.constants fun c =>
        replaceOrAppend Constant.name c g.constants
      intermediates := step.intermediate?.elim g.intermediates fun t =>
        replaceOrAppend Tensor.name t g.intermediates
      inputs := step.input?.elim g.inputs fun t => replaceOrAppend Tensor.name t g.inputs
      outputs := step.output?.elim g.outputs fun name => g.outputs ++ [name]
      routines := step.routine?.elim g.routines (appendNew g.routines) } := by
  cases step with
  | routine name =>
      rw [Graph.build, Graph.requireRoutine]
      by_cases h : name ∈ g.routines <;>
        simp [h, appendNew, BuildStep.source?, BuildStep.operator?, BuildStep.constant?,
          BuildStep.intermediate?, BuildStep.input?, BuildStep.output?, BuildStep.routine?]
  | _ => rfl

/-- A table that a step leaves alone, unless it adds something to it, is filled by the
steps that do. -/
theorem table_foldl_build {α β : Type} (table : Graph → β) (select : BuildStep → Option α)
    (add : β → α → β)
    (h : ∀ g step, table (g.build step) = (select step).elim (table g) (add (table g)))
    (steps : List BuildStep) (g : Graph) :
    table (steps.foldl Graph.build g) = (steps.filterMap select).foldl add (table g) := by
  induction steps generalizing g with
  | nil => rfl
  | cons step steps ih =>
      rw [List.foldl_cons, ih, h]
      cases hstep : select step with
      | none => rw [List.filterMap_cons_none hstep, Option.elim_none]
      | some item => rw [List.filterMap_cons_some hstep, Option.elim_some, List.foldl_cons]

/-- Items that are appended one by one are the list of them. -/
theorem foldl_concat {α : Type} (items : List α) :
    items.foldl (fun table item => table ++ [item]) [] = items := by
  rw [List.foldl_append_eq_append, List.nil_append, ← List.flatMap_def, List.flatMap_singleton']

/-- Names that are appended only where they are new keep the places of their first
occurrences. -/
theorem foldl_appendNew (names : List String) :
    names.foldl appendNew [] = names.eraseDups := by
  induction names using List.reverseRecOn with
  | nil => rfl
  | append_singleton names n ih =>
      rw [List.foldl_concat, ih, eraseDups_concat, appendNew]
      simp only [List.mem_eraseDups]

theorem nodup_foldl_appendNew (names : List String) : (names.foldl appendNew []).Nodup := by
  induction names using List.reverseRecOn with
  | nil => exact List.nodup_nil
  | append_singleton names n ih =>
      rw [List.foldl_concat, appendNew]
      split
      · exact ih
      · next hnew => exact ih.append (List.nodup_singleton n) (List.disjoint_singleton.mpr hnew)

section Tables

variable (name : String) (steps : List BuildStep)

theorem operators_built :
    (Graph.built name steps).operators = steps.filterMap BuildStep.operator? := by
  rw [← foldl_concat (steps.filterMap BuildStep.operator?)]
  refine table_foldl_build Graph.operators _ _ (fun g step => ?_) steps { name }
  rw [build_eq]

theorem constants_built :
    (Graph.built name steps).constants =
      tableOf Constant.name (steps.filterMap BuildStep.constant?) := by
  refine table_foldl_build Graph.constants _ _ (fun g step => ?_) steps { name }
  rw [build_eq]

theorem intermediates_built :
    (Graph.built name steps).intermediates =
      tableOf Tensor.name (steps.filterMap BuildStep.intermediate?) := by
  refine table_foldl_build Graph.intermediates _ _ (fun g step => ?_) steps { name }
  rw [build_eq]

theorem inputs_built :
    (Graph.built name steps).inputs =
      tableOf Tensor.name (steps.filterMap BuildStep.input?) := by
  refine table_foldl_build Graph.inputs _ _ (fun g step => ?_) steps { name }
  rw [build_eq]

theorem outputs_built :
    (Graph.built name steps).outputs = steps.filterMap BuildStep.output? := by
  rw [← foldl_concat (steps.filterMap BuildStep.output?)]
  refine table_foldl_build Graph.outputs _ _ (fun g step => ?_) steps { name }
  rw [build_eq]

theorem routines_built :
    (Graph.built name steps).routines =
      (steps.filterMap BuildStep.routine?).foldl appendNew [] := by
  refine table_foldl_build Graph.routines _ _ (fun g step => ?_) steps { name }
  rw [build_eq]

end Tables

/-! ## Described graphs -/

/-- The steps that build what a description describes, entry by entry: `constants` are
its constants with their elements. -/
def Description.steps (d : Description) (constants : List Constant) : List BuildStep :=
  .source d.sourceFile d.parseTime ::
    (d.operators.map fun o => .operator (.ofTemplate o.name o.body)) ++ constants.map .constant
      ++ d.intermediates.map .intermediate ++ d.inputs.map .input ++ d.outputs.map .output
      ++ d.routines.map .routine

/-- **A described graph is built** from its description, entry by entry. -/
theorem ofDescription_eq_built {d : Description} {g : Graph} (h : Graph.ofDescription d = .ok g) :
    ∃ constants, d.constants.mapM ConstantDescription.toConstant = .ok constants ∧
      g = Graph.built d.name (d.steps constants) := by
  unfold Graph.ofDescription at h
  cases hconstants : d.constants.mapM ConstantDescription.toConstant with
  | error fault =>
      rw [hconstants] at h
      cases h
  | ok constants =>
      rw [hconstants] at h
      cases h
      refine ⟨constants, rfl, ?_⟩
      simp only [Graph.built, Description.steps, List.cons_append, List.foldl_cons,
        List.foldl_append, List.foldl_map]
      rfl

theorem filterMap_constant?_steps (d : Description) (constants : List Constant) :
    (d.steps constants).filterMap BuildStep.constant? = constants := by
  simp [Description.steps, BuildStep.constant?, List.filterMap_cons, Function.comp_def]

/-- **The constants of a described graph** are a table of those of the description. -/
theorem constants_ofDescription {d : Description} {g : Graph}
    (h : Graph.ofDescription d = .ok g) :
    ∃ constants, d.constants.mapM ConstantDescription.toConstant = .ok constants ∧
      g.constants = tableOf Constant.name constants := by
  obtain ⟨constants, hconstants, rfl⟩ := ofDescription_eq_built h
  refine ⟨constants, hconstants, ?_⟩
  rw [constants_built, filterMap_constant?_steps]

/-! ## All tables -/

/-- A table of a graph depends only on what a selection of the steps adds. -/
def FilledBy {α β : Type} (table : Graph → β) (select : BuildStep → Option α) : Prop :=
  ∀ name steps other others, List.filterMap select steps = List.filterMap select others →
    table (Graph.built name steps) = table (Graph.built other others)

/-- **The tables of a graph that is built.**  Whatever the steps are and however they
alternate, each table of tensors is one to which the tensors of its steps were added;
operators and outputs stand in the order of their steps, and each routine stands
once, where it was first asked for.  No table depends on the steps of another.  A
described graph is built so, from the entries of its description in their order. -/
theorem tables_built (name : String) (steps : List BuildStep) :
    IsTableOf Constant.name (steps.filterMap BuildStep.constant?)
      (Graph.built name steps).constants ∧
    IsTableOf Tensor.name (steps.filterMap BuildStep.intermediate?)
      (Graph.built name steps).intermediates ∧
    IsTableOf Tensor.name (steps.filterMap BuildStep.input?) (Graph.built name steps).inputs ∧
    (Graph.built name steps).operators = steps.filterMap BuildStep.operator? ∧
    (Graph.built name steps).outputs = steps.filterMap BuildStep.output? ∧
    (Graph.built name steps).routines = (steps.filterMap BuildStep.routine?).eraseDups ∧
    (Graph.built name steps).routines.Nodup ∧
    (FilledBy Graph.constants BuildStep.constant? ∧
      FilledBy Graph.intermediates BuildStep.intermediate? ∧
      FilledBy Graph.inputs BuildStep.input? ∧ FilledBy Graph.operators BuildStep.operator? ∧
      FilledBy Graph.outputs BuildStep.output? ∧ FilledBy Graph.routines BuildStep.routine?) ∧
    ∀ d g, Graph.ofDescription d = .ok g →
      ∃ constants, d.constants.mapM ConstantDescription.toConstant = .ok constants ∧
        g = Graph.built d.name (d.steps constants) := by
  refine ⟨?_, ?_, ?_, operators_built name steps, outputs_built name steps, ?_, ?_,
    ⟨?_, ?_, ?_, ?_, ?_, ?_⟩, fun d g h => ofDescription_eq_built h⟩
  · rw [constants_built]
    exact isTableOf_tableOf _ _
  · rw [intermediates_built]
    exact isTableOf_tableOf _ _
  · rw [inputs_built]
    exact isTableOf_tableOf _ _
  · rw [routines_built, foldl_appendNew]
  · rw [routines_built]
    exact nodup_foldl_appendNew _
  all_goals intro name steps other others h
  · rw [constants_built, constants_built, h]
  · rw [intermediates_built, intermediates_built, h]
  · rw [inputs_built, inputs_built, h]
  · rw [operators_built, operators_built, h]
  · rw [outputs_built, outputs_built, h]
  · rw [routines_built, routines_built, h]

/-- A description that lists a constant and an input twice, the second time with
another type, and a routine twice. -/
def relistingDescription : Description where
  name := "relisting"
  operators := [{ name := "Gemm_0", body := "" }, { name := "Gemm_0", body := "" }]
  constants := [
    { name := "W", type := .int32, shape := [2], data := [.natural 3, .negative (-4)] },
    { name := "B", type := .int64, shape := [1], data := [.natural 5] },
    { name := "W", type := .int64, shape := [1], data := [.natural 6] }]
  inputs := [{ name := "X", type := .float, shape := [2] },
    { name := "Y", type := .float, shape := [2] }, { name := "X", type := .double, shape := [] }]
  outputs := ["Y", "Y"]
  routines := ["Gemm", "Axpy", "Gemm"]

/-- In its graph the second entries have the places of the first. -/
theorem tables_built_relisting :
    ∃ g, Graph.ofDescription relistingDescription = .ok g ∧
      g.constants.map Constant.name = ["W", "B"] ∧
      g.constants.find? (·.name == "W") = some { name := "W", shape := [1], data := .int64 [6] } ∧
      g.inputs.map Tensor.name = ["X", "Y"] ∧
      g.operators.map Operator.name = ["Gemm_0", "Gemm_0"] ∧ g.outputs = ["Y", "Y"] ∧
      g.routines = ["Gemm", "Axpy"] := by
  obtain ⟨g, hg⟩ : ∃ g, Graph.ofDescription relistingDescription = .ok g := ⟨_, rfl⟩
  obtain ⟨-, -, -, -, -, -, -, -, hdescribed⟩ := tables_built "" []
  obtain ⟨constants, hconstants, rfl⟩ := hdescribed relistingDescription g hg
  obtain ⟨hweights, -, hinputs, hoperators, houtputs, hroutines, -⟩ :=
    tables_built relistingDescription.name (relistingDescription.steps constants)
  have hread : relistingDescription.constants.mapM ConstantDescription.toConstant =
      .ok [{ name := "W", shape := [2], data := .int32 [3, -4] },
        { name := "B", shape := [1], data := .int64 [5] },
        { name := "W", shape := [1], data := .int64 [6] }] := rfl
  obtain rfl := Except.ok.inj (hread.symm.trans hconstants)
  refine ⟨_, hg, ?_, ?_, ?_, ?_, ?_, ?_⟩
  · rw [hweights.firstOrder]
    decide
  · rw [hweights.lastValue]
    decide
  · rw [hinputs.firstOrder]
    decide
  · rw [hoperators]
    rfl
  · rw [houtputs]
    rfl
  · rw [hroutines]
    decide

end Chronograph
