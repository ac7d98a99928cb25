import Mathlib.Data.List.Nodup
import Chronograph.Proofs.Module.Acceptance

/-!
# The tensor that is returned

The inference routine ends by copying an array into the vector that it returns,
and takes both the place and the extent of the array from one name, that of the
output's buffer.  What this name refers to is settled where the routine stands:
its parameters hide the variables of the namespace (`Function.referents`).

The buffer of the output is always declared before the routine, so the name
refers to it exactly if no parameter has the name, that is, if no declared input
has the name of the output (`output_referents`).  Acceptance does not ask for
that: it compares the output with the intermediate tensors only.  With an input
of the output's name, the name refers to a pointer, of which neither the elements
nor the extent have to do with the output.
-/

namespace Chronograph

/-! ## What a name refers to -/

/-- What a name may refer to. -/
inductive Referent where
  | parameter (type : String)
  /-- A variable of the namespace; one with a length is an array. -/
  | variable (type : String) (length : Option UInt64)
deriving DecidableEq

/-- The parameter, if it has a name. -/
def Param.referent? (name : String) (p : Param) : Option Referent :=
  if p.name = name then some (.parameter p.type) else none

/-- The variable that an item declares, if it has a name. -/
def Item.referent? (name : String) : Item → Option Referent
  | .global type other length _ => if other = name then some (.variable type length) else none
  | _ => none

/-- What a name refers to in the body of a function that stands behind some items
of a namespace: the parameters of the name, and only if there are none, the
variables.  Variables that the body declares itself are not looked at; those of the
inference routine never have the name of a buffer. -/
def Function.referents (f : Function) (before : List Item) (name : String) : List Referent :=
  match f.params.filterMap (Param.referent? name) with
  | [] => before.filterMap (Item.referent? name)
  | found => found

theorem bufferName_inj {a b : String} : bufferName a = bufferName b ↔ a = b := by
  simp [bufferName]

/-- A buffer never has the name of another variable of the module. -/
theorem ne_bufferName {name : String} (h : name.toList.head? ≠ some 't') (tensor : String) :
    name ≠ bufferName tensor := by
  rintro rfl
  simp [bufferName] at h

/-! ## Parameters -/

/-- The parameters that have the name of a tensor's buffer are those of the
declared inputs of the tensor's name; all are pointers. -/
theorem mem_parameters_iff {g : Graph} {o : Options} {output : Tensor} {name : String}
    {r : Referent} :
    r ∈ (inferFunction g o output).params.filterMap (Param.referent? (bufferName name)) ↔
      ∃ t ∈ g.inputs, ∃ codeType, t.type.codeType? = some codeType ∧ t.name = name ∧
        r = .parameter (codeType ++ "*") := by
  simp only [inferFunction, Graph.codeInputs, List.mem_filterMap, List.mem_map, Param.referent?]
  constructor
  · rintro ⟨p, ⟨⟨codeType, t⟩, ⟨s, hs, hinput⟩, rfl⟩, hr⟩
    obtain ⟨type, htype, heq⟩ := Option.map_eq_some_iff.mp hinput
    cases heq
    simp only [bufferName_inj, Option.ite_none_right_eq_some, Option.some.injEq] at hr
    exact ⟨t, hs, codeType, htype, hr.1, hr.2.symm⟩
  · rintro ⟨t, ht, codeType, htype, rfl, rfl⟩
    exact ⟨⟨codeType ++ "*", bufferName t.name⟩, ⟨(codeType, t), ⟨t, ht, by simp [htype]⟩, rfl⟩,
      by simp⟩

/-- Without an input of its name, a tensor's buffer is not hidden. -/
theorem parameters_eq_nil_iff {g : Graph} {o : Options} {output : Tensor} {name : String} :
    (inferFunction g o output).params.filterMap (Param.referent? (bufferName name)) = [] ↔
      ∀ t ∈ g.inputs, t.type.Declared → t.name ≠ name := by
  rw [List.eq_nil_iff_forall_not_mem]
  simp only [mem_parameters_iff]
  constructor
  · intro h t ht htype hname
    obtain ⟨codeType, hcode⟩ := htype.exists_codeType?
    exact h _ ⟨t, ht, codeType, hcode, hname, rfl⟩
  · rintro h r ⟨t, ht, codeType, hcode, hname, -⟩
    exact h t ht (declared_of_codeType? hcode) hname

/-! ## Variables -/

/-- The items of the namespace that stand before the inference routine. -/
def itemsBefore (g : Graph) (o : Options) (buffers : List Buffer) : List Item :=
  (match routineScope? g.routines with
    | some scope => [scope, .blank]
    | none => [])
  ++ historyItems o.synchronized
  ++ (if o.utility then [.function (averageFunction o.policy o.synchronized), .blank] else [])
  ++ (if buffers.isEmpty then [] else buffers.map Buffer.item ++ [.blank])

/-- The inference routine stands at the end of its namespace. -/
theorem scope?_moduleUnit (g : Graph) (o : Options) (output : Tensor) (buffers : List Buffer) :
    (moduleUnit g o output buffers).scope? =
      some (moduleName g o, itemsBefore g o buffers ++ [.function (inferFunction g o output)]) := by
  have hheaders (names : List String) (rest : List Item) :
      firstScope? (names.map Item.header ++ rest) = firstScope? rest := by
    induction names with
    | nil => rfl
    | cons name names ih => simp [firstScope?, ih]
  rw [CodeUnit.scope?, moduleUnit]
  simp only [List.append_assoc, List.cons_append, List.nil_append, firstScope?, hheaders]
  rfl

theorem referent?_buffer (b : Buffer) (name : String) :
    b.item.referent? (bufferName name) =
      if b.tensor = name then some (.variable b.codeType (some b.length)) else none := by
  simp only [Buffer.item, Item.referent?, bufferName_inj]

/-- The variables that have the name of a tensor's buffer are the buffers of the
declared tensors of that name. -/
theorem variables_eq (g : Graph) (o : Options) (buffers : List Buffer) (name : String) :
    (itemsBefore g o buffers).filterMap (Item.referent? (bufferName name)) =
      buffers.filterMap fun b =>
        if b.tensor = name then some (.variable b.codeType (some b.length)) else none := by
  have hroutines : (match routineScope? g.routines with
      | some scope => [scope, .blank]
      | none => []).filterMap (Item.referent? (bufferName name)) = [] := by
    unfold routineScope?
    cases knownRoutines g.routines <;> rfl
  have hhistory : (historyItems o.synchronized).filterMap
      (Item.referent? (bufferName name)) = [] := by
    have hruns : historyName ≠ bufferName name := ne_bufferName (by decide) name
    have hmutex : mutexName ≠ bufferName name := ne_bufferName (by decide) name
    cases o.synchronized <;> simp [historyItems, Item.referent?, hruns, hmutex]
  have haverage : (if o.utility then
      [Item.function (averageFunction o.policy o.synchronized), .blank] else []).filterMap
      (Item.referent? (bufferName name)) = [] := by
    split <;> rfl
  have hbuffers : (if buffers.isEmpty then []
      else buffers.map Buffer.item ++ [Item.blank]).filterMap (Item.referent? (bufferName name)) =
      buffers.filterMap fun b => b.item.referent? (bufferName name) := by
    cases buffers with
    | nil => rfl
    | cons b rest => simp [List.filterMap_cons, Item.referent?, Function.comp_def]
  rw [itemsBefore, List.filterMap_append, List.filterMap_append, List.filterMap_append, hroutines,
    hhistory, haverage, hbuffers]
  simp only [List.nil_append, referent?_buffer]

/-- The buffer of a constant has the constant's name. -/
theorem Constant.tensor_eq {c : Constant} {b : Buffer} (h : c.verdict = .declared b) :
    b.tensor = c.name := by
  obtain ⟨codeType, length, -, -, -, -, rfl⟩ := Constant.verdict_declared_iff.mp h
  rfl

/-- The buffer of an intermediate tensor has the tensor's name. -/
theorem Tensor.tensor_eq {t : Tensor} {b : Buffer} (h : t.verdict = .declared b) :
    b.tensor = t.name := by
  obtain ⟨codeType, length, -, -, -, rfl⟩ := Tensor.verdict_declared_iff.mp h
  rfl

/-- A tensor whose buffer has another name declares no variable of the name. -/
theorem Verdict.referent_eq_none {v : Verdict} {name : String}
    (h : ∀ b, v = .declared b → b.tensor ≠ name) :
    (v.buffer?.bind fun b =>
      if b.tensor = name then some (Referent.variable b.codeType (some b.length)) else none) =
        none := by
  cases v with
  | declared b => simp [Verdict.buffer?, h b rfl]
  | skipped => rfl
  | refused => rfl

/-! ## The output -/

/-- The buffer that a sound output gets. -/
theorem SoundOutput.exists_buffer {g : Graph} {t : Tensor} (h : SoundOutput g t) :
    ∃ b : Buffer, t.verdict = .declared b ∧
      t.type.codeType? = some b.codeType ∧ b.length.toNat = t.shape.product := by
  obtain ⟨codeType, hcode⟩ := h.declared.exists_codeType?
  obtain ⟨length, hcount⟩ := exists_countElements t.name h.fits
  have hvalue := (countElements_eq_ok_iff.mp hcount).2
  have hne : length ≠ 0 := by
    intro hzero
    rw [eq_zero_iff_toNat, hvalue] at hzero
    exact h.nonempty hzero
  exact ⟨_, Tensor.verdict_declared_iff.mpr ⟨codeType, length, hcode, hcount, hne, rfl⟩, hcode,
    hvalue⟩

/-- If no other tensor has its name, the output's buffer is the only variable that
has the name. -/
theorem variables_eq_singleton {g : Graph} {o : Options} {output : Tensor} {b : Buffer}
    {buffers : List Buffer} (hbuffers : (settle g.verdicts).outcome = .ok buffers)
    (houtput : output ∈ g.intermediates) (hb : output.verdict = .declared b)
    (hconstants : ∀ c ∈ g.constants, c.name ≠ output.name)
    (hdistinct : (g.intermediates.map Tensor.name).Nodup) :
    (itemsBefore g o buffers).filterMap (Item.referent? (bufferName output.name)) =
      [.variable b.codeType (some b.length)] := by
  obtain ⟨-, rfl⟩ := settle_eq_ok_iff.mp hbuffers
  obtain ⟨before, after, hsplit⟩ := List.append_of_mem houtput
  have hothers : (∀ t ∈ before, t.name ≠ output.name) ∧ ∀ t ∈ after, t.name ≠ output.name := by
    rw [hsplit, List.map_append, List.map_cons, List.nodup_middle, List.nodup_cons] at hdistinct
    have hnot := hdistinct.1
    simp only [List.mem_append, List.mem_map, not_or, not_exists, not_and] at hnot
    exact hnot
  have hconstant : ∀ c ∈ g.constants, ∀ b, c.verdict = .declared b → b.tensor ≠ output.name := by
    intro c hc b hb
    rw [Constant.tensor_eq hb]
    exact hconstants c hc
  have hother {t : Tensor} (ht : t.name ≠ output.name) :
      ∀ b, t.verdict = .declared b → b.tensor ≠ output.name := by
    intro b hb
    rwa [Tensor.tensor_eq hb]
  rw [variables_eq, List.filterMap_filterMap, Graph.verdicts, hsplit]
  simp only [List.filterMap_append, List.filterMap_map, List.map_append, List.map_cons,
    List.filterMap_cons, Function.comp_def]
  rw [List.filterMap_eq_nil_iff.mpr fun c hc => Verdict.referent_eq_none (hconstant c hc),
    List.filterMap_eq_nil_iff.mpr fun t ht => Verdict.referent_eq_none (hother (hothers.1 t ht)),
    List.filterMap_eq_nil_iff.mpr fun t ht => Verdict.referent_eq_none (hother (hothers.2 t ht)),
    hb]
  simp [Verdict.buffer?, Tensor.tensor_eq hb]

/-- The two statements that return a copy of an array. -/
def copyOut (codeType array : String) : List Stmt :=
  [.line ("std::vector<" ++ codeType ++ "> ret(" ++ array ++ ", " ++ array ++ " + sizeof("
      ++ array ++ ") / sizeof(" ++ array ++ "[0]));"),
    .line "return ret;"]

/-- **The tensor that is returned.**  In the unit of a graph, the inference
routine ends by copying what the name of the output's buffer refers to.  That is
the array of the output's elements exactly if no declared input has the name of
the output, and then nothing else if no other tensor of the graph has it.  With
such an input it is a pointer, whatever the output is. -/
theorem output_referents (g : Graph) (o : Options) (unit : CodeUnit)
    (h : (assemble g o).outcome = .ok unit) :
    ∃ output codeType length before locals,
      SoundOutput g output ∧ output.type.codeType? = some codeType ∧
      length.toNat = output.shape.product ∧
      unit.scope? = some (moduleName g o, before ++ [.function (inferFunction g o output)]) ∧
      (inferFunction g o output).body = locals ++ copyOut codeType (bufferName output.name) ∧
      (Referent.variable codeType (some length) ∈
          (inferFunction g o output).referents before (bufferName output.name) ↔
        ∀ t ∈ g.inputs, t.type.Declared → t.name ≠ output.name) ∧
      ((∀ t ∈ g.inputs, t.type.Declared → t.name ≠ output.name) →
        (∀ c ∈ g.constants, c.name ≠ output.name) → (g.intermediates.map Tensor.name).Nodup →
        (inferFunction g o output).referents before (bufferName output.name) =
          [.variable codeType (some length)]) ∧
      ((∃ t ∈ g.inputs, t.type.Declared ∧ t.name = output.name) →
        (inferFunction g o output).referents before (bufferName output.name) ≠ [] ∧
        ∀ r ∈ (inferFunction g o output).referents before (bufferName output.name),
          ∃ type, r = .parameter (type ++ "*")) := by
  obtain ⟨output, buffers, houtput, hbuffers, rfl⟩ := assemble_eq_ok_iff.mp h
  have hsound := output_eq_ok_iff.mp houtput
  obtain ⟨b, hb, hcode, hlength⟩ := hsound.exists_buffer
  have hmember : output ∈ g.intermediates := by
    obtain ⟨-, before, after, hsplit, -⟩ := hsound.designated
    simp [hsplit]
  -- the two cases of the lookup, from which the three statements about it are read off
  have hplain (hinputs : ∀ t ∈ g.inputs, t.type.Declared → t.name ≠ output.name) :
      (inferFunction g o output).referents (itemsBefore g o buffers) (bufferName output.name) =
        (itemsBefore g o buffers).filterMap (Item.referent? (bufferName output.name)) := by
    rw [Function.referents, parameters_eq_nil_iff.mpr hinputs]
  have hhidden (hinputs : ¬ ∀ t ∈ g.inputs, t.type.Declared → t.name ≠ output.name) :
      (inferFunction g o output).referents (itemsBefore g o buffers) (bufferName output.name) =
        (inferFunction g o output).params.filterMap
          (Param.referent? (bufferName output.name)) := by
    have hsome : (inferFunction g o output).params.filterMap
        (Param.referent? (bufferName output.name)) ≠ [] := parameters_eq_nil_iff.not.mpr hinputs
    rw [Function.referents]
    split
    · contradiction
    · rfl
  have hvariable : Referent.variable b.codeType (some b.length) ∈
      (itemsBefore g o buffers).filterMap (Item.referent? (bufferName output.name)) := by
    rw [variables_eq, List.mem_filterMap]
    have hsettled : b ∈ buffers := (mem_settled_iff hbuffers).mpr (.inr ⟨output, hmember, hb⟩)
    exact ⟨b, hsettled, by simp [Tensor.tensor_eq hb]⟩
  refine ⟨output, b.codeType, b.length, itemsBefore g o buffers,
    timerLocals ++ [.blank] ++ weave g.operators ++ [.blank, historyAppend o.synchronized], hsound,
    hcode, hlength, scope?_moduleUnit g o output buffers, ?_, ?_, ?_, ?_⟩
  · simp [inferFunction, copyOut, hcode]
  · constructor
    · intro hmem
      by_contra hinputs
      rw [hhidden hinputs] at hmem
      obtain ⟨t, -, codeType, -, -, heq⟩ := mem_parameters_iff.mp hmem
      cases heq
    · intro hinputs
      rw [hplain hinputs]
      exact hvariable
  · intro hinputs hconstants hdistinct
    rw [hplain hinputs]
    exact variables_eq_singleton hbuffers hmember hb hconstants hdistinct
  · rintro ⟨t, ht, htype, hname⟩
    have hinputs : ¬ ∀ t ∈ g.inputs, t.type.Declared → t.name ≠ output.name :=
      fun hall => hall t ht htype hname
    rw [hhidden hinputs]
    refine ⟨parameters_eq_nil_iff.not.mpr hinputs, ?_⟩
    intro r hr
    obtain ⟨s, -, codeType, -, -, rfl⟩ := mem_parameters_iff.mp hr
    exact ⟨codeType, rfl⟩

/-- A graph whose output has the name of an input. -/
def hidingGraph : Graph where
  name := "m"
  intermediates := [{ name := "Y", type := .float, shape := [3] }]
  inputs := [{ name := "Y", type := .float, shape := [3] }]
  outputs := ["Y"]

/-- It has a unit, and what its routine returns is not copied from an array. -/
theorem output_referents_hidden :
    ∃ unit output before, (assemble hidingGraph {}).outcome = .ok unit ∧
      unit.scope? = some (moduleName hidingGraph {},
        before ++ [.function (inferFunction hidingGraph {} output)]) ∧
      (inferFunction hidingGraph {} output).referents before (bufferName output.name) ≠ [] ∧
      ∀ r ∈ (inferFunction hidingGraph {} output).referents before (bufferName output.name),
        ∃ type, r = .parameter (type ++ "*") := by
  let tensor : Tensor := { name := "Y", type := .float, shape := [3] }
  let buffer : Buffer :=
    { tensor := "Y", type := .float, codeType := "float", length := 3, init := "\x7b\x7d" }
  have hunit : (assemble hidingGraph {}).outcome =
      .ok (moduleUnit hidingGraph {} tensor [buffer]) := rfl
  obtain ⟨output, codeType, length, before, locals, hsound, -, -, hscope, -, -, -, hhidden⟩ :=
    output_referents hidingGraph {} _ hunit
  have hname : ∃ t ∈ hidingGraph.inputs, t.type.Declared ∧ t.name = output.name := by
    have houtputs := hsound.designated.1
    refine ⟨tensor, List.mem_singleton_self _, .inl rfl, ?_⟩
    exact List.singleton_inj.mp houtputs
  obtain ⟨hsome, hpointers⟩ := hhidden hname
  exact ⟨_, output, before, hunit, hscope, hsome, hpointers⟩

end Chronograph
