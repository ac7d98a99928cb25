import Mathlib.Data.List.Forall2
import Chronograph.Proofs.Module.Output

/-!
# The routine and the array it returns

The inference routine and the array that it copies are made in different places:
the routine from the output that acceptance looks up, the array by the walk over
all intermediate tensors, which skips and refuses tensors on its own account.
`signature_agrees` says that they fit.  What makes them fit is that a sound output
is neither skipped nor refused (`SoundOutput.item_mem`), whatever other tensors
the table holds, also under the same name.

The items of a module's namespace come from few places (`mem_itemsBefore_iff`),
and at most two of them are functions, of different names, so that a function is
found by its name (`firstFunction?_infer`, `firstFunction?_average`).
-/

namespace Chronograph

/-! ## Functions by name -/

/-- A function that is the only one of its name is the one that is found. -/
theorem firstFunction?_eq_some {f : Function} {items : List Item} (hmem : Item.function f ∈ items)
    (honly : ∀ f', Item.function f' ∈ items → f'.name = f.name → f' = f) :
    firstFunction? f.name items = some f := by
  induction items with
  | nil => cases hmem
  | cons item items ih =>
      have hrest : Item.function f ∈ items → firstFunction? f.name items = some f :=
        fun h => ih h fun f' hf' => honly f' (List.mem_cons_of_mem _ hf')
      cases item with
      | function f' =>
          rw [firstFunction?]
          by_cases hname : f'.name = f.name
          · rw [if_pos hname, honly f' List.mem_cons_self hname]
          · have hne : Item.function f ≠ .function f' := by
              rintro heq
              cases heq
              exact hname rfl
            rw [if_neg hname, hrest (List.mem_of_ne_of_mem hne hmem)]
      | _ => exact hrest (List.mem_of_ne_of_mem (by simp) hmem)

/-- A function that is found is there. -/
theorem mem_of_firstFunction? {name : String} {f : Function} {items : List Item}
    (h : firstFunction? name items = some f) : Item.function f ∈ items ∧ f.name = name := by
  induction items with
  | nil => cases h
  | cons item items ih =>
      cases item with
      | function f' =>
          rw [firstFunction?] at h
          split at h
          · next hname =>
              cases h
              exact ⟨List.mem_cons_self, hname⟩
          · exact (ih h).imp_left (List.mem_cons_of_mem _)
      | _ => exact (ih h).imp_left (List.mem_cons_of_mem _)

/-! ## The items of a module -/

theorem moduleItems_eq (g : Graph) (o : Options) (output : Tensor) (buffers : List Buffer) :
    moduleItems g o output buffers =
      itemsBefore g o buffers ++ [.function (inferFunction g o output)] := rfl

/-- The scope of the external routines has their declarations in it. -/
theorem exists_eq_scope_of_routineScope? {names : List String} {item : Item}
    (h : routineScope? names = some item) :
    ∃ routines : List Routine,
      item = .scope "BLAS" (routines.map fun r => .foreign r.signature) := by
  unfold routineScope? at h
  split at h
  · cases h
  · cases h
    exact ⟨_, rfl⟩

@[simp] theorem routineScope?_ne_global (names : List String) (type name : String)
    (length : Option UInt64) (init : Option String) :
    routineScope? names ≠ some (.global type name length init) := by
  intro h
  obtain ⟨routines, heq⟩ := exists_eq_scope_of_routineScope? h
  cases heq

@[simp] theorem routineScope?_ne_function (names : List String) (f : Function) :
    routineScope? names ≠ some (.function f) := by
  intro h
  obtain ⟨routines, heq⟩ := exists_eq_scope_of_routineScope? h
  cases heq

/-- Where the items before the routine come from, blank lines aside. -/
theorem mem_itemsBefore_iff {g : Graph} {o : Options} {buffers : List Buffer} {item : Item}
    (h : item ≠ .blank) :
    item ∈ itemsBefore g o buffers ↔
      routineScope? g.routines = some item ∨ item ∈ historyItems o.synchronized ∨
        (o.utility = true ∧ item = .function (averageFunction o.policy o.synchronized)) ∨
        ∃ b ∈ buffers, b.item = item := by
  have haverage : (item ∈ if o.utility then
      [Item.function (averageFunction o.policy o.synchronized), .blank] else []) ↔
        o.utility = true ∧ item = .function (averageFunction o.policy o.synchronized) := by
    cases o.utility <;> simp [h]
  have hbuffers : (item ∈ if buffers.isEmpty then [] else buffers.map Buffer.item ++ [.blank]) ↔
      ∃ b ∈ buffers, b.item = item := by
    cases buffers with
    | nil => simp
    | cons b rest => simp [h, eq_comm]
  rw [itemsBefore, List.mem_append, List.mem_append, List.mem_append, haverage, hbuffers,
    or_assoc, or_assoc]
  cases routineScope? g.routines with
  | none => simp
  | some scope => simp [h, @eq_comm _ item scope]

/-- The arrays before the routine are the buffers. -/
theorem mem_itemsBefore_array_iff {g : Graph} {o : Options} {buffers : List Buffer}
    {type name : String} {length : UInt64} {init : Option String} :
    Item.global type name (some length) init ∈ itemsBefore g o buffers ↔
      ∃ b ∈ buffers, b.item = .global type name (some length) init := by
  have hhistory : Item.global type name (some length) init ∉ historyItems o.synchronized := by
    cases o.synchronized <;> simp [historyItems]
  rw [mem_itemsBefore_iff (by simp)]
  simp [hhistory]

/-- The arrays of a module are its buffers. -/
theorem mem_moduleItems_array_iff {g : Graph} {o : Options} {output : Tensor}
    {buffers : List Buffer} {type name : String} {length : UInt64} {init : Option String} :
    Item.global type name (some length) init ∈ moduleItems g o output buffers ↔
      ∃ b ∈ buffers, b.item = .global type name (some length) init := by
  rw [moduleItems_eq, List.mem_append, mem_itemsBefore_array_iff]
  simp

/-- The functions of a module are the averaging function, if it is asked for, and
the routine. -/
theorem mem_moduleItems_function_iff {g : Graph} {o : Options} {output : Tensor}
    {buffers : List Buffer} {f : Function} :
    Item.function f ∈ moduleItems g o output buffers ↔
      (o.utility = true ∧ f = averageFunction o.policy o.synchronized) ∨
        f = inferFunction g o output := by
  have hhistory : Item.function f ∉ historyItems o.synchronized := by
    cases o.synchronized <;> simp [historyItems]
  rw [moduleItems_eq, List.mem_append, mem_itemsBefore_iff (by simp)]
  simp [hhistory, Buffer.item]

/-- The routine is found by its name. -/
theorem firstFunction?_infer (g : Graph) (o : Options) (output : Tensor) (buffers : List Buffer) :
    firstFunction? inferName (moduleItems g o output buffers) =
      some (inferFunction g o output) := by
  refine firstFunction?_eq_some (f := inferFunction g o output)
    (mem_moduleItems_function_iff.mpr (.inr rfl)) ?_
  intro f hf hname
  rcases mem_moduleItems_function_iff.mp hf with ⟨-, rfl⟩ | rfl
  · exact absurd hname (by decide : averageFunctionName ≠ inferName)
  · rfl

/-- The averaging function is found by its name exactly if it is asked for. -/
theorem firstFunction?_average {g : Graph} {o : Options} {output : Tensor}
    {buffers : List Buffer} {f : Function} :
    firstFunction? averageFunctionName (moduleItems g o output buffers) = some f ↔
      o.utility = true ∧ f = averageFunction o.policy o.synchronized := by
  constructor
  · intro h
    obtain ⟨hmem, hname⟩ := mem_of_firstFunction? h
    rcases mem_moduleItems_function_iff.mp hmem with haverage | rfl
    · exact haverage
    · exact absurd hname (by decide : inferName ≠ averageFunctionName)
  · rintro ⟨hutility, rfl⟩
    refine firstFunction?_eq_some (f := averageFunction o.policy o.synchronized)
      (mem_moduleItems_function_iff.mpr (.inl ⟨hutility, rfl⟩)) ?_
    intro f hf hname
    rcases mem_moduleItems_function_iff.mp hf with ⟨-, rfl⟩ | rfl
    · rfl
    · exact absurd hname (by decide : inferName ≠ averageFunctionName)

theorem function?_moduleUnit (g : Graph) (o : Options) (output : Tensor) (buffers : List Buffer)
    (name : String) :
    (moduleUnit g o output buffers).function? name =
      firstFunction? name (moduleItems g o output buffers) := by
  rw [CodeUnit.function?, scope?_moduleUnit]
  rfl

/-! ## The array of the output -/

/-- **The array of a sound output is declared**, whatever the other tensors are. -/
theorem SoundOutput.item_mem {g : Graph} {o : Options} {t : Tensor} {buffers : List Buffer}
    (h : SoundOutput g t) (hbuffers : (settle g.verdicts).outcome = .ok buffers) :
    ∃ codeType length, t.type.codeType? = some codeType ∧ length.toNat = t.shape.product ∧
      Item.global codeType (bufferName t.name) (some length) (some "\x7b\x7d") ∈
        itemsBefore g o buffers := by
  obtain ⟨b, hb, hcode, hlength⟩ := h.exists_buffer
  have hmem : b ∈ buffers :=
    (mem_settled_iff hbuffers).mpr (.inr ⟨t, Designates.mem h.designated, hb⟩)
  refine ⟨b.codeType, b.length, hcode, hlength, mem_itemsBefore_array_iff.mpr ⟨b, hmem, ?_⟩⟩
  obtain ⟨codeType, length, -, -, -, rfl⟩ := Tensor.verdict_declared_iff.mp hb
  rfl

/-! ## The signature -/

/-- A parameter that passes a tensor: a pointer to its elements, named like a
buffer. -/
def Param.Passes (p : Param) (t : Tensor) : Prop :=
  ∃ codeType, t.type.codeType? = some codeType ∧
    p = { type := codeType ++ "*", name := bufferName t.name }

/-- The parameters of the routine pass the inputs of a declared type, in order, and
nothing else. -/
theorem inferFunction_params (g : Graph) (o : Options) (output : Tensor) :
    List.Forall₂ Param.Passes (inferFunction g o output).params
      (g.inputs.filter fun t => t.type.codeType?.isSome) := by
  rw [inferFunction, Graph.codeInputs]
  dsimp only
  induction g.inputs with
  | nil => exact .nil
  | cons t inputs ih =>
      cases hcode : t.type.codeType? with
      | none => simpa [hcode] using ih
      | some codeType =>
          have hpasses : Param.Passes { type := codeType ++ "*", name := bufferName t.name } t :=
            ⟨codeType, hcode, rfl⟩
          simpa [hcode, hpasses] using ih

/-- **The array of the output and the signature of the routine agree.**  Before
the routine stands the array of the tensor that acceptance found: of its type, with
as many elements as its shape asks for, all zero.  The routine returns a vector of
this type, made from the array's name, and its parameters are the inputs of a
declared type. -/
theorem signature_agrees (g : Graph) (o : Options) (unit : CodeUnit)
    (h : (assemble g o).outcome = .ok unit) :
    ∃ output codeType length before locals infer,
      g.output = .ok output ∧ g.outputs = [output.name] ∧
      output.type.codeType? = some codeType ∧
      length.toNat = output.shape.product ∧ 1 ≤ output.shape.product ∧
      unit.scope? = some (moduleName g o, before ++ [.function infer]) ∧
      unit.function? inferName = some infer ∧
      Item.global codeType (bufferName output.name) (some length) (some "\x7b\x7d") ∈ before ∧
      infer.returns = "std::vector<" ++ codeType ++ ">" ∧
      infer.body = locals ++ copyOut codeType (bufferName output.name) ∧
      List.Forall₂ Param.Passes infer.params
        (g.inputs.filter fun t => t.type.codeType?.isSome) := by
  obtain ⟨output, buffers, houtput, hbuffers, rfl⟩ := assemble_eq_ok_iff.mp h
  have hsound := output_eq_ok_iff.mp houtput
  obtain ⟨codeType, length, hcode, hlength, hitem⟩ := hsound.item_mem (o := o) hbuffers
  refine ⟨output, codeType, length, itemsBefore g o buffers,
    timerLocals ++ [.blank] ++ weave g.operators ++ [.blank, historyAppend o.synchronized],
    inferFunction g o output, houtput, hsound.designated.1, hcode, hlength,
    Nat.pos_of_ne_zero hsound.nonempty, scope?_moduleUnit g o output buffers,
    ?_, hitem, ?_, ?_, inferFunction_params g o output⟩
  · rw [function?_moduleUnit, firstFunction?_infer]
  · simp [inferFunction, hcode]
  · simp [inferFunction, copyOut, hcode]

/-- A graph with two tensors of the output's name, of different types and shapes,
between tensors that are skipped. -/
def doubledGraph : Graph where
  name := "doubled"
  intermediates := [{ name := "Y", type := .int64, shape := [2, 3] },
    { name := "Z", type := .bool, shape := [4] }, { name := "Y", type := .float, shape := [5] }]
  inputs := [{ name := "mask", type := .bool, shape := [6] },
    { name := "X", type := .double, shape := [0] }]
  outputs := ["Y"]

/-- The first of the two is the one that acceptance finds, that the routine returns,
and that has an array of its own. -/
theorem signature_agrees_doubled :
    ∃ unit before locals infer, (assemble doubledGraph {}).outcome = .ok unit ∧
      unit.scope? = some ("profgen_doubled", before ++ [.function infer]) ∧
      Item.global "int64_t" "tensor_Y" (some 6) (some "\x7b\x7d") ∈ before ∧
      infer.returns = "std::vector<int64_t>" ∧
      infer.body = locals ++ copyOut "int64_t" "tensor_Y" ∧
      infer.params = [{ type := "double*", name := "tensor_X" }] := by
  have hunit : (assemble doubledGraph {}).outcome.isOk = true := by decide +kernel
  obtain ⟨unit, hunit⟩ := exists_eq_ok_of_isOk hunit
  obtain ⟨output, codeType, length, before, locals, infer, houtput, -, hcode, hlength, -, hscope, -,
    hitem, hreturns, hbody, hparams⟩ := signature_agrees doubledGraph {} unit hunit
  have hfirst : doubledGraph.output = .ok { name := "Y", type := .int64, shape := [2, 3] } := rfl
  obtain rfl := Except.ok.inj (houtput.symm.trans hfirst)
  obtain rfl : codeType = "int64_t" := (Option.some.inj hcode).symm
  obtain rfl : length = 6 := UInt64.toNat_inj.mp hlength
  have hname : moduleName doubledGraph {} = "profgen_doubled" := by decide +kernel
  rw [hname] at hscope
  refine ⟨unit, before, locals, infer, hunit, hscope, hitem, hreturns, hbody, ?_⟩
  have hinputs : (doubledGraph.inputs.filter fun t => t.type.codeType?.isSome) =
      [{ name := "X", type := .double, shape := [0] }] := rfl
  rw [hinputs, List.forall₂_cons_right_iff] at hparams
  obtain ⟨p, rest, ⟨codeType, hcode, rfl⟩, hrest, heq⟩ := hparams
  rw [heq, List.forall₂_nil_right_iff.mp hrest, ← Option.some.inj hcode]
  rfl

end Chronograph
