import Chronograph.Proofs.Module.Signature

/-!
# The headers of a module

A module includes a header exactly if its code uses a name from it (`HeaderUse`).
The list of headers is made from the graph, the options and the buffers, before the
code is; the uses are looked up in the namespace that is emitted, and the two agree
(`mem_headers_iff`), header by header:

* `cmath` for a constant with an element that is written as a macro;
* `cstdint` for an array, a parameter or a returned vector of a type of fixed width;
* `mutex` for the mutex of the history;
* `cstddef` for the averaging function, which counts runs in `std::size_t`.

A tensor that is skipped has no array, so it asks for no header.
-/

namespace Chronograph

/-! ## Uses of headers -/

/-- An element is infinite or not a number.  Bytes that are kept as they are hold
no such element. -/
def TensorData.HoldsNonFinite : TensorData → Prop
  | .float values => ∃ x ∈ values, x.isNaN = true ∨ x.isInf = true
  | .double values => ∃ x ∈ values, x.isNaN = true ∨ x.isInf = true
  | .int32 _ | .int64 _ | .raw .. => False

/-- The array of a constant, with its elements, is among some items. -/
def Constant.DeclaredIn (c : Constant) (items : List Item) : Prop :=
  ∃ codeType length, c.type.codeType? = some codeType ∧
    length.toNat = c.shape.product ∧ 1 ≤ c.shape.product ∧
    Item.global codeType (bufferName c.name) (some length) (some (braced c.data.literals)) ∈ items

/-- The types of the emitted code that come from the header `cstdint`. -/
def fixedWidthTypes : List String := ["int32_t", "int64_t"]

/-- What a header is included for, in the module of a graph with these items in its
namespace. -/
inductive HeaderUse (g : Graph) (items : List Item) : String → Prop
  /-- The clock, the names of operators, the runs, `std::move` and the history. -/
  | frame {header : String}
      (h : header ∈ ["chrono", "string", "unordered_map", "utility", "vector"]) :
      HeaderUse g items header
  /-- An infinite element is written as the macro `INFINITY`, one that is not a number
  as `NAN`. -/
  | constant {c : Constant} (hc : c ∈ g.constants) (hdeclared : c.DeclaredIn items)
      (h : c.data.HoldsNonFinite) : HeaderUse g items "cmath"
  /-- The elements of an array. -/
  | array {type name : String} {length : UInt64} {init : Option String}
      (htype : type ∈ fixedWidthTypes) (h : Item.global type name (some length) init ∈ items) :
      HeaderUse g items "cstdint"
  /-- The elements of an input. -/
  | parameter {infer : Function} {p : Param} {type : String}
      (hinfer : firstFunction? inferName items = some infer) (hp : p ∈ infer.params)
      (htype : type ∈ fixedWidthTypes) (h : p.type = type ++ "*") : HeaderUse g items "cstdint"
  /-- The elements of the output. -/
  | returned {infer : Function} {type : String}
      (hinfer : firstFunction? inferName items = some infer) (htype : type ∈ fixedWidthTypes)
      (h : infer.returns = "std::vector<" ++ type ++ ">") : HeaderUse g items "cstdint"
  /-- The mutex of a synchronized history. -/
  | mutex (h : Item.global "std::mutex" mutexName none none ∈ items) : HeaderUse g items "mutex"
  /-- The averaging function, which counts in `std::size_t`. -/
  | average {f : Function} (h : firstFunction? averageFunctionName items = some f) :
      HeaderUse g items "cstddef"

/-! ## The flags of the list -/

/-- The list of headers is five that are always there and four that hang on a flag
each. -/
theorem mem_headers_flags {g : Graph} {o : Options} {output : Tensor} {buffers : List Buffer}
    {header : String} :
    header ∈ headers g o output buffers ↔
      header ∈ ["chrono", "string", "unordered_map", "utility", "vector"] ∨
      (header = "cmath" ∧ buffers.any (·.nonFinite) = true) ∨
      (header = "cstdint" ∧ (buffers.any (·.type.isFixedWidth) = true ∨
        g.codeInputs.any (·.2.type.isFixedWidth) = true ∨ output.type.isFixedWidth = true)) ∨
      (header = "mutex" ∧ o.synchronized = true) ∨ (header = "cstddef" ∧ o.utility = true) := by
  simp only [headers, List.mem_map, List.mem_filter, Prod.exists, exists_and_right,
    exists_eq_right, List.mem_cons, Prod.mk.injEq, List.not_mem_nil, Bool.or_eq_true, and_true,
    or_false, @eq_comm Bool true, or_assoc]
  grind

/-! ### Constants -/

/-- What is not finite is infinite or not a number. -/
theorem not_isFinite_iff (x : Float.Model.UnpackedFloat) :
    (!x.isFinite) = true ↔ x.isNaN = true ∨ x.isInf = true := by
  have hneither : ¬ (false = true ∨ false = true) := by decide
  cases x with
  | infinity s => exact iff_of_true rfl (.inr rfl)
  | notANumber => exact iff_of_true rfl (.inl rfl)
  | zero s => exact iff_of_false Bool.false_ne_true hneither
  | finite s m e hm => exact iff_of_false Bool.false_ne_true hneither

theorem hasNonFinite_iff (data : TensorData) :
    data.hasNonFinite = true ↔ data.HoldsNonFinite := by
  cases data with
  | float values =>
      rw [TensorData.hasNonFinite, List.any_eq_true]
      exact exists_congr fun x => and_congr_right fun _ => not_isFinite_iff x.toModel.unpack
  | double values =>
      rw [TensorData.hasNonFinite, List.any_eq_true]
      exact exists_congr fun x => and_congr_right fun _ => not_isFinite_iff x.toModel.unpack
  | _ => simp [TensorData.hasNonFinite, TensorData.HoldsNonFinite]

/-- A buffer asks for `cmath` exactly if it is that of a constant with an element
that is written as a macro. -/
theorem any_nonFinite_iff {g : Graph} {o : Options} {output : Tensor} {buffers : List Buffer}
    (hbuffers : (settle g.verdicts).outcome = .ok buffers) :
    buffers.any (·.nonFinite) = true ↔
      ∃ c ∈ g.constants, c.DeclaredIn (moduleItems g o output buffers) ∧
        c.data.HoldsNonFinite := by
  rw [List.any_eq_true]
  constructor
  · rintro ⟨b, hb, hflag⟩
    rcases (mem_settled_iff hbuffers).mp hb with ⟨c, hc, hverdict⟩ | ⟨t, -, hverdict⟩
    · obtain ⟨codeType, length, hcode, hcount, -, hne, rfl⟩ :=
        Constant.verdict_declared_iff.mp hverdict
      have hlength := (countElements_eq_ok_iff.mp hcount).2
      have hpos : length.toNat ≠ 0 := fun hzero => hne (eq_zero_iff_toNat.mpr hzero)
      refine ⟨c, hc, ⟨codeType, length, hcode, hlength, by omega, ?_⟩,
        (hasNonFinite_iff c.data).mp hflag⟩
      exact mem_moduleItems_array_iff.mpr ⟨_, hb, rfl⟩
    · obtain ⟨codeType, length, -, -, -, rfl⟩ := Tensor.verdict_declared_iff.mp hverdict
      cases hflag
  · rintro ⟨c, hc, ⟨codeType, -, hcode, -, hpos, -⟩, hdata⟩
    obtain ⟨hfits, hlength⟩ :=
      (soundTensors_iff.mpr (settle_eq_ok_iff.mp hbuffers).1).constants c hc
        (declared_of_codeType? hcode)
    obtain ⟨length, hcount⟩ := exists_countElements c.name hfits
    have hvalue := (countElements_eq_ok_iff.mp hcount).2
    have hne : length ≠ 0 := by
      rw [Ne, eq_zero_iff_toNat]
      omega
    refine ⟨_, (mem_settled_iff hbuffers).mpr (.inl ⟨c, hc, Constant.verdict_declared_iff.mpr
      ⟨codeType, length, hcode, hcount, hlength.trans hvalue.symm, hne, rfl⟩⟩), ?_⟩
    exact (hasNonFinite_iff c.data).mpr hdata

/-! ### Types of fixed width -/

theorem isFixedWidth_iff {t : ElementType} {codeType : String} (h : t.codeType? = some codeType) :
    t.isFixedWidth = true ↔ codeType ∈ fixedWidthTypes := by
  cases t with
  | float => cases h; decide
  | double => cases h; decide
  | int32 => cases h; decide
  | int64 => cases h; decide
  | _ => cases h

/-- A buffer of a type of fixed width is an array of the module. -/
theorem any_array_isFixedWidth_iff {g : Graph} {o : Options} {output : Tensor}
    {buffers : List Buffer} (hbuffers : (settle g.verdicts).outcome = .ok buffers) :
    buffers.any (·.type.isFixedWidth) = true ↔
      ∃ type ∈ fixedWidthTypes, ∃ name length init,
        Item.global type name (some length) init ∈ moduleItems g o output buffers := by
  rw [List.any_eq_true]
  constructor
  · rintro ⟨b, hb, hwidth⟩
    have htype := (isFixedWidth_iff (codeType?_of_mem_settled hbuffers hb)).mp hwidth
    exact ⟨b.codeType, htype, _, _, _, mem_moduleItems_array_iff.mpr ⟨b, hb, rfl⟩⟩
  · rintro ⟨type, htype, name, length, init, hitem⟩
    obtain ⟨b, hb, heq⟩ := mem_moduleItems_array_iff.mp hitem
    obtain ⟨rfl, -⟩ := Item.global.inj heq
    exact ⟨b, hb, (isFixedWidth_iff (codeType?_of_mem_settled hbuffers hb)).mpr htype⟩

theorem mem_codeInputs_iff {g : Graph} {codeType : String} {t : Tensor} :
    (codeType, t) ∈ g.codeInputs ↔ t ∈ g.inputs ∧ t.type.codeType? = some codeType := by
  simp [Graph.codeInputs, List.mem_filterMap, Option.map_eq_some_iff]

/-- An input of a type of fixed width is a parameter of the routine. -/
theorem any_input_isFixedWidth_iff (g : Graph) (o : Options) (output : Tensor) :
    g.codeInputs.any (·.2.type.isFixedWidth) = true ↔
      ∃ p ∈ (inferFunction g o output).params, ∃ type ∈ fixedWidthTypes, p.type = type ++ "*" := by
  rw [List.any_eq_true]
  constructor
  · rintro ⟨⟨type, t⟩, hinput, hwidth⟩
    have hcode := (mem_codeInputs_iff.mp hinput).2
    exact ⟨_, List.mem_map_of_mem hinput, type, (isFixedWidth_iff hcode).mp hwidth, rfl⟩
  · rintro ⟨p, hp, type, htype, heq⟩
    obtain ⟨⟨codeType, t⟩, hinput, rfl⟩ := List.mem_map.mp hp
    obtain rfl : codeType = type := by simpa using heq
    exact ⟨_, hinput, (isFixedWidth_iff (mem_codeInputs_iff.mp hinput).2).mpr htype⟩

/-- The element type of the output is that of the returned vector. -/
theorem output_isFixedWidth_iff {g : Graph} {output : Tensor} (houtput : g.output = .ok output)
    (o : Options) :
    output.type.isFixedWidth = true ↔
      ∃ type ∈ fixedWidthTypes,
        (inferFunction g o output).returns = "std::vector<" ++ type ++ ">" := by
  obtain ⟨codeType, hcode⟩ := (output_eq_ok_iff.mp houtput).declared.exists_codeType?
  rw [isFixedWidth_iff hcode]
  simp [inferFunction, hcode]

/-! ### The mutex -/

/-- The mutex is declared exactly if the history is synchronized. -/
theorem mem_moduleItems_mutex_iff {g : Graph} {o : Options} {output : Tensor}
    {buffers : List Buffer} :
    Item.global "std::mutex" mutexName none none ∈ moduleItems g o output buffers ↔
      o.synchronized = true := by
  have hhistory : Item.global "std::mutex" mutexName none none ∈ historyItems o.synchronized ↔
      o.synchronized = true := by
    cases o.synchronized <;> simp [historyItems, mutexName, historyName]
  rw [moduleItems_eq, List.mem_append, mem_itemsBefore_iff (by simp)]
  simp [hhistory, Buffer.item]

/-! ## The list of headers -/

/-- **A header is included exactly if the code has a use of it.** -/
theorem mem_headers_iff {g : Graph} {o : Options} {output : Tensor} {buffers : List Buffer}
    (houtput : g.output = .ok output) (hbuffers : (settle g.verdicts).outcome = .ok buffers)
    {header : String} :
    header ∈ headers g o output buffers ↔
      HeaderUse g (moduleItems g o output buffers) header := by
  have hinfer : firstFunction? inferName (moduleItems g o output buffers) =
      some (inferFunction g o output) := firstFunction?_infer g o output buffers
  rw [mem_headers_flags, any_nonFinite_iff hbuffers, any_array_isFixedWidth_iff hbuffers,
    any_input_isFixedWidth_iff g o output, output_isFixedWidth_iff houtput o]
  constructor
  · rintro (h | ⟨rfl, c, hc, hdeclared, hdata⟩ | ⟨rfl, harray | hparam | hreturns⟩ | ⟨rfl, h⟩ |
      ⟨rfl, h⟩)
    · exact .frame h
    · exact .constant hc hdeclared hdata
    · obtain ⟨type, htype, name, length, init, hitem⟩ := harray
      exact .array htype hitem
    · obtain ⟨p, hp, type, htype, heq⟩ := hparam
      exact .parameter hinfer hp htype heq
    · obtain ⟨type, htype, heq⟩ := hreturns
      exact .returned hinfer htype heq
    · exact .mutex (mem_moduleItems_mutex_iff.mpr h)
    · exact .average (firstFunction?_average.mpr ⟨h, rfl⟩)
  · intro h
    cases h with
    | frame h => exact .inl h
    | constant hc hdeclared hdata => exact .inr (.inl ⟨rfl, _, hc, hdeclared, hdata⟩)
    | array htype hitem => exact .inr (.inr (.inl ⟨rfl, .inl ⟨_, htype, _, _, _, hitem⟩⟩))
    | parameter hf hp htype heq =>
        obtain rfl := Option.some.inj (hinfer.symm.trans hf)
        exact .inr (.inr (.inl ⟨rfl, .inr (.inl ⟨_, hp, _, htype, heq⟩)⟩))
    | returned hf htype heq =>
        obtain rfl := Option.some.inj (hinfer.symm.trans hf)
        exact .inr (.inr (.inl ⟨rfl, .inr (.inr ⟨_, htype, heq⟩)⟩))
    | mutex h => exact .inr (.inr (.inr (.inl ⟨rfl, mem_moduleItems_mutex_iff.mp h⟩)))
    | average h => exact .inr (.inr (.inr (.inr ⟨rfl, (firstFunction?_average.mp h).1⟩)))

/-- A text is before another in the order of their bytes. -/
def BytesBefore (a b : String) : Prop := a.toUTF8.data.toList < b.toUTF8.data.toList

instance (a b : String) : Decidable (BytesBefore a b) := by
  unfold BytesBefore
  infer_instance

/-- The headers stand in the order of their bytes, each once: the list is picked in
order from a list of that order. -/
theorem headers_ascending (g : Graph) (o : Options) (output : Tensor) (buffers : List Buffer) :
    (headers g o output buffers).Pairwise BytesBefore := by
  have hall : ["chrono", "cmath", "cstddef", "cstdint", "mutex", "string", "unordered_map",
      "utility", "vector"].Pairwise BytesBefore := by decide
  exact hall.sublist (List.filter_sublist.map Prod.fst)

mutual

/-- The headers that an item includes, inside namespaces too. -/
def Item.included : Item → List String
  | .header name => [name]
  | .scope _ items => Item.includedAll items
  | .comment _ | .blank | .foreign _ | .typeAlias .. | .global .. | .function _ => []

/-- The headers that items include, in order. -/
def Item.includedAll : List Item → List String
  | [] => []
  | item :: rest => Item.included item ++ Item.includedAll rest

end

@[simp] theorem Item.includedAll_append (xs ys : List Item) :
    Item.includedAll (xs ++ ys) = Item.includedAll xs ++ Item.includedAll ys := by
  induction xs with
  | nil => simp [Item.includedAll]
  | cons item xs ih => simp [Item.includedAll, ih]

@[simp] theorem Item.includedAll_headers (names : List String) :
    Item.includedAll (names.map Item.header) = names := by
  induction names with
  | nil => rfl
  | cons name names ih => simp [Item.includedAll, Item.included, ih]

theorem Item.includedAll_eq_nil {items : List Item} (h : ∀ item ∈ items, item.included = []) :
    Item.includedAll items = [] := by
  induction items with
  | nil => rfl
  | cons item items ih =>
      rw [Item.includedAll, h item List.mem_cons_self,
        ih fun other hother => h other (List.mem_cons_of_mem _ hother)]
      rfl

/-- The namespace of a module includes nothing. -/
theorem includedAll_moduleItems (g : Graph) (o : Options) (output : Tensor)
    (buffers : List Buffer) : Item.includedAll (moduleItems g o output buffers) = [] := by
  refine Item.includedAll_eq_nil ?_
  intro item hitem
  by_cases hblank : item = .blank
  · rw [hblank, Item.included]
  · rw [moduleItems_eq, List.mem_append, mem_itemsBefore_iff hblank] at hitem
    rcases hitem with (h | h | ⟨-, rfl⟩ | ⟨b, -, rfl⟩) | h
    · obtain ⟨routines, rfl⟩ := exists_eq_scope_of_routineScope? h
      rw [Item.included]
      exact Item.includedAll_eq_nil (by simp [Item.included])
    · have hhistory : ∀ item ∈ historyItems o.synchronized, item.included = [] := by
        cases o.synchronized <;> simp [historyItems, Item.included]
      exact hhistory item h
    · rw [Item.included]
    · rw [Buffer.item, Item.included]
    · rw [List.mem_singleton.mp h, Item.included]

/-- A unit includes the headers of its list and no others. -/
theorem includedAll_moduleUnit (g : Graph) (o : Options) (output : Tensor)
    (buffers : List Buffer) :
    Item.includedAll (moduleUnit g o output buffers).items = headers g o output buffers := by
  simp [moduleUnit, Item.includedAll, Item.included, includedAll_moduleItems]

/-! ## What the code does with them -/

mutual

/-- The lines of code of a statement, those that open blocks among them.  The code
of operators is not looked at. -/
def Stmt.codeLines : Stmt → List String
  | .line text => [text]
  | .block header body => header :: Stmt.codeLinesAll body
  | .comment _ | .blank | .verbatim _ | .timerStart _ | .timerStop .. => []

/-- The lines of code of statements, in order. -/
def Stmt.codeLinesAll : List Stmt → List String
  | [] => []
  | s :: rest => Stmt.codeLines s ++ Stmt.codeLinesAll rest

end

theorem Stmt.codeLines_subset {s : Stmt} {body : List Stmt} (h : s ∈ body) :
    Stmt.codeLines s ⊆ Stmt.codeLinesAll body := by
  induction body with
  | nil => cases h
  | cons first body ih =>
      rw [Stmt.codeLinesAll]
      rcases List.mem_cons.mp h with rfl | h
      · exact List.subset_append_left _ _
      · exact List.Subset.trans (ih h) (List.subset_append_right _ _)

/-- The averaging function has the lines of its policy's statements. -/
theorem codeLines_averageFunction {policy : Policy} {s : Stmt} (h : s ∈ averageStatements policy)
    (synchronized : Bool) :
    Stmt.codeLines s ⊆ Stmt.codeLinesAll (averageFunction policy synchronized).body := by
  refine Stmt.codeLines_subset ?_
  simp [averageFunction, h]

/-- Under both policies the averaging function has a variable of type
`std::size_t`. -/
theorem averageFunction_counts (policy : Policy) (synchronized : Bool) :
    ∃ line ∈ Stmt.codeLinesAll (averageFunction policy synchronized).body,
      "std::size_t".toList <:+: line.toList := by
  cases policy with
  | union =>
      have hmem : Stmt.line "std::unordered_map<std::string, std::size_t> counts;" ∈
          averageStatements .union := by
        simp [averageStatements, unionStatements]
      refine ⟨_, codeLines_averageFunction hmem synchronized (List.mem_singleton_self _), ?_⟩
      exact ⟨"std::unordered_map<std::string, ".toList, "> counts;".toList, by decide⟩
  | firstCall =>
      have hmem : Stmt.block ("for (std::size_t i = 1; i < " ++ historyName ++ ".size(); ++i)") _ ∈
          averageStatements .firstCall :=
        List.mem_cons_of_mem _ (List.mem_cons_of_mem _ List.mem_cons_self)
      refine ⟨_, codeLines_averageFunction hmem synchronized List.mem_cons_self, ?_⟩
      exact ⟨"for (".toList, " i = 1; i < profiler_results.size(); ++i)".toList, by decide⟩

/-- A synchronized history is appended to under the lock. -/
theorem lock_mem_inferFunction {g : Graph} {o : Options} (output : Tensor)
    (h : o.synchronized = true) :
    Stmt.block "" [lockLine, historyAppend false] ∈ (inferFunction g o output).body := by
  simp [inferFunction, historyAppend, h]

/-- **The headers of a module.**  They stand directly behind the comment, in the
order of their bytes and each once, and the unit includes nothing else.  A header is
there exactly if the namespace has a use of it.  Where the mutex is declared, the
routine takes it; where the averaging function is, it counts in `std::size_t`. -/
theorem headers_exact (g : Graph) (o : Options) (unit : CodeUnit)
    (h : (assemble g o).outcome = .ok unit) :
    ∃ names items infer,
      unit.items = .comment (provenance g) ::
        (names.map Item.header ++ [.blank, .scope (moduleName g o) items]) ∧
      Item.includedAll unit.items = names ∧
      names.Pairwise BytesBefore ∧
      unit.scope? = some (moduleName g o, items) ∧
      unit.function? inferName = some infer ∧
      (∀ header, header ∈ names ↔ HeaderUse g items header) ∧
      (Item.global "std::mutex" mutexName none none ∈ items →
        Stmt.block "" [lockLine, historyAppend false] ∈ infer.body) ∧
      ∀ f, unit.function? averageFunctionName = some f →
        ∃ line ∈ Stmt.codeLinesAll f.body, "std::size_t".toList <:+: line.toList := by
  obtain ⟨output, buffers, houtput, hbuffers, rfl⟩ := assemble_eq_ok_iff.mp h
  refine ⟨headers g o output buffers, moduleItems g o output buffers, inferFunction g o output, ?_,
    includedAll_moduleUnit g o output buffers, headers_ascending g o output buffers,
    scope?_moduleUnit g o output buffers, ?_, fun _ => mem_headers_iff houtput hbuffers, ?_, ?_⟩
  · simp [moduleUnit]
  · rw [function?_moduleUnit, firstFunction?_infer]
  · intro hmutex
    exact lock_mem_inferFunction output (mem_moduleItems_mutex_iff.mp hmutex)
  · intro f hf
    rw [function?_moduleUnit] at hf
    obtain ⟨-, rfl⟩ := firstFunction?_average.mp hf
    exact averageFunction_counts o.policy o.synchronized

/-- A graph with an infinite element, and with integers only in tensors that are
skipped. -/
def sparseGraph : Graph where
  name := "sparse"
  constants := [{ name := "W", shape := [1], data := .float [Float32.ofBits 0x7f800000] },
    { name := "none", shape := [2, 0], data := .int64 [] }]
  intermediates := [{ name := "Y", type := .float, shape := [2] },
    { name := "Z", type := .int32, shape := [0] }]
  inputs := [{ name := "X", type := .int8, shape := [3] }]
  outputs := ["Y"]

/-- The infinite element has a header, and no other tensor has. -/
theorem headers_exact_sparse :
    ∃ unit names items, (assemble sparseGraph { utility := false }).outcome = .ok unit ∧
      unit.scope? = some ("profgen_sparse", items) ∧
      names = ["chrono", "cmath", "mutex", "string", "unordered_map", "utility", "vector"] ∧
      Item.includedAll unit.items = names ∧ names.Pairwise BytesBefore ∧
      HeaderUse sparseGraph items "cmath" ∧ ¬ HeaderUse sparseGraph items "cstdint" ∧
      ¬ HeaderUse sparseGraph items "cstddef" := by
  have hlist : ((assemble sparseGraph { utility := false }).outcome.map fun unit =>
      Item.includedAll unit.items) =
        .ok ["chrono", "cmath", "mutex", "string", "unordered_map", "utility", "vector"] := by
    decide +kernel
  have hisOk : (assemble sparseGraph { utility := false }).outcome.isOk = true := by
    decide +kernel
  obtain ⟨unit, hunit⟩ := exists_eq_ok_of_isOk hisOk
  obtain ⟨names, items, infer, -, hincluded, hascending, hscope, -, huse, -⟩ :=
    headers_exact sparseGraph { utility := false } unit hunit
  rw [hunit] at hlist
  have hnames := hincluded.symm.trans (Except.ok.inj hlist)
  have hname : moduleName sparseGraph { utility := false } = "profgen_sparse" := by decide +kernel
  rw [hname] at hscope
  rw [hnames] at huse
  exact ⟨unit, names, items, hunit, hscope, hnames, hincluded, hascending, (huse _).mp (by decide),
    fun h => absurd ((huse _).mpr h) (by decide), fun h => absurd ((huse _).mpr h) (by decide)⟩

end Chronograph
