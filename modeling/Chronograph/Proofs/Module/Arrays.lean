import Chronograph.Proofs.Graph.Building
import Chronograph.Proofs.Module.Declarations

/-!
# The arrays of a module

A module declares an array for each constant and each intermediate tensor that has
one: those of a declared type with at least one element.  The arrays stand in the
order of the tables, constants first (`exists_arrays`), and no other variable of the
module has a length (`filter_isArray_moduleItems`).

An array is named for its tensor.  In each table of a graph that is built the names
are distinct, but the two tables do not know of each other, and their arrays meet in
one namespace.  So the arrays of a module have distinct names exactly if no constant
and no intermediate tensor with an array share a name (`array_names`).
-/

namespace Chronograph

/-! ## Arrays in order -/

/-- The name of the array that an item declares. -/
def Item.arrayName? : Item → Option String
  | .global _ name (some _) _ => some name
  | _ => none

/-- Whether an item declares an array. -/
def Item.isArray (item : Item) : Bool := item.arrayName?.isSome

/-- A constant that has an array. -/
def Constant.HasArray (c : Constant) : Prop := c.type.Declared ∧ c.shape.product ≠ 0

/-- An intermediate tensor that has an array. -/
def Tensor.HasArray (t : Tensor) : Prop := t.type.Declared ∧ t.shape.product ≠ 0

instance (c : Constant) : Decidable c.HasArray := by unfold Constant.HasArray; infer_instance

instance (t : Tensor) : Decidable t.HasArray := by unfold Tensor.HasArray; infer_instance

/-- An item that declares the array of a constant, with the constant's elements. -/
def Constant.DeclaredBy (c : Constant) (item : Item) : Prop :=
  ∃ codeType length, c.type.codeType? = some codeType ∧ length.toNat = c.shape.product ∧
    item = .global codeType (bufferName c.name) (some length) (some (braced c.data.literals))

/-- An item that declares the array of an intermediate tensor, all zero. -/
def Tensor.DeclaredBy (t : Tensor) (item : Item) : Prop :=
  ∃ codeType length, t.type.codeType? = some codeType ∧ length.toNat = t.shape.product ∧
    item = .global codeType (bufferName t.name) (some length) (some "\x7b\x7d")

theorem Constant.not_hasArray {c : Constant} (h : ¬ c.HasArray) : c.verdict.buffer? = none := by
  cases hverdict : c.verdict with
  | declared b =>
      obtain ⟨codeType, length, hcode, hcount, -, hne, -⟩ :=
        Constant.verdict_declared_iff.mp hverdict
      have hzero := eq_zero_iff_toNat.not.mp hne
      rw [(countElements_eq_ok_iff.mp hcount).2] at hzero
      exact absurd ⟨declared_of_codeType? hcode, hzero⟩ h
  | _ => rfl

theorem Constant.HasArray.exists_buffer {c : Constant} (h : c.HasArray)
    (hfits : c.shape.Fits) (hdata : c.data.length = c.shape.product) :
    ∃ b : Buffer, c.verdict.buffer? = some b ∧ c.DeclaredBy b.item := by
  obtain ⟨codeType, hcode⟩ := h.1.exists_codeType?
  obtain ⟨length, hcount⟩ := exists_countElements c.name hfits
  have hlength := (countElements_eq_ok_iff.mp hcount).2
  have hne : length ≠ 0 := by
    rw [Ne, eq_zero_iff_toNat, hlength]
    exact h.2
  have hverdict := Constant.verdict_declared_iff.mpr
    ⟨codeType, length, hcode, hcount, hdata.trans hlength.symm, hne, rfl⟩
  exact ⟨_, by rw [hverdict, Verdict.buffer?], codeType, length, hcode, hlength, rfl⟩

theorem Tensor.not_hasArray {t : Tensor} (h : ¬ t.HasArray) : t.verdict.buffer? = none := by
  cases hverdict : t.verdict with
  | declared b =>
      obtain ⟨codeType, length, hcode, hcount, hne, -⟩ := Tensor.verdict_declared_iff.mp hverdict
      have hzero := eq_zero_iff_toNat.not.mp hne
      rw [(countElements_eq_ok_iff.mp hcount).2] at hzero
      exact absurd ⟨declared_of_codeType? hcode, hzero⟩ h
  | _ => rfl

theorem Tensor.HasArray.exists_buffer {t : Tensor} (h : t.HasArray) (hfits : t.shape.Fits) :
    ∃ b : Buffer, t.verdict.buffer? = some b ∧ t.DeclaredBy b.item := by
  obtain ⟨codeType, hcode⟩ := h.1.exists_codeType?
  obtain ⟨length, hcount⟩ := exists_countElements t.name hfits
  have hlength := (countElements_eq_ok_iff.mp hcount).2
  have hne : length ≠ 0 := by
    rw [Ne, eq_zero_iff_toNat, hlength]
    exact h.2
  have hverdict := Tensor.verdict_declared_iff.mpr ⟨codeType, length, hcode, hcount, hne, rfl⟩
  exact ⟨_, by rw [hverdict, Verdict.buffer?], codeType, length, hcode, hlength, rfl⟩

/-- The buffers of a table are declared by its entries that have one, in order. -/
theorem forall₂_buffers {α : Type} (verdict : α → Verdict) {has : α → Prop} [DecidablePred has]
    {declares : α → Item → Prop} {table : List α}
    (hsome : ∀ x ∈ table, has x → ∃ b, (verdict x).buffer? = some b ∧ declares x b.item)
    (hnone : ∀ x, ¬ has x → (verdict x).buffer? = none) :
    List.Forall₂ declares (table.filter has)
      (((table.map verdict).filterMap Verdict.buffer?).map Buffer.item) := by
  induction table with
  | nil => exact .nil
  | cons x table ih =>
      have hrest := ih fun y hy => hsome y (List.mem_cons_of_mem x hy)
      rw [List.map_cons]
      by_cases hx : has x
      · obtain ⟨b, hb, hdeclares⟩ := hsome x List.mem_cons_self hx
        rw [List.filter_cons_of_pos (by simpa using hx), List.filterMap_cons_some hb, List.map_cons]
        exact .cons hdeclares hrest
      · rw [List.filter_cons_of_neg (by simpa using hx), List.filterMap_cons_none (hnone x hx)]
        exact hrest

/-- **The arrays of a module in order**: those of the constants, then those of the
intermediate tensors, each in the order of its table. -/
theorem exists_arrays {g : Graph} {buffers : List Buffer}
    (h : (settle g.verdicts).outcome = .ok buffers) :
    ∃ constantArrays tensorArrays, buffers.map Buffer.item = constantArrays ++ tensorArrays ∧
      List.Forall₂ Constant.DeclaredBy (g.constants.filter Constant.HasArray) constantArrays ∧
      List.Forall₂ Tensor.DeclaredBy (g.intermediates.filter Tensor.HasArray) tensorArrays := by
  obtain ⟨hnone, rfl⟩ := settle_eq_ok_iff.mp h
  have hsound := soundTensors_iff.mpr hnone
  refine ⟨_, _, ?_, forall₂_buffers Constant.verdict ?_ fun c => Constant.not_hasArray,
    forall₂_buffers Tensor.verdict ?_ fun t => Tensor.not_hasArray⟩
  · rw [Graph.verdicts, List.filterMap_append, List.map_append]
  · intro c hc harray
    obtain ⟨hfits, hdata⟩ := hsound.constants c hc harray.1
    exact harray.exists_buffer hfits hdata
  · intro t ht harray
    exact harray.exists_buffer (hsound.intermediates t ht harray.1)

/-- The arrays of a module are its buffers: no other variable has a length. -/
theorem filter_isArray_moduleItems (g : Graph) (o : Options) (output : Tensor)
    (buffers : List Buffer) :
    (moduleItems g o output buffers).filter Item.isArray = buffers.map Buffer.item := by
  have hdeclares (item : Item) (h : item.isArray = true) : item.isDeclaration = true := by
    cases item <;> first | rfl | cases h
  rw [filter_moduleItems hdeclares, filter_map_item (b := true) fun _ => rfl]
  unfold routineScopes averageDeclarations
  cases o.synchronized <;> cases o.utility <;> split <;> exact List.append_nil _

/-! ## Names of arrays -/

/-- The names of some items' arrays are those of the items that declare an array. -/
theorem filterMap_arrayName? (items : List Item) :
    (items.filter Item.isArray).filterMap Item.arrayName? = items.filterMap Item.arrayName? := by
  rw [List.filterMap_filter]
  refine List.filterMap_congr fun item _ => ?_
  unfold Item.isArray
  cases item.arrayName? <;> rfl

/-- Arrays that are declared one for each tensor have the tensors' names. -/
theorem arrayNames_of_forall₂ {α : Type} {declares : α → Item → Prop} {name : α → String}
    (hname : ∀ x item, declares x item → item.arrayName? = some (bufferName (name x)))
    {table : List α} {arrays : List Item} (h : List.Forall₂ declares table arrays) :
    arrays.filterMap Item.arrayName? = (table.map name).map bufferName := by
  induction h with
  | nil => rfl
  | cons hx _ ih => rw [List.filterMap_cons_some (hname _ _ hx), ih]; rfl

/-- The names of the arrays of a module, in order. -/
theorem arrayNames_moduleItems {g : Graph} {buffers : List Buffer}
    (h : (settle g.verdicts).outcome = .ok buffers) (o : Options) (output : Tensor) :
    (moduleItems g o output buffers).filterMap Item.arrayName? =
      ((g.constants.filter Constant.HasArray).map Constant.name
        ++ (g.intermediates.filter Tensor.HasArray).map Tensor.name).map bufferName := by
  obtain ⟨constantArrays, tensorArrays, harrays, hconstants, htensors⟩ := exists_arrays h
  have hconstant (c : Constant) (item : Item) (h : c.DeclaredBy item) :
      item.arrayName? = some (bufferName c.name) := by
    obtain ⟨codeType, length, -, -, rfl⟩ := h
    rfl
  have htensor (t : Tensor) (item : Item) (h : t.DeclaredBy item) :
      item.arrayName? = some (bufferName t.name) := by
    obtain ⟨codeType, length, -, -, rfl⟩ := h
    rfl
  rw [← filterMap_arrayName?, filter_isArray_moduleItems, harrays, List.filterMap_append,
    arrayNames_of_forall₂ hconstant hconstants, arrayNames_of_forall₂ htensor htensors,
    ← List.map_append]

/-- Two lists of distinct names are distinct together exactly if they share none. -/
theorem nodup_append_iff_of_nodup {α β : Type} {xs : List α} {ys : List β} {f : α → String}
    {g : β → String} (hxs : (xs.map f).Nodup) (hys : (ys.map g).Nodup) :
    (xs.map f ++ ys.map g).Nodup ↔ ∀ x ∈ xs, ∀ y ∈ ys, f x ≠ g y := by
  rw [List.nodup_append]
  simp [hxs, hys]

/-- **The names of arrays.**  In the module of a graph that is built by any steps, an
array stands for each constant and each intermediate tensor that has one, under the
name of the tensor.  The names are distinct exactly if no constant and no
intermediate tensor that have arrays share a name; the steps do not see to that. -/
theorem array_names (name : String) (steps : List BuildStep) (o : Options) (unit : CodeUnit)
    (h : (assemble (Graph.built name steps) o).outcome = .ok unit) :
    ∃ items, unit.scope? = some (moduleName (Graph.built name steps) o, items) ∧
      items.filterMap Item.arrayName? =
        (((Graph.built name steps).constants.filter Constant.HasArray).map Constant.name
          ++ ((Graph.built name steps).intermediates.filter Tensor.HasArray).map
            Tensor.name).map bufferName ∧
      ((items.filterMap Item.arrayName?).Nodup ↔
        ∀ c ∈ (Graph.built name steps).constants, ∀ t ∈ (Graph.built name steps).intermediates,
          c.HasArray → t.HasArray → c.name ≠ t.name) := by
  obtain ⟨output, buffers, -, hbuffers, rfl⟩ := assemble_eq_ok_iff.mp h
  have hnames := arrayNames_moduleItems hbuffers o output
  refine ⟨_, scope?_moduleUnit _ o output buffers, hnames, ?_⟩
  have hconstants : ((Graph.built name steps).constants.map Constant.name).Nodup := by
    rw [constants_built]
    exact nodup_tableOf _
  have htensors : ((Graph.built name steps).intermediates.map Tensor.name).Nodup := by
    rw [intermediates_built]
    exact nodup_tableOf _
  have hinjective : Function.Injective bufferName := fun _ _ => bufferName_inj.mp
  rw [← moduleItems_eq, hnames, List.nodup_map_iff hinjective,
    nodup_append_iff_of_nodup (hconstants.sublist (List.filter_sublist.map _))
      (htensors.sublist (List.filter_sublist.map _))]
  simp only [List.mem_filter, decide_eq_true_eq]
  constructor
  · intro hapart c hc t ht hcarray htarray
    exact hapart c ⟨hc, hcarray⟩ t ⟨ht, htarray⟩
  · rintro hapart c ⟨hc, hcarray⟩ t ⟨ht, htarray⟩
    exact hapart c hc t ht hcarray htarray

/-- Steps that add a constant and an intermediate tensor under one name. -/
def twinnedSteps : List BuildStep :=
  [.constant { name := "W", shape := [1], data := .int32 [7] },
    .intermediate { name := "W", type := .float, shape := [2] },
    .intermediate { name := "Y", type := .float, shape := [3] }, .output "Y"]

/-- The two tensors keep their tables' names distinct and get one array name. -/
theorem array_names_twinned :
    ∃ unit items, (assemble (Graph.built "twinned" twinnedSteps) {}).outcome = .ok unit ∧
      unit.scope? = some ("profgen_twinned", items) ∧
      items.filterMap Item.arrayName? = ["tensor_W", "tensor_W", "tensor_Y"] ∧
      ¬ (items.filterMap Item.arrayName?).Nodup := by
  have hunit : (assemble (Graph.built "twinned" twinnedSteps) {}).outcome.isOk = true := by
    decide +kernel
  obtain ⟨unit, hunit⟩ := exists_eq_ok_of_isOk hunit
  obtain ⟨items, hscope, hnames, -⟩ := array_names "twinned" twinnedSteps {} unit hunit
  have hname : moduleName (Graph.built "twinned" twinnedSteps) {} = "profgen_twinned" := by
    decide +kernel
  have hlist : items.filterMap Item.arrayName? = ["tensor_W", "tensor_W", "tensor_Y"] := by
    rw [hnames]
    decide +kernel
  rw [hname] at hscope
  refine ⟨unit, items, hunit, hscope, hlist, ?_⟩
  rw [hlist]
  decide

end Chronograph
