import Chronograph.Proofs.Module.Signature

/-!
# The declarations of a module

Without its comments and blank lines, the namespace of a module is a list of
declarations in a fixed order (`moduleDeclarations`).  Each part of the list is there
for a reason of its own: the scope of the external routines for a routine that is
known, the mutex and the averaging function for an option, an array for a tensor.
Whatever is picked out of the namespace, comments and blank lines aside, can be picked
out of this list instead (`filter_moduleItems`).
-/

namespace Chronograph

/-- Whether an item declares something: neither a comment nor a blank line. -/
def Item.isDeclaration : Item → Bool
  | .comment _ | .blank => false
  | _ => true

/-- The scope of the external routines of some names, if any of them is known. -/
def routineScopes (names : List String) : List Item :=
  if names.any fun name => (Routine.ofName? name).isSome then
    [.scope "BLAS" ((knownRoutines names).map fun r => .foreign r.signature)]
  else []

/-- The declarations of the type of a run, of the history, and of the mutex of a
synchronized history. -/
def historyDeclarations (synchronized : Bool) : List Item :=
  [.typeAlias resultTypeName "std::unordered_map<std::string, double>",
    .global ("std::vector<" ++ resultTypeName ++ ">") historyName none none]
  ++ if synchronized then [.global "std::mutex" mutexName none none] else []

/-- The averaging function, if it is asked for. -/
def averageDeclarations (o : Options) : List Item :=
  if o.utility then [.function (averageFunction o.policy o.synchronized)] else []

/-- The declarations of a module, in order. -/
def moduleDeclarations (g : Graph) (o : Options) (output : Tensor) (buffers : List Buffer) :
    List Item :=
  routineScopes g.routines ++ historyDeclarations o.synchronized ++ averageDeclarations o
    ++ buffers.map Buffer.item ++ [.function (inferFunction g o output)]

/-! ## The scope of the external routines -/

theorem ofName?_eq_some_iff {name : String} {r : Routine} :
    Routine.ofName? name = some r ↔ r.name = name := by
  constructor
  · intro h
    simpa using List.find?_some h
  · rintro rfl
    exact Routine.ofName?_name r

/-- A routine is known among some names exactly if its name is one of them. -/
theorem mem_knownRoutines_iff {names : List String} {r : Routine} :
    r ∈ knownRoutines names ↔ r.name ∈ names := by
  have hall : r ∈ Routine.all := by cases r <;> decide
  simp [knownRoutines, hall]

theorem knownRoutines_eq_nil_iff {names : List String} :
    knownRoutines names = [] ↔ ∀ name ∈ names, Routine.ofName? name = none := by
  rw [List.eq_nil_iff_forall_not_mem]
  simp only [mem_knownRoutines_iff]
  constructor
  · intro h name hname
    rw [Option.eq_none_iff_forall_ne_some]
    intro r hr
    exact h r (ofName?_eq_some_iff.mp hr ▸ hname)
  · intro h r hr
    have hnone := h r.name hr
    rw [Routine.ofName?_name] at hnone
    cases hnone

/-- The scope of the external routines is there exactly if a routine is known. -/
theorem routineScope?_toList (names : List String) :
    (routineScope? names).toList = routineScopes names := by
  unfold routineScope? routineScopes
  by_cases hany : names.any fun name => (Routine.ofName? name).isSome
  · rw [if_pos hany]
    obtain ⟨name, hname, hknown⟩ := List.any_eq_true.mp hany
    cases hroutines : knownRoutines names with
    | nil =>
        rw [knownRoutines_eq_nil_iff.mp hroutines name hname] at hknown
        cases hknown
    | cons r rest => rfl
  · rw [if_neg hany]
    have hnil : knownRoutines names = [] := by
      rw [knownRoutines_eq_nil_iff]
      simpa using hany
    rw [hnil]
    rfl

/-! ## Picking items out -/

theorem isDeclaration_routineScopes {names : List String} {item : Item}
    (h : item ∈ routineScopes names) : item.isDeclaration = true := by
  unfold routineScopes at h
  split at h
  · rw [List.mem_singleton.mp h]
    rfl
  · cases h

/-- All arrays are alike to a test that does not tell them apart. -/
theorem filter_map_item {p : Item → Bool} {b : Bool} (hp : ∀ buffer : Buffer, p buffer.item = b)
    (buffers : List Buffer) :
    (buffers.map Buffer.item).filter p = if b then buffers.map Buffer.item else [] := by
  cases b with
  | false =>
      rw [if_neg Bool.false_ne_true, List.filter_eq_nil_iff]
      intro item hitem
      obtain ⟨buffer, -, rfl⟩ := List.mem_map.mp hitem
      rw [hp]
      exact Bool.false_ne_true
  | true =>
      rw [if_pos rfl, List.filter_eq_self]
      intro item hitem
      obtain ⟨buffer, -, rfl⟩ := List.mem_map.mp hitem
      exact hp buffer

/-- **The declarations of a module** are what is left of its namespace without comments
and blank lines. -/
theorem filter_isDeclaration_moduleItems (g : Graph) (o : Options) (output : Tensor)
    (buffers : List Buffer) :
    (moduleItems g o output buffers).filter Item.isDeclaration =
      moduleDeclarations g o output buffers := by
  have hhistory : (historyItems o.synchronized).filter Item.isDeclaration =
      historyDeclarations o.synchronized := by
    cases o.synchronized <;> rfl
  have haverage : (if o.utility then
      [Item.function (averageFunction o.policy o.synchronized), .blank]
        else []).filter Item.isDeclaration = averageDeclarations o := by
    unfold averageDeclarations
    cases o.utility <;> rfl
  have hbuffers : (if buffers.isEmpty then []
      else buffers.map Buffer.item ++ [.blank]).filter Item.isDeclaration =
        buffers.map Buffer.item := by
    have hitems : (buffers.map Buffer.item).filter Item.isDeclaration = buffers.map Buffer.item :=
      filter_map_item (b := true) (fun _ => rfl) buffers
    cases buffers with
    | nil => rfl
    | cons b rest => rw [if_neg (by simp), List.filter_append, hitems]; exact List.append_nil _
  rw [moduleItems, List.filter_append, List.filter_append, List.filter_append, List.filter_append,
    hhistory, haverage, hbuffers]
  refine congrArg (· ++ _ ++ _ ++ _ ++ _) ?_
  have hdeclares (item : Item) := @isDeclaration_routineScopes g.routines item
  rw [← routineScope?_toList] at hdeclares ⊢
  cases hscope : routineScope? g.routines with
  | none => rfl
  | some scope =>
      have hone : scope.isDeclaration = true := hdeclares scope (by simp [hscope])
      exact List.filter_cons_of_pos hone

/-- What is picked out of a module's namespace, comments and blank lines aside, is
picked out of its declarations, part by part. -/
theorem filter_moduleItems {p : Item → Bool} (hp : ∀ item, p item = true → item.isDeclaration)
    (g : Graph) (o : Options) (output : Tensor) (buffers : List Buffer) :
    (moduleItems g o output buffers).filter p =
      (routineScopes g.routines).filter p ++ (historyDeclarations o.synchronized).filter p
        ++ (averageDeclarations o).filter p ++ (buffers.map Buffer.item).filter p
        ++ [Item.function (inferFunction g o output)].filter p := by
  have hdeclarations : (moduleItems g o output buffers).filter p =
      (moduleDeclarations g o output buffers).filter p := by
    rw [← filter_isDeclaration_moduleItems, List.filter_filter]
    refine List.filter_congr fun item _ => ?_
    cases hitem : p item with
    | false => rfl
    | true => rw [hp item hitem]; rfl
  rw [hdeclarations, moduleDeclarations, List.filter_append, List.filter_append,
    List.filter_append, List.filter_append]

end Chronograph
