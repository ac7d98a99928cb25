import Chronograph.Proofs.Module.Acceptance
import Chronograph.Proofs.Module.Arrays

/-!
# The place of each option

The assembly of a unit hands its options on to everything it puts together: the
headers, the history, the averaging function, the inference routine and the name of
the namespace.  Each option keeps to a place of its own all the same.  A graph
without a unit has none under any options, for one reason.  A graph with a unit has
parts that are the same in all of its units (`FixedParts`); between them the options
choose the statement that appends to the history, the averaging function and the name
of the namespace, and each of these depends on the options that are meant for it
(`options_keep_to_their_places`).
-/

namespace Chronograph

/-! ## Scopes and functions of a module -/

/-- Whether an item is a namespace. -/
def Item.isScope : Item → Bool
  | .scope .. => true
  | _ => false

/-- Whether an item is a function. -/
def Item.isFunction : Item → Bool
  | .function _ => true
  | _ => false

/-- The namespaces within a module are the scope of its external routines. -/
theorem filter_isScope_moduleItems (g : Graph) (o : Options) (output : Tensor)
    (buffers : List Buffer) :
    (moduleItems g o output buffers).filter Item.isScope = routineScopes g.routines := by
  have hdeclares (item : Item) (h : item.isScope = true) : item.isDeclaration = true := by
    cases item <;> first | rfl | cases h
  rw [filter_moduleItems hdeclares, filter_map_item (b := false) fun _ => rfl]
  unfold routineScopes averageDeclarations
  cases o.synchronized <;> cases o.utility <;> split <;> rfl

/-- The functions of a module are the averaging function, if it is asked for, and the
inference routine. -/
theorem filter_isFunction_moduleItems (g : Graph) (o : Options) (output : Tensor)
    (buffers : List Buffer) :
    (moduleItems g o output buffers).filter Item.isFunction =
      averageDeclarations o ++ [.function (inferFunction g o output)] := by
  have hdeclares (item : Item) (h : item.isFunction = true) : item.isDeclaration = true := by
    cases item <;> first | rfl | cases h
  rw [filter_moduleItems hdeclares, filter_map_item (b := false) fun _ => rfl]
  unfold routineScopes averageDeclarations
  cases o.synchronized <;> cases o.utility <;> split <;> rfl

/-! ## What options leave alone -/

/-- The parts of a graph's unit that no option chooses. -/
structure FixedParts where
  comment : String
  routines : List Item
  arrays : List Item
  /-- The type that the inference routine returns. -/
  returns : String
  params : List Param
  /-- The statements before the one that appends to the history. -/
  before : List Stmt
  /-- The statements behind it. -/
  after : List Stmt

/-- The inference routine of the parts; the options have one statement in it. -/
def FixedParts.infer (parts : FixedParts) (synchronized : Bool) : Function where
  returns := parts.returns
  name := inferName
  params := parts.params
  body := parts.before ++ historyAppend synchronized :: parts.after

/-- A unit has the fixed parts, and around them what some options choose. -/
structure FixedParts.In (parts : FixedParts) (o : Options) (unit : CodeUnit)
    (items : List Item) : Prop where
  comment : unit.items.head? = some (.comment parts.comment)
  routines : items.filter Item.isScope = parts.routines
  arrays : items.filter Item.isArray = parts.arrays
  functions : items.filter Item.isFunction =
    (if o.utility then [.function (averageFunction o.policy o.synchronized)] else [])
      ++ [.function (parts.infer o.synchronized)]

/-- An item, under another name if it is a namespace. -/
def Item.rename (name : String) : Item → Item
  | .scope _ items => .scope name items
  | item => item

/-- A unit with its namespace under another name. -/
def CodeUnit.rename (name : String) (u : CodeUnit) : CodeUnit where
  items := u.items.map (Item.rename name)

/-- The fixed parts of a graph whose output and buffers are settled. -/
def fixedParts (g : Graph) (output : Tensor) (buffers : List Buffer) : FixedParts where
  comment := provenance g
  routines := routineScopes g.routines
  arrays := buffers.map Buffer.item
  returns := "std::vector<" ++ output.type.codeType?.getD "float" ++ ">"
  params := (inferFunction g {} output).params
  before := timerLocals ++ [.blank] ++ weave g.operators ++ [.blank]
  after := copyOut (output.type.codeType?.getD "float") (bufferName output.name)

/-- The history is appended to between statements that no option chooses. -/
theorem inferFunction_eq (g : Graph) (o : Options) (output : Tensor) (buffers : List Buffer) :
    inferFunction g o output = (fixedParts g output buffers).infer o.synchronized := by
  simp [inferFunction, FixedParts.infer, fixedParts, copyOut]

/-- The fixed parts are in the unit under all options. -/
theorem fixedParts_in (g : Graph) (o : Options) (output : Tensor) (buffers : List Buffer) :
    (fixedParts g output buffers).In o (moduleUnit g o output buffers)
      (moduleItems g o output buffers) where
  comment := rfl
  routines := filter_isScope_moduleItems g o output buffers
  arrays := filter_isArray_moduleItems g o output buffers
  functions := by
    rw [filter_isFunction_moduleItems, inferFunction_eq g o output buffers]
    rfl

/-- The prefix is read for the name of the namespace only. -/
theorem rename_moduleUnit (g : Graph) (o : Options) (output : Tensor) (buffers : List Buffer)
    (namespacePrefix : String) :
    (moduleUnit g o output buffers).rename (toSymbol (namespacePrefix ++ g.name)) =
      moduleUnit g { o with namespacePrefix } output buffers := by
  have hheaders (names : List String) (name : String) :
      (names.map Item.header).map (Item.rename name) = names.map Item.header := by
    rw [List.map_map]
    rfl
  simp only [CodeUnit.rename, moduleUnit, List.map_append, hheaders]
  rfl

/-- **Options keep to their places.**  A graph either fails for one reason under all
options, or it has a module under all of them.  Its units have the same comment, the
same scope of external routines, the same arrays in the same order, and one inference
routine, in which the statement that appends to the history depends on whether the
history is synchronized, and nothing else on any option.  The averaging function is
there if it is asked for, and depends on the policy and on that.  With another prefix
the unit is the same, under another name of the namespace. -/
theorem options_keep_to_their_places (g : Graph) :
    (∃ fault, ∀ o, (assemble g o).outcome = .error fault ∧
      (generate g o).outcome = .error (.graph fault)) ∨
    ∃ parts : FixedParts, ∀ o, ∃ unit items text,
      (assemble g o).outcome = .ok unit ∧ (generate g o).outcome = .ok text ∧
      unit.scope? = some (toSymbol (o.namespacePrefix ++ g.name), items) ∧
      parts.In o unit items ∧
      ∀ namespacePrefix, (assemble g { o with namespacePrefix }).outcome =
        .ok (unit.rename (toSymbol (namespacePrefix ++ g.name))) := by
  cases hdefault : (assemble g {}).outcome with
  | error fault =>
      left
      refine ⟨fault, fun o => ?_⟩
      have herror : (assemble g o).outcome = .error fault :=
        assemble_eq_error_iff.mpr (assemble_eq_error_iff.mp hdefault)
      exact ⟨herror, generate_eq_error_iff.mpr ⟨fault, rfl, herror⟩⟩
  | ok unit =>
      right
      obtain ⟨output, buffers, houtput, hbuffers, -⟩ := assemble_eq_ok_iff.mp hdefault
      have hunit (o : Options) : (assemble g o).outcome = .ok (moduleUnit g o output buffers) :=
        assemble_eq_ok_iff.mpr ⟨output, buffers, houtput, hbuffers, rfl⟩
      refine ⟨fixedParts g output buffers, fun o => ?_⟩
      obtain ⟨text, htext⟩ := exists_generate_iff.mpr ⟨_, hunit o⟩
      refine ⟨_, _, text, hunit o, htext, scope?_moduleUnit g o output buffers,
        fixedParts_in g o output buffers, fun namespacePrefix => ?_⟩
      rw [hunit, rename_moduleUnit]

end Chronograph
