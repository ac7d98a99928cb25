import Mathlib.Data.List.Infix
import Chronograph.Proofs.Code.Names
import Chronograph.Proofs.Module.Arrays

/-!
# Declarations before uses

The code of a module uses names that the module declares for itself: the type of a
run, the history and its mutex, and the array of the output (`ownedNames`).  Each of
them is declared before it is used.  For a single item this means that the items before
it declare the owned names in its code (`Item.BackedBy`), and a namespace is shown to
have it item by item (`AllBacked`).

Almost all code is fixed text, in which no tensor's name occurs, so which owned names it
uses can be looked up once (`UsesFixed`, `usesFixed_code`).  Two texts are not fixed: the
one that stores the time of an operator, whose name stands between quotes, and the one
that copies the output's array, which is the only place where a tensor's name is used.
-/

namespace Chronograph

/-! ## Owned names -/

/-- The names that every module declares or may declare. -/
def fixedNames : List String := [resultTypeName, historyName, mutexName]

/-- The names that the code of a module declares for its own use. -/
def ownedNames (output : Tensor) : List String := fixedNames ++ [bufferName output.name]

/-- A name that is not owned, whatever the output is. -/
def ForeignName (name : String) : Prop := name ∉ fixedNames ∧ ¬ "tensor_".toList <+: name.toList

/-- Fixed texts, with the owned names that they use. -/
def UsesFixed (used texts : List String) : Prop :=
  (∀ text ∈ texts, ¬ "tensor_".toList <:+: text.toList) ∧
    (∀ name ∈ used, name ∈ namesInAll "tensor_".toList texts) ∧
    ∀ name ∈ namesInAll "tensor_".toList texts, name ∈ used ∨ ForeignName name

instance (name : String) : Decidable (ForeignName name) := by
  unfold ForeignName
  infer_instance

instance (used texts : List String) : Decidable (UsesFixed used texts) := by
  unfold UsesFixed
  infer_instance

theorem toList_bufferName (tensor : String) :
    (bufferName tensor).toList = "tensor_".toList ++ tensor.toList :=
  String.toList_append

theorem ForeignName.not_owned {name : String} (h : ForeignName name) (output : Tensor) :
    name ∉ ownedNames output := by
  intro howned
  rcases List.mem_append.mp howned with hfixed | hbuffer
  · exact h.1 hfixed
  · refine h.2 ?_
    rw [List.mem_singleton.mp hbuffer, toList_bufferName]
    exact List.prefix_append _ _

/-- Texts in which the name of no tensor's array can occur are read in the same way for
all of them. -/
theorem namesInAll_bufferName {texts : List String}
    (h : ∀ text ∈ texts, ¬ "tensor_".toList <:+: text.toList) (tensor : String) :
    namesInAll (bufferName tensor).toList texts = namesInAll "tensor_".toList texts := by
  refine List.flatMap_congr fun text htext => ?_
  refine readNames_eq_of_absent (fun hoccurs => h text htext ?_) (h text htext) _
  rw [toList_bufferName] at hoccurs
  exact (List.prefix_append _ _).isInfix.trans hoccurs

/-- The owned names in fixed texts are those that they use. -/
theorem UsesFixed.mem_iff {used texts : List String} {name : String} {output : Tensor}
    (h : UsesFixed used texts) (howned : name ∈ ownedNames output) :
    name ∈ namesInAll (bufferName output.name).toList texts ↔ name ∈ used := by
  obtain ⟨habsent, hused, hnames⟩ := h
  rw [namesInAll_bufferName habsent]
  constructor
  · intro hname
    exact (hnames name hname).resolve_right fun hforeign => hforeign.not_owned output howned
  · exact hused name

theorem usesFixed_nil : UsesFixed [] [] := ⟨nofun, nofun, nofun⟩

/-! ## Backed items -/

/-- The items before an item declare the owned names that its code uses. -/
def Item.BackedBy (output : Tensor) (earlier : List Item) (item : Item) : Prop :=
  ∀ name ∈ ownedNames output, name ∈ namesInAll (bufferName output.name).toList item.codeTexts →
    name ∈ earlier.filterMap Item.declaredName?

/-- Each item is backed by those before it and by some that stand before all. -/
def AllBacked (output : Tensor) : List Item → List Item → Prop
  | _, [] => True
  | earlier, item :: rest =>
    item.BackedBy output earlier ∧ AllBacked output (earlier ++ [item]) rest

section

variable {output : Tensor} {earlier : List Item}

theorem allBacked_append {xs ys : List Item} :
    AllBacked output earlier (xs ++ ys) ↔
      AllBacked output earlier xs ∧ AllBacked output (earlier ++ xs) ys := by
  induction xs generalizing earlier with
  | nil => simp [AllBacked]
  | cons item xs ih => simp [AllBacked, ih, and_assoc]

/-- In a backed list an item is backed by all that stands before it. -/
theorem AllBacked.backedBy {before after : List Item} {item : Item}
    (h : AllBacked output [] (before ++ item :: after)) : item.BackedBy output before := by
  have hitem := (allBacked_append.mp h).2.1
  rwa [List.nil_append] at hitem

/-- An item of fixed code is backed if the names that it uses are declared. -/
theorem Item.backedBy_of_usesFixed {item : Item} {used : List String}
    (huses : UsesFixed used item.codeTexts)
    (hdeclared : used ⊆ earlier.filterMap Item.declaredName?) : item.BackedBy output earlier :=
  fun _ howned hname => hdeclared ((huses.mem_iff howned).mp hname)

/-- Items of fixed code that uses no owned name are backed by anything. -/
theorem allBacked_of_usesFixed_nil {items : List Item}
    (h : ∀ item ∈ items, UsesFixed [] item.codeTexts) : AllBacked output earlier items := by
  induction items generalizing earlier with
  | nil => trivial
  | cons item items ih =>
      exact ⟨Item.backedBy_of_usesFixed (h item List.mem_cons_self) (List.nil_subset _),
        ih fun other hother => h other (List.mem_cons_of_mem _ hother)⟩

end

/-! ## The code of a module -/

/-- The names in the text that stores the time of an operator. -/
def timerStopNames : List String :=
  ["current_execution", "static_cast", "double", "std", "chrono", "duration_cast", "std",
    "chrono", "microseconds", "std", "chrono", "steady_clock", "now", "tp_start", "count"]

/-- The pieces of the fixed code of a module, with the owned names that each uses. -/
structure FixedCode : Prop where
  runType : UsesFixed [] ["std::unordered_map<std::string, double>"]
  historyType : UsesFixed [resultTypeName] ["std::vector<" ++ resultTypeName ++ ">"]
  mutexType : UsesFixed [] ["std::mutex"]
  /-- The averaging function takes the mutex if the history is synchronized. -/
  average (policy : Policy) (synchronized : Bool) :
    UsesFixed ([resultTypeName, historyName] ++ if synchronized then [mutexName] else [])
      (Item.function (averageFunction policy synchronized)).codeTexts
  /-- The types of elements, of parameters and of the vector that is returned. -/
  elements {t : ElementType} {codeType : String} (h : t.codeType? = some codeType) :
    ForeignName codeType ∧ UsesFixed [] [codeType] ∧ UsesFixed [] [codeType ++ "*"] ∧
      UsesFixed [] ["std::vector<" ++ codeType ++ ">"]
  locals : UsesFixed [resultTypeName] (Stmt.codeTextsAll timerLocals)
  timerStart : UsesFixed [] [timerStartText]
  timerStop : ∀ name ∈ timerStopNames, ForeignName name
  /-- The run is appended under the mutex if the history is synchronized. -/
  append (synchronized : Bool) :
    UsesFixed (historyName :: if synchronized then [mutexName] else [])
      (Stmt.codeTexts (historyAppend synchronized))
  copy : ∀ name ∈ ["std", "vector", "ret", "sizeof", "0", "return"], ForeignName name

theorem fixedCode : FixedCode where
  runType := by decide +kernel
  historyType := by decide +kernel
  mutexType := by decide +kernel
  average := by
    -- one decision, because the four functions have most of their texts in common
    have hall : ∀ policy ∈ [Policy.union, Policy.firstCall], ∀ synchronized ∈ [true, false],
        UsesFixed ([resultTypeName, historyName] ++ if synchronized then [mutexName] else [])
          (Item.function (averageFunction policy synchronized)).codeTexts := by
      decide +kernel
    intro policy synchronized
    exact hall policy (by cases policy <;> simp) synchronized (by cases synchronized <;> simp)
  elements {t} _ h := by cases t <;> cases h <;> decide +kernel
  locals := by decide +kernel
  timerStart := by decide +kernel
  timerStop := by decide +kernel
  append synchronized := by cases synchronized <;> decide +kernel
  copy := by decide +kernel

section

variable (tensor : String)

set_option maxRecDepth 2000 in
/-- No name is read in the name of an operator. -/
theorem namesIn_timerStopText (operator : String) :
    namesIn (bufferName tensor).toList (timerStopText operator) =
      timerStopNames := by
  have hkey (rest : List Char) :
      readNames (bufferName tensor).toList ('\n' :: (List.replicate 12 ' '
        ++ ("current_execution[\"".toList ++ rest))) (.name []) =
          "current_execution" :: readNames (bufferName tensor).toList rest .literal := by
    rw [toList_bufferName]
    rfl
  -- the quote that ends the key, on its own
  have hquote : "\"] = static_cast<double>(".toList = '"' :: "] = static_cast<double>(".toList :=
    rfl
  rw [namesIn, timerStopText, String.toList_ofList]
  simp only [timerStopLines, List.map_cons, List.map_nil, List.cons_append, List.nil_append,
    joinLines, List.append_assoc]
  rw [hkey, hquote, List.cons_append, readNames_escapeLiteral, toList_bufferName]
  rfl

/-- The texts that time operators are of two kinds. -/
theorem mem_codeTexts_weaveFrom {position : Nat} {operators : List Operator} {text : String}
    (h : text ∈ Stmt.codeTextsAll (weaveFrom position operators)) :
    text = timerStartText ∨ ∃ operator, text = timerStopText operator := by
  induction operators generalizing position with
  | nil => cases h
  | cons op rest ih =>
      rw [weaveFrom, Stmt.codeTextsAll_append, List.mem_append] at h
      rcases h with h | h
      · simp only [Operator.timed, Stmt.codeTextsAll, Stmt.codeTexts, List.append_nil,
          List.nil_append, List.cons_append, List.mem_cons, List.not_mem_nil, or_false] at h
        exact h.imp_right fun h => ⟨op.name, h⟩
      · exact ih h

/-- The statements that copy an array take its elements and its extent from its name. -/
theorem namesInAll_copyOut {t : ElementType} {codeType : String}
    (h : t.codeType? = some codeType) :
    namesInAll (bufferName tensor).toList
        (Stmt.codeTextsAll (copyOut codeType (bufferName tensor))) =
      ["std", "vector", codeType, "ret", bufferName tensor, bufferName tensor, "sizeof",
        bufferName tensor, "sizeof", bufferName tensor, "0", "return", "ret"] := by
  have hname (rest : List Char) (hrest : rest.head?.any isSymbolChar = false) :
      readNames (bufferName tensor).toList ((bufferName tensor).toList ++ rest) (.name []) =
        bufferName tensor :: readNames (bufferName tensor).toList rest (.name []) := by
    have hne : (bufferName tensor).toList ≠ [] := by simp [bufferName]
    rw [readNames_special hne hrest, String.ofList_toList]
  have hopen (rest : List Char) :
      readNames (bufferName tensor).toList
        ("std::vector<".toList ++ (codeType.toList ++ ("> ret(".toList ++ rest))) (.name []) =
          "std" :: "vector" :: codeType :: "ret" ::
            readNames (bufferName tensor).toList rest (.name []) := by
    rw [toList_bufferName]
    cases t <;> cases h <;> rfl
  have hcomma (rest : List Char) :
      readNames (bufferName tensor).toList (", ".toList ++ rest) (.name []) =
        readNames (bufferName tensor).toList rest (.name []) := by
    rw [toList_bufferName]
    rfl
  have hplus (rest : List Char) :
      readNames (bufferName tensor).toList (" + sizeof(".toList ++ rest) (.name []) =
        "sizeof" :: readNames (bufferName tensor).toList rest (.name []) := by
    rw [toList_bufferName]
    rfl
  have hover (rest : List Char) :
      readNames (bufferName tensor).toList (") / sizeof(".toList ++ rest) (.name []) =
        "sizeof" :: readNames (bufferName tensor).toList rest (.name []) := by
    rw [toList_bufferName]
    rfl
  have hclose : readNames (bufferName tensor).toList "[0]));".toList (.name []) = ["0"] := by
    rw [toList_bufferName]
    rfl
  have hreturn : readNames (bufferName tensor).toList "return ret;".toList (.name []) =
      ["return", "ret"] := by
    rw [toList_bufferName]
    rfl
  simp only [namesInAll, copyOut, Stmt.codeTextsAll, Stmt.codeTexts, List.flatMap_cons,
    List.flatMap_nil, List.append_nil, List.cons_append, List.nil_append, namesIn,
    String.toList_append, List.append_assoc]
  rw [hopen, hname _ rfl, hcomma, hname _ rfl, hplus, hname _ rfl, hover, hname _ rfl, hclose,
    hreturn]
  rfl

end

/-- The texts of the inference routine, part by part. -/
theorem codeTexts_inferFunction {g : Graph} {o : Options} {output : Tensor} {codeType : String}
    (hcode : output.type.codeType? = some codeType) :
    (Item.function (inferFunction g o output)).codeTexts =
      ("std::vector<" ++ codeType ++ ">") :: (inferFunction g o output).params.map Param.type
        ++ (Stmt.codeTextsAll timerLocals ++ Stmt.codeTextsAll (weave g.operators)
          ++ Stmt.codeTexts (historyAppend o.synchronized)
          ++ Stmt.codeTextsAll (copyOut codeType (bufferName output.name))) := by
  have hreturns : (inferFunction g o output).returns = "std::vector<" ++ codeType ++ ">" := by
    simp [inferFunction, hcode]
  have hbody : (inferFunction g o output).body =
      timerLocals ++ [.blank] ++ weave g.operators ++ [.blank, historyAppend o.synchronized]
        ++ copyOut codeType (bufferName output.name) := by
    simp [inferFunction, copyOut, hcode]
  rw [Item.codeTexts, hreturns, hbody]
  simp only [Stmt.codeTextsAll_append, Stmt.codeTextsAll, Stmt.codeTexts, List.append_nil,
    List.nil_append]

section

variable {g : Graph} {o : Options} {output : Tensor} {codeType name : String}

/-- A parameter is a pointer to elements, of a type that is not owned. -/
theorem not_mem_names_params (howned : name ∈ ownedNames output) :
    name ∉ namesInAll (bufferName output.name).toList
      ((inferFunction g o output).params.map Param.type) := by
  intro hname
  obtain ⟨text, htext, hname⟩ := List.mem_flatMap.mp hname
  simp only [inferFunction, Graph.codeInputs, List.mem_map, List.mem_filterMap,
    Option.map_eq_some_iff] at htext
  obtain ⟨-, ⟨-, ⟨t, -, codeType, hcode, rfl⟩, rfl⟩, rfl⟩ := htext
  rw [← namesInAll_singleton, (fixedCode.elements hcode).2.2.1.mem_iff howned] at hname
  cases hname

/-- Timing the operators uses no owned name, whatever their names are. -/
theorem not_mem_names_weave (howned : name ∈ ownedNames output) (operators : List Operator) :
    name ∉ namesInAll (bufferName output.name).toList (Stmt.codeTextsAll (weave operators)) := by
  intro hname
  obtain ⟨text, htext, hname⟩ := List.mem_flatMap.mp hname
  rcases mem_codeTexts_weaveFrom htext with rfl | ⟨operator, rfl⟩
  · rw [← namesInAll_singleton, fixedCode.timerStart.mem_iff howned] at hname
    cases hname
  · rw [namesIn_timerStopText] at hname
    exact (fixedCode.timerStop name hname).not_owned output howned

/-- Copying the output uses the name of its array and no other owned name. -/
theorem mem_names_copyOut_iff (hcode : output.type.codeType? = some codeType)
    (howned : name ∈ ownedNames output) :
    name ∈ namesInAll (bufferName output.name).toList
        (Stmt.codeTextsAll (copyOut codeType (bufferName output.name))) ↔
      name = bufferName output.name := by
  have hforeign {other : String} (h : ForeignName other) : name ≠ other := by
    rintro rfl
    exact h.not_owned output howned
  have htype := hforeign (fixedCode.elements hcode).1
  have hwords {word : String} (h : word ∈ ["std", "vector", "ret", "sizeof", "0", "return"]) :
      name ≠ word := hforeign (fixedCode.copy word h)
  rw [namesInAll_copyOut output.name hcode]
  simp [htype, hwords]

/-- The inference routine uses all owned names but the mutex, and the mutex exactly if the
history is synchronized. -/
theorem mem_names_inferFunction_iff (hcode : output.type.codeType? = some codeType)
    (howned : name ∈ ownedNames output) :
    name ∈ namesInAll (bufferName output.name).toList
        (Item.function (inferFunction g o output)).codeTexts ↔
      (name = mutexName → o.synchronized = true) := by
  rw [codeTexts_inferFunction hcode, ← List.singleton_append]
  simp only [List.append_assoc, namesInAll_append, List.mem_append,
    (fixedCode.elements hcode).2.2.2.mem_iff howned, not_mem_names_params howned,
    fixedCode.locals.mem_iff howned, not_mem_names_weave howned,
    (fixedCode.append o.synchronized).mem_iff howned, mem_names_copyOut_iff hcode howned]
  have hresult : resultTypeName ≠ mutexName := by decide
  have hhistory : historyName ≠ mutexName := by decide
  have hbuffer : mutexName ≠ bufferName output.name := ne_bufferName (by decide) _
  simp only [ownedNames, fixedNames, List.cons_append, List.nil_append, List.mem_cons,
    List.not_mem_nil, or_false] at howned
  rcases howned with rfl | rfl | rfl | rfl
  · simp [hresult]
  · simp [hhistory]
  · cases o.synchronized <;> simp [hresult.symm, hhistory.symm, hbuffer]
  · simp [hbuffer.symm]

end

/-! ## The items of a module -/

/-- The history is declared behind the type of a run, its mutex behind both. -/
theorem allBacked_historyItems {output : Tensor} {earlier : List Item} (synchronized : Bool) :
    AllBacked output earlier (historyItems synchronized) := by
  have hmutex : UsesFixed [] (if synchronized then Item.global "std::mutex" mutexName none none
      else .comment "Not synchronized: callers must serialize calls to infer.").codeTexts := by
    cases synchronized with
    | false => exact usesFixed_nil
    | true => exact fixedCode.mutexType
  refine ⟨Item.backedBy_of_usesFixed usesFixed_nil (List.nil_subset _),
    Item.backedBy_of_usesFixed fixedCode.runType (List.nil_subset _),
    Item.backedBy_of_usesFixed fixedCode.historyType ?_,
    Item.backedBy_of_usesFixed hmutex (List.nil_subset _),
    Item.backedBy_of_usesFixed usesFixed_nil (List.nil_subset _), trivial⟩
  simp [Item.declaredName?]

/-- What the declarations of the history declare. -/
theorem declaredNames_historyItems (synchronized : Bool) :
    (historyItems synchronized).filterMap Item.declaredName? =
      [resultTypeName, historyName] ++ if synchronized then [mutexName] else [] := by
  cases synchronized <;> rfl

/-- The items before the inference routine declare what it uses. -/
theorem backedBy_inferFunction {g : Graph} {o : Options} {output : Tensor} {buffers : List Buffer}
    (houtput : SoundOutput g output) (hbuffers : (settle g.verdicts).outcome = .ok buffers) :
    (Item.function (inferFunction g o output)).BackedBy output (itemsBefore g o buffers) := by
  obtain ⟨codeType, length, hcode, -, harray⟩ := houtput.item_mem (o := o) hbuffers
  intro name howned hname
  have hmutex := (mem_names_inferFunction_iff hcode howned).mp hname
  rcases List.mem_append.mp howned with hfixed | hbuffer
  · have hhistory : name ∈ (historyItems o.synchronized).filterMap Item.declaredName? := by
      rw [declaredNames_historyItems]
      simp only [fixedNames, List.mem_cons, List.not_mem_nil, or_false] at hfixed
      rcases hfixed with rfl | rfl | rfl
      · exact List.mem_append_left _ (by simp)
      · exact List.mem_append_left _ (by simp)
      · rw [if_pos (hmutex rfl)]
        exact List.mem_append_right _ (List.mem_singleton_self _)
    simp [itemsBefore, List.filterMap_append, hhistory]
  · rw [List.mem_singleton.mp hbuffer]
    exact List.mem_filterMap.mpr ⟨_, harray, rfl⟩

/-- **Declarations before uses.**  In the namespace of a graph that is accepted, each item
is backed by the items before it. -/
theorem allBacked_moduleItems {g : Graph} {o : Options} {output : Tensor} {buffers : List Buffer}
    (houtput : SoundOutput g output) (hbuffers : (settle g.verdicts).outcome = .ok buffers) :
    AllBacked output [] (moduleItems g o output buffers) := by
  have haverage (earlier : List Item) : AllBacked output (earlier ++ historyItems o.synchronized)
      (if o.utility then [.function (averageFunction o.policy o.synchronized), .blank]
        else []) := by
    split
    · refine ⟨Item.backedBy_of_usesFixed (fixedCode.average o.policy o.synchronized) ?_,
        Item.backedBy_of_usesFixed usesFixed_nil (List.nil_subset _), trivial⟩
      rw [List.filterMap_append, declaredNames_historyItems]
      exact List.subset_append_right _ _
    · trivial
  have harrays (earlier : List Item) : AllBacked output earlier
      (if buffers.isEmpty then [] else buffers.map Buffer.item ++ [.blank]) := by
    split
    · trivial
    · refine allBacked_of_usesFixed_nil fun item hitem => ?_
      rcases List.mem_append.mp hitem with hitem | hitem
      · obtain ⟨b, hb, rfl⟩ := List.mem_map.mp hitem
        exact (fixedCode.elements (codeType?_of_mem_settled hbuffers hb)).2.1
      · rw [List.mem_singleton.mp hitem]
        exact usesFixed_nil
  rw [moduleItems, allBacked_append, allBacked_append, allBacked_append, allBacked_append]
  refine ⟨⟨⟨⟨?_, allBacked_historyItems o.synchronized⟩, haverage _⟩, harrays _⟩,
    backedBy_inferFunction houtput hbuffers, trivial⟩
  cases hscope : routineScope? g.routines with
  | none => trivial
  | some scope =>
      obtain ⟨routines, rfl⟩ := exists_eq_scope_of_routineScope? hscope
      exact allBacked_of_usesFixed_nil (by simp [Item.codeTexts, usesFixed_nil])

/-- The functions that are found in a unit, whatever the name that is looked up. -/
theorem function?_moduleUnit_eq (g : Graph) (o : Options) (output : Tensor)
    (buffers : List Buffer) (name : String) :
    (moduleUnit g o output buffers).function? name =
      if name = inferName then some (inferFunction g o output)
      else if name = averageFunctionName ∧ o.utility = true then
        some (averageFunction o.policy o.synchronized)
      else none := by
  rw [function?_moduleUnit]
  split
  next hinfer => rw [hinfer, firstFunction?_infer]
  next hinfer =>
    split
    next haverage =>
      rw [haverage.1]
      exact firstFunction?_average.mpr ⟨haverage.2, rfl⟩
    next haverage =>
      rw [Option.eq_none_iff_forall_ne_some]
      intro f hf
      obtain ⟨hmem, rfl⟩ := mem_of_firstFunction? hf
      rcases mem_moduleItems_function_iff.mp hmem with ⟨hutility, rfl⟩ | rfl
      · exact haverage ⟨rfl, hutility⟩
      · exact hinfer rfl

/-- **The layout of a module.**  A unit is the comment, the headers, a blank line and one
namespace, which is the one that is found.  Its declarations are, in order, the scope of
the external routines if one is known, the type of a run and the history, the mutex if
the history is synchronized, the averaging function if it is asked for, the arrays of
the constants and of the intermediate tensors, and the inference routine, which is the
last item.  The owned names in the code of an item are declared before it; the inference
routine uses them all, but for a mutex that is not there.  A function that is looked up
is one of the two or none. -/
theorem declarations_before_uses (g : Graph) (o : Options) (unit : CodeUnit)
    (h : (assemble g o).outcome = .ok unit) :
    ∃ (output : Tensor) (names : List String) (items constantArrays tensorArrays : List Item),
      g.output = .ok output ∧
      unit.items = .comment (provenance g) ::
        (names.map Item.header ++ [.blank, .scope (moduleName g o) items]) ∧
      items.filter Item.isDeclaration =
        routineScopes g.routines ++ historyDeclarations o.synchronized ++ averageDeclarations o
          ++ (constantArrays ++ tensorArrays) ++ [.function (inferFunction g o output)] ∧
      List.Forall₂ Constant.DeclaredBy (g.constants.filter Constant.HasArray) constantArrays ∧
      List.Forall₂ Tensor.DeclaredBy (g.intermediates.filter Tensor.HasArray) tensorArrays ∧
      items.getLast? = some (.function (inferFunction g o output)) ∧
      (∀ before item after, items = before ++ item :: after → item.BackedBy output before) ∧
      (∀ name ∈ ownedNames output,
        name ∈ namesInAll (bufferName output.name).toList
            (Item.function (inferFunction g o output)).codeTexts ↔
          (name = mutexName → o.synchronized = true)) ∧
      unit.scope? = some (moduleName g o, items) ∧
      ∀ name, unit.function? name =
        if name = inferName then some (inferFunction g o output)
        else if name = averageFunctionName ∧ o.utility = true then
          some (averageFunction o.policy o.synchronized)
        else none := by
  obtain ⟨output, buffers, houtput, hbuffers, rfl⟩ := assemble_eq_ok_iff.mp h
  have hsound := output_eq_ok_iff.mp houtput
  obtain ⟨codeType, length, hcode, -, -⟩ := hsound.item_mem (o := o) hbuffers
  obtain ⟨constantArrays, tensorArrays, harrays, hconstants, htensors⟩ := exists_arrays hbuffers
  have hbacked := allBacked_moduleItems (o := o) hsound hbuffers
  refine ⟨output, headers g o output buffers, moduleItems g o output buffers, constantArrays,
    tensorArrays, houtput, ?_, ?_, hconstants, htensors, ?_, ?_,
    fun _ => mem_names_inferFunction_iff hcode, scope?_moduleUnit g o output buffers,
    function?_moduleUnit_eq g o output buffers⟩
  · simp [moduleUnit]
  · rw [filter_isDeclaration_moduleItems, moduleDeclarations, harrays]
  · rw [moduleItems_eq]
    exact List.getLast?_concat
  · intro before item after hsplit
    rw [hsplit] at hbacked
    exact hbacked.backedBy

/-- A graph whose tensors, operators and routines have the names of what a module
declares. -/
def impostorGraph : Graph where
  name := "infer"
  operators := [.ofTemplate "profiler_results_mutex" "", .ofTemplate "\"] = tensor_infer;" ""]
  constants := [{ name := "ProfilerResult", shape := [1], data := .int32 [3] }]
  intermediates := [{ name := "profiler_results", type := .bool, shape := [2] },
    { name := "infer, profiler_results_mutex", type := .float, shape := [2] }]
  inputs := [{ name := "GetOpAvgTime", type := .float, shape := [2] }]
  outputs := ["infer, profiler_results_mutex"]
  routines := ["BLAS", "infer", "Axpy"]

/-- Its module has the layout of any other.  Without a mutex nothing mentions one, although
the name of the array that is returned ends like one. -/
theorem declarations_before_uses_impostor :
    ∃ unit output items, (assemble impostorGraph { synchronized := false }).outcome = .ok unit ∧
      unit.scope? = some ("profgen_infer", items) ∧
      (items.filter Item.isDeclaration).length = 7 ∧
      (∀ before item after, items = before ++ item :: after → item.BackedBy output before) ∧
      output.name = "infer, profiler_results_mutex" ∧
      mutexName ∉ namesInAll (bufferName output.name).toList
        (Item.function (inferFunction impostorGraph { synchronized := false } output)).codeTexts ∧
      unit.function? "BLAS" = none := by
  have hunit : (assemble impostorGraph { synchronized := false }).outcome.isOk = true := by
    decide +kernel
  obtain ⟨unit, hunit⟩ := exists_eq_ok_of_isOk hunit
  obtain ⟨output, names, items, constantArrays, tensorArrays, houtput, -, hdeclarations,
    hconstants, htensors, -, hbacked, hnames, hscope, hfunctions⟩ :=
    declarations_before_uses impostorGraph { synchronized := false } unit hunit
  have hfirst : impostorGraph.output =
      .ok { name := "infer, profiler_results_mutex", type := .float, shape := [2] } := by rfl
  obtain rfl := Except.ok.inj (houtput.symm.trans hfirst)
  have hname : moduleName impostorGraph { synchronized := false } = "profgen_infer" := by
    decide +kernel
  rw [hname] at hscope
  have hlength : (items.filter Item.isDeclaration).length = 7 := by
    have hroutines : (routineScopes impostorGraph.routines).length = 1 := by decide +kernel
    have hconstant : (impostorGraph.constants.filter Constant.HasArray).length = 1 := by
      decide +kernel
    have htensor : (impostorGraph.intermediates.filter Tensor.HasArray).length = 1 := by
      decide +kernel
    rw [hdeclarations]
    simp [hroutines, ← hconstants.length_eq, ← htensors.length_eq, hconstant, htensor,
      historyDeclarations, averageDeclarations]
  have hmutex : mutexName ∈ ownedNames
      { name := "infer, profiler_results_mutex", type := .float, shape := [2] } := by
    simp [ownedNames, fixedNames]
  refine ⟨unit, _, items, hunit, hscope, hlength, hbacked, rfl, ?_, ?_⟩
  · intro hused
    exact Bool.false_ne_true ((hnames mutexName hmutex).mp hused rfl)
  · rw [hfunctions]
    decide +kernel

end Chronograph
