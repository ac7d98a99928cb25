import Chronograph.Proofs.Code.Rendering
import Chronograph.Proofs.Module.Assembly

/-!
# The operators in the text of a module

The emitted routine runs the operators of a graph in order, and its text shows
each of them between the reading of the clock and the storing of the time.
`Operator.timedText` is that piece of text, told without statements or blocks,
and a module's text is the pieces of all operators, in order, inside a frame
that knows nothing of them (`woven`).

The frame is found once, for the graph at hand, and then holds for every other
list of operators (`render_moduleUnit`): no piece depends on another, and nothing
outside of the pieces on any of them.
-/

namespace Chronograph

/-- A line of text that starts at a column. -/
def lineAt (column : Nat) (text : List Char) : List Char :=
  List.replicate column ' ' ++ text ++ ['\n']

/-- The text of an operator at a position: the clock is read, the operator's
own code stands as it is, and the time is stored under the operator's name in
three lines.  The code gets a newline if it is not empty and has none at its
end. -/
def Operator.timedText (position : Nat) (op : Operator) : List Char :=
  let code := (op.body position.repr).toList
  lineAt 2 "tp_start = std::chrono::steady_clock::now();".toList
    ++ (code ++ if code ≠ [] ∧ code.getLast? ≠ some '\n' then ['\n'] else [])
    ++ (lineAt 2 ("current_execution[\"".toList ++ escapeLiteral op.name.toList
          ++ "\"] = static_cast<double>(".toList)
      ++ lineAt 6 "std::chrono::duration_cast<std::chrono::microseconds>(".toList
      ++ lineAt 10 "std::chrono::steady_clock::now() - tp_start).count());".toList)

/-- The texts of operators, in order, each at its own position. -/
def timedTexts (operators : List Operator) : List Char :=
  (operators.mapIdx Operator.timedText).flatten

/-- The text that appends the times of a run to the history. -/
def historyAppendText (synchronized : Bool) : List Char :=
  if synchronized then
    lineAt 2 ['{']
      ++ lineAt 4 "std::lock_guard<std::mutex> lock(profiler_results_mutex);".toList
      ++ lineAt 4 "profiler_results.push_back(std::move(current_execution));".toList
      ++ lineAt 2 ['}']
  else lineAt 2 "profiler_results.push_back(std::move(current_execution));".toList

/-- The text of a module round its operators: they stand between the line that
declares the times of the run with its blank line, and the blank line before
these are appended to the history. -/
def woven (before : List Char) (operators : List Operator) (synchronized : Bool)
    (after : List Char) : List Char :=
  before ++ lineAt 2 "ProfilerResult current_execution;".toList ++ ['\n']
    ++ timedTexts operators
    ++ ['\n'] ++ historyAppendText synchronized ++ after

/-! ## Statements -/

theorem renderVerbatim_eq (code : List Char) :
    renderVerbatim code =
      code ++ (if code ≠ [] ∧ code.getLast? ≠ some '\n' then ['\n'] else []) := by
  by_cases hnil : code = []
  · simp [renderVerbatim, hnil]
  · by_cases hlast : code.getLast? = some '\n' <;> simp [renderVerbatim, hnil, hlast]

/-- A line of code that starts with a character of its own stands at the column
of its depth. -/
theorem layOut_eq_lineAt (depth : Nat) {c : Char} {line : List Char} (hc : isBlank c = false)
    (hline : '\n' ∉ c :: line) : layOut depth (c :: line) = .ok (lineAt (2 * depth) (c :: line)) :=
  layOut_line depth hc hline

/-- Lines that are nested by four and eight columns, two columns further in. -/
theorem flatMap_lineAt (a b c : List Char) :
    [a, List.replicate 4 ' ' ++ b, List.replicate 8 ' ' ++ c].flatMap (lineAt 2) =
      lineAt 2 a ++ lineAt 6 b ++ lineAt 10 c := by
  simp [lineAt, List.replicate]

/-- The text of an operator in the parts that its statements write. -/
theorem timedText_eq (position : Nat) (op : Operator) :
    op.timedText position =
      lineAt 2 timerStartText.toList ++ renderVerbatim (op.body position.repr).toList
        ++ (timerStopLines op.name).flatMap (lineAt 2) := by
  have hlines : timerStopLines op.name =
      ["current_execution[\"".toList ++ escapeLiteral op.name.toList
          ++ "\"] = static_cast<double>(".toList,
        List.replicate 4 ' ' ++ "std::chrono::duration_cast<std::chrono::microseconds>(".toList,
        List.replicate 8 ' ' ++
          "std::chrono::steady_clock::now() - tp_start).count());".toList] := rfl
  rw [renderVerbatim_eq, hlines, flatMap_lineAt]
  rfl

/-- The three statements of an operator, in the body of a function. -/
theorem renderAll_timed (position : Nat) (op : Operator) :
    Stmt.renderAll 1 (op.timed position) = .ok (op.timedText position) := by
  have hstop : Stmt.render 1 (.timerStop position op.name) =
      .ok ((timerStopLines op.name).flatMap (lineAt 2)) := render_timerStop 1 position op.name
  rw [Operator.timed, Stmt.renderAll, Stmt.renderAll, Stmt.renderAll_singleton, hstop,
    render_timerStart, Stmt.render, timedText_eq]
  exact congrArg Except.ok (List.append_assoc _ _ _).symm

/-- The operators from a position on, one after the other. -/
theorem renderAll_weaveFrom (position : Nat) (operators : List Operator) :
    Stmt.renderAll 1 (weaveFrom position operators) =
      .ok (operators.mapIdx fun i op => op.timedText (position + i)).flatten := by
  induction operators generalizing position with
  | nil => rfl
  | cons op rest ih =>
      rw [weaveFrom, Stmt.renderAll_append, renderAll_timed, ih, List.mapIdx_cons]
      simp only [List.flatten_cons, Nat.add_zero, Nat.add_assoc, Nat.add_comm 1]
      rfl

theorem renderAll_weave (operators : List Operator) :
    Stmt.renderAll 1 (weave operators) = .ok (timedTexts operators) := by
  rw [weave, renderAll_weaveFrom]
  simp only [Nat.zero_add]
  rfl

theorem renderAll_timerLocals :
    Stmt.renderAll 1 (timerLocals ++ [.blank]) =
      .ok (lineAt 2 "std::chrono::steady_clock::time_point tp_start;".toList
        ++ (lineAt 2 "ProfilerResult current_execution;".toList ++ ['\n'])) := by
  have hpoint : Stmt.render 1 (.line "std::chrono::steady_clock::time_point tp_start;") =
      .ok (lineAt 2 "std::chrono::steady_clock::time_point tp_start;".toList) :=
    layOut_eq_lineAt 1 (by decide) (by decide)
  have hcurrent : Stmt.render 1 (.line (resultTypeName ++ " " ++ currentName ++ ";")) =
      .ok (lineAt 2 "ProfilerResult current_execution;".toList) :=
    layOut_eq_lineAt 1 (by decide) (by decide)
  rw [timerLocals, List.cons_append, List.cons_append, List.nil_append, Stmt.renderAll,
    Stmt.renderAll, Stmt.renderAll_singleton, hpoint, hcurrent, Stmt.render]
  rfl

theorem renderAll_historyAppend (synchronized : Bool) :
    Stmt.renderAll 1 [.blank, historyAppend synchronized] =
      .ok (['\n'] ++ historyAppendText synchronized) := by
  have hpush (depth : Nat) : Stmt.render depth
      (.line (historyName ++ ".push_back(std::move(" ++ currentName ++ "));")) =
        .ok (lineAt (2 * depth) "profiler_results.push_back(std::move(current_execution));".toList) :=
    layOut_eq_lineAt depth (by decide) (by decide)
  cases synchronized with
  | false =>
      rw [Stmt.renderAll, Stmt.renderAll_singleton, Stmt.render, historyAppend, if_neg (by decide),
        hpush]
      rfl
  | true =>
      have hlock : Stmt.render 2 lockLine =
          .ok (lineAt 4 "std::lock_guard<std::mutex> lock(profiler_results_mutex);".toList) :=
        layOut_eq_lineAt 2 (by decide) (by decide)
      have hopen : layOut 1 (openingLine "").toList = .ok (lineAt 2 ['{']) :=
        layOut_eq_lineAt 1 (by decide) (by decide)
      have hclose : layOut 1 ['}'] = .ok (lineAt 2 ['}']) :=
        layOut_eq_lineAt 1 (by decide) (by decide)
      rw [Stmt.renderAll, Stmt.renderAll_singleton, Stmt.render, historyAppend, if_pos rfl,
        Stmt.render, hopen, hclose, Stmt.renderAll, Stmt.renderAll_singleton, hlock, hpush]
      exact congrArg (fun text => Except.ok (['\n'] ++ (text ++ lineAt 2 ['}'])))
        (List.append_assoc _ _ _).symm

/-! ## The frame of the operators -/

/-- A part of the text that comes before a woven text belongs to its frame. -/
theorem append_woven (text before : List Char) (operators : List Operator) (synchronized : Bool)
    (after : List Char) :
    text ++ woven before operators synchronized after =
      woven (text ++ before) operators synchronized after := by
  simp only [woven, List.append_assoc]

/-- A part of the text that comes behind a woven text belongs to its frame. -/
theorem woven_append (before : List Char) (operators : List Operator) (synchronized : Bool)
    (after text : List Char) :
    woven before operators synchronized after ++ text =
      woven before operators synchronized (after ++ text) := by
  simp only [woven, List.append_assoc]

/-- The body of the inference routine: the frame begins with the declaration of
the clock's variable, and ends with what the routine returns. -/
theorem renderAll_inferBody {g : Graph} {o : Options} {output : Tensor} {text : List Char}
    (h : Stmt.renderAll 1 (inferFunction g o output).body = .ok text) :
    ∃ before after, ∀ operators,
      Stmt.renderAll 1 (inferFunction { g with operators } o output).body =
        .ok (woven before operators o.synchronized after) := by
  simp only [inferFunction] at h
  rw [Stmt.renderAll_append] at h
  obtain ⟨first, last, -, hlast, -⟩ := join_eq_ok_iff.mp h
  refine ⟨lineAt 2 "std::chrono::steady_clock::time_point tp_start;".toList, last, fun operators => ?_⟩
  simp only [inferFunction]
  rw [Stmt.renderAll_append, Stmt.renderAll_append, Stmt.renderAll_append, renderAll_timerLocals,
    renderAll_weave, renderAll_historyAppend, hlast]
  refine congrArg Except.ok ?_
  simp only [woven, List.append_assoc]

/-- The inference routine with its first and last line. -/
theorem render_inferFunction {g : Graph} {o : Options} {output : Tensor} {text : List Char}
    (h : (inferFunction g o output).render = .ok text) :
    ∃ before after, ∀ operators, (inferFunction { g with operators } o output).render =
      .ok (woven before operators o.synchronized after) := by
  obtain ⟨opening, inner, closing, hopening, hinner, hclosing, -⟩ := enclose_eq_ok_iff.mp h
  obtain ⟨before, after, hbody⟩ := renderAll_inferBody hinner
  refine ⟨opening ++ before, after ++ closing, fun operators => ?_⟩
  refine enclose_eq_ok_iff.mpr ⟨_, _, _, hopening, hbody operators, hclosing, ?_⟩
  rw [append_woven, woven_append]

/-- The items of the module's namespace: those before the routine have no
operator in them, and the routine is the last. -/
theorem renderAll_moduleItems {g : Graph} {o : Options} {output : Tensor}
    {buffers : List Buffer} {text : List Char}
    (h : Item.renderAll (moduleItems g o output buffers) = .ok text) :
    ∃ before after, ∀ operators,
      Item.renderAll (moduleItems { g with operators } o output buffers) =
        .ok (woven before operators o.synchronized after) := by
  rw [moduleItems, Item.renderAll_append] at h
  obtain ⟨items, routine, hitems, hroutine, -⟩ := join_eq_ok_iff.mp h
  rw [Item.renderAll_singleton, Item.render] at hroutine
  obtain ⟨before, after, hinfer⟩ := render_inferFunction hroutine
  refine ⟨items ++ before, after, fun operators => ?_⟩
  rw [moduleItems, Item.renderAll_append, Item.renderAll_singleton, Item.render]
  refine join_eq_ok_iff.mpr ⟨items, _, hitems, hinfer operators, ?_⟩
  rw [append_woven]

/-- The whole unit of a module: its namespace is its last item. -/
theorem render_moduleUnit {g : Graph} {o : Options} {output : Tensor} {buffers : List Buffer}
    {text : String} (h : (moduleUnit g o output buffers).render = .ok text) :
    ∃ before after, ∀ operators, (moduleUnit { g with operators } o output buffers).render =
      .ok (String.ofList (woven before operators o.synchronized after)) := by
  obtain ⟨chars, hchars, -⟩ := CodeUnit.render_eq_ok_iff.mp h
  simp only [moduleUnit] at hchars
  rw [Item.renderAll_append] at hchars
  obtain ⟨top, scope, htop, hscope, -⟩ := join_eq_ok_iff.mp hchars
  rw [Item.renderAll_singleton, Item.render] at hscope
  obtain ⟨opening, inner, closing, hopening, hinner, hclosing, -⟩ := enclose_eq_ok_iff.mp hscope
  obtain ⟨before, after, hitems⟩ := renderAll_moduleItems hinner
  refine ⟨top ++ (opening ++ before), after ++ closing, fun operators => ?_⟩
  refine CodeUnit.render_eq_ok_iff.mpr ⟨_, ?_, rfl⟩
  simp only [moduleUnit]
  rw [Item.renderAll_append, Item.renderAll_singleton, Item.render]
  refine join_eq_ok_iff.mpr ⟨top, _, htop, enclose_eq_ok_iff.mpr
    ⟨opening, _, closing, hopening, hitems operators, hclosing, rfl⟩, ?_⟩
  rw [append_woven, woven_append, append_woven]

/-- **Faithful weaving.**  Between the declaration of the times of a run and
their appending to the history, the text of a module is the texts of the
graph's operators, in their order and each at its own position.  The frame round
them is the same for every list of operators. -/
theorem generate_woven {g : Graph} {o : Options} {text : String}
    (h : (generate g o).outcome = .ok text) :
    ∃ before after,
      text.toList = woven before g.operators o.synchronized after ∧
      ∀ operators, (generate { g with operators } o).outcome =
        .ok (String.ofList (woven before operators o.synchronized after)) := by
  obtain ⟨unit, hunit, htext⟩ := generate_eq_ok_iff.mp h
  obtain ⟨output, buffers, houtput, hbuffers, rfl⟩ := assemble_eq_ok_iff.mp hunit
  obtain ⟨before, after, hframe⟩ := render_moduleUnit htext
  refine ⟨before, after, ?_, fun operators => ?_⟩
  · have hsame := htext.symm.trans (hframe g.operators)
    rw [Except.ok.inj hsame, String.toList_ofList]
  · exact generate_eq_ok_iff.mpr ⟨_, assemble_eq_ok_iff.mpr ⟨output, buffers, houtput, hbuffers, rfl⟩,
      hframe operators⟩

/-- A graph that has an output and nothing to do. -/
def idleGraph : Graph where
  name := "relay"
  intermediates := [{ name := "Y", type := .float, shape := [2] }]
  outputs := ["Y"]

/-- Two operators: one without code, whose name has to be escaped, and one with
code that does not end its line. -/
def relayOperators : List Operator :=
  [.ofTemplate "a \"b\"\n c" "", .ofTemplate "Relu_1" "float r\x7bid\x7d = 0;"]

theorem idleGraph_generates : (generate idleGraph { utility := false }).outcome.isOk = true := by
  decide +kernel

/-- Both graphs have a module, and the frame of the first is that of the
second. -/
theorem generate_woven_relay :
    ∃ idle text, (generate idleGraph { utility := false }).outcome = .ok idle ∧
      (generate { idleGraph with operators := relayOperators } { utility := false }).outcome =
        .ok text ∧
      ∃ before after,
        text.toList = woven before relayOperators true after ∧
        ∀ operators, (generate { idleGraph with operators } { utility := false }).outcome =
          .ok (String.ofList (woven before operators true after)) := by
  obtain ⟨idle, hidle⟩ := exists_eq_ok_of_isOk idleGraph_generates
  obtain ⟨before, after, -, hframe⟩ := generate_woven hidle
  have hrelay := hframe relayOperators
  exact ⟨idle, _, hidle, hrelay, generate_woven hrelay⟩

end Chronograph
