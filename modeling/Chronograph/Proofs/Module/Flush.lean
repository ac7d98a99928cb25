import Chronograph.Proofs.Code.Flush
import Chronograph.Proofs.Module.Assembly
import Chronograph.Proofs.Module.Verdicts

/-!
# Every unit has a text

All that the generator emits is flush: each declaration starts with its type,
each comment with its slashes, each statement with a word of its own, and only
behind these come names from the graph.  So a graph that has a unit also has a
module, whatever its names are (`exists_generate_iff`, `generate_eq_error_iff`).
-/

namespace Chronograph

theorem flushText_codeType {t : ElementType} {codeType : String}
    (h : t.codeType? = some codeType) : FlushText codeType := by
  cases t with
  | float => cases h; decide
  | double => cases h; decide
  | int32 => cases h; decide
  | int64 => cases h; decide
  | _ => cases h

theorem allFlush_averageStatements (policy : Policy) :
    Stmt.AllFlush (averageStatements policy) := by
  cases policy with
  | union => simp [averageStatements, unionStatements]; decide
  | firstCall => simp [averageStatements, firstCallStatements]; decide

theorem flush_lockLine : lockLine.Flush := .line (by decide)

theorem flush_averageFunction (policy : Policy) (synchronized : Bool) :
    (Item.function (averageFunction policy synchronized)).Flush := by
  have hstatements := allFlush_averageStatements policy
  have hreturns : FlushText resultTypeName := by decide
  refine .function hreturns ?_
  cases synchronized with
  | false => simp [averageFunction, hstatements]; decide
  | true => simp [averageFunction, hstatements, flush_lockLine]; decide

theorem allFlush_weaveFrom (position : Nat) (operators : List Operator) :
    Stmt.AllFlush (weaveFrom position operators) := by
  induction operators generalizing position with
  | nil => exact Stmt.allFlush_nil
  | cons op rest ih => simp [weaveFrom, Operator.timed, ih]

theorem flush_historyAppend (synchronized : Bool) : (historyAppend synchronized).Flush := by
  have happend : FlushText (historyName ++ ".push_back(std::move(" ++ currentName ++ "));") := by
    decide
  cases synchronized with
  | false => exact .line happend
  | true => simp [historyAppend, flush_lockLine, happend]

theorem flush_inferFunction (g : Graph) (o : Options) (output : Tensor) :
    (Item.function (inferFunction g o output)).Flush := by
  have hlocals : Stmt.AllFlush timerLocals := by simp [timerLocals]; decide
  have hreturn (codeType buffer : String) :
      FlushText ("std::vector<" ++ codeType ++ "> ret(" ++ buffer ++ ", " ++ buffer
        ++ " + sizeof(" ++ buffer ++ ") / sizeof(" ++ buffer ++ "[0]));") := by
    repeat' refine FlushText.append ?_ _
    decide
  refine .function (FlushText.append (FlushText.append (by decide) _) _) ?_
  have hlast : FlushText "return ret;" := by decide
  simp [inferFunction, weave, hlocals, allFlush_weaveFrom, flush_historyAppend, hreturn, hlast]

theorem allFlush_routineScope (routines : List String) :
    Item.AllFlush (match routineScope? routines with
      | some scope => [scope, .blank]
      | none => []) := by
  unfold routineScope?
  cases knownRoutines routines with
  | nil => exact Item.allFlush_nil
  | cons r rest =>
      have hforeign : Item.AllFlush ((r :: rest).map fun r => Item.foreign r.signature) :=
        Item.allFlush_map fun r _ => .foreign r.signature
      simp only [Item.allFlush_cons, Item.flush_scope_iff]
      exact ⟨hforeign, .blank, Item.allFlush_nil⟩

theorem allFlush_historyItems (synchronized : Bool) :
    Item.AllFlush (historyItems synchronized) := by
  have hvector : FlushText ("std::vector<" ++ resultTypeName ++ ">") := by decide
  have hmutex : FlushText "std::mutex" := by decide
  cases synchronized with
  | false => simp [historyItems, hvector]
  | true => simp [historyItems, hvector, hmutex]

/-- The items of a module are flush if its buffers have types of the emitted
code. -/
theorem allFlush_moduleItems {g : Graph} {o : Options} {output : Tensor} {buffers : List Buffer}
    (h : ∀ b ∈ buffers, b.type.codeType? = some b.codeType) :
    Item.AllFlush (moduleItems g o output buffers) := by
  have hbuffers : Item.AllFlush (buffers.map Buffer.item) := by
    refine Item.allFlush_map ?_
    intro b hb
    exact Item.flush_global_iff.mpr (flushText_codeType (h b hb))
  have haverage : Item.AllFlush
      (if o.utility then [.function (averageFunction o.policy o.synchronized), .blank]
        else []) := by
    split
    · simp [flush_averageFunction]
    · exact Item.allFlush_nil
  have hdeclared : Item.AllFlush
      (if buffers.isEmpty then [] else buffers.map Buffer.item ++ [.blank]) := by
    split
    · exact Item.allFlush_nil
    · simp [hbuffers]
  simp only [moduleItems, Item.allFlush_append]
  exact ⟨⟨⟨⟨allFlush_routineScope g.routines, allFlush_historyItems o.synchronized⟩, haverage⟩,
    hdeclared⟩, by simp [flush_inferFunction]⟩

/-- A unit whose buffers have types of the emitted code has a text. -/
theorem exists_render_moduleUnit {g : Graph} {o : Options} {output : Tensor} {buffers : List Buffer}
    (h : ∀ b ∈ buffers, b.type.codeType? = some b.codeType) :
    ∃ text, (moduleUnit g o output buffers).render = .ok text := by
  have hheaders : Item.AllFlush ((headers g o output buffers).map Item.header) :=
    Item.allFlush_map fun name _ => .header name
  refine CodeUnit.exists_render ?_
  simp [moduleUnit, hheaders, allFlush_moduleItems h]

/-- **Every unit of a graph has a text.** -/
theorem exists_render_of_assemble {g : Graph} {o : Options} {unit : CodeUnit}
    (h : (assemble g o).outcome = .ok unit) : ∃ text, unit.render = .ok text := by
  obtain ⟨output, buffers, -, hbuffers, rfl⟩ := assemble_eq_ok_iff.mp h
  exact exists_render_moduleUnit fun b hb => codeType?_of_mem_settled hbuffers hb

/-- A graph has a module exactly if it has a unit. -/
theorem exists_generate_iff {g : Graph} {o : Options} :
    (∃ text, (generate g o).outcome = .ok text) ↔ ∃ unit, (assemble g o).outcome = .ok unit := by
  constructor
  · rintro ⟨text, h⟩
    obtain ⟨unit, hunit, -⟩ := generate_eq_ok_iff.mp h
    exact ⟨unit, hunit⟩
  · rintro ⟨unit, hunit⟩
    obtain ⟨text, htext⟩ := exists_render_of_assemble hunit
    exact ⟨text, generate_eq_ok_iff.mpr ⟨unit, hunit, htext⟩⟩

/-- **A graph without a module has no unit**, for the same reason; a unit that
cannot be written does not come up. -/
theorem generate_eq_error_iff {g : Graph} {o : Options} {fault : GenerationFault} :
    (generate g o).outcome = .error fault ↔
      ∃ cause, fault = .graph cause ∧ (assemble g o).outcome = .error cause := by
  unfold generate
  cases hunit : (assemble g o).outcome with
  | error cause => simp [hunit, eq_comm]
  | ok unit =>
      obtain ⟨text, htext⟩ := exists_render_of_assemble hunit
      simp [hunit, htext]

end Chronograph
