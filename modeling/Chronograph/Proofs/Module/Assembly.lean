import Chronograph.Module.Assembly

/-!
# What a generated module comes from

A unit comes from an output and buffers that are settled, and a module's text
from a unit: `assemble_eq_ok_iff` and `generate_eq_ok_iff` take a successful
generation apart, so that what is said about modules can be said about
`moduleUnit`.
-/

namespace Chronograph

theorem exists_eq_ok_of_isOk {ε α : Type} {x : Except ε α} (h : x.isOk = true) :
    ∃ a, x = .ok a := by
  cases x with
  | error e => cases h
  | ok a => exact ⟨a, rfl⟩

/-- A graph has a unit exactly if it has an output and all its tensors are
settled; the unit is made of these. -/
theorem assemble_eq_ok_iff {g : Graph} {o : Options} {unit : CodeUnit} :
    (assemble g o).outcome = .ok unit ↔
      ∃ output buffers, g.output = .ok output ∧ (settle g.verdicts).outcome = .ok buffers ∧
        unit = moduleUnit g o output buffers := by
  unfold assemble
  cases g.output with
  | error fault => simp
  | ok output =>
      cases hbuffers : (settle g.verdicts).outcome with
      | error fault => simp [hbuffers]
      | ok buffers => simp [hbuffers, eq_comm]

/-- A graph has a module exactly if it has a unit and the unit has a text. -/
theorem generate_eq_ok_iff {g : Graph} {o : Options} {text : String} :
    (generate g o).outcome = .ok text ↔
      ∃ unit, (assemble g o).outcome = .ok unit ∧ unit.render = .ok text := by
  unfold generate
  cases hunit : (assemble g o).outcome with
  | error fault => simp [hunit]
  | ok unit => cases htext : unit.render <;> simp [hunit, htext]

end Chronograph
