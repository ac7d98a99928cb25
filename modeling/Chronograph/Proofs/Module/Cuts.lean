import Chronograph.Proofs.Code.Pieces
import Chronograph.Proofs.Module.Flush

/-!
# No cut tears a character

Taking the margin off a block can end inside a character, if a blank line of
the block starts with a wide blank.  Names of a graph reach blocks of every kind,
and they may hold newlines and wide blanks; still no cut tears a character.
Every block but one starts with a character of the generator's own, so that its
margin is zero; the one that stores an operator's time has a margin, but the
operator's name is escaped there and breaks no line.  So the generator always
ends with a module or with a reason that lies in the graph
(`generate_torn_nowhere`).
-/

namespace Chronograph

/-- **Generation ends for every graph with all options**: with a module, or with
a fault of the graph.  A unit is written piece by piece, and every cut in every
block that is laid out for it falls between two characters. -/
theorem generate_torn_nowhere (g : Graph) (o : Options) :
    ((∃ text, (generate g o).outcome = .ok text) ∨
      ∃ fault, (generate g o).outcome = .error (.graph fault)) ∧
    ∀ unit, (assemble g o).outcome = .ok unit →
      unit.render = String.ofList <$> writeAll unit.pieces ∧
      ∀ depth block, Piece.laid depth block ∈ unit.pieces →
        ∀ line ∈ keptLines block, marginOf (keptLines block) ≤ byteLength line →
          (dropBytes (marginOf (keptLines block)) line).isSome = true := by
  constructor
  · cases hresult : (generate g o).outcome with
    | ok text => exact .inl ⟨text, rfl⟩
    | error fault =>
        obtain ⟨cause, rfl, -⟩ := generate_eq_error_iff.mp hresult
        exact .inr ⟨cause, rfl⟩
  · intro unit hunit
    refine ⟨unit.render_eq_writeAll, ?_⟩
    exact CodeUnit.exists_render_iff.mp (exists_render_of_assemble hunit)

/-- Two indented lines with a line of one wide blank between them. -/
def wideText : String := " a\n\u3000\n b"

/-- A graph all of whose texts are `wideText`. -/
def wideGraph : Graph where
  name := wideText
  sourceFile := wideText
  parseTime := wideText
  operators := [.ofTemplate wideText wideText]
  intermediates := [{ name := wideText, type := .float, shape := [2] }]
  inputs := [{ name := wideText, type := .int32, shape := [1] }]
  outputs := [wideText]
  routines := [wideText]

/-- As a block of its own that text is at fault; as names of a graph it is not. -/
theorem wideGraph_torn_nowhere :
    ¬ CutsBetween wideText.toList ∧
      ∃ unit, (assemble wideGraph {}).outcome = .ok unit ∧
        ∀ depth block, Piece.laid depth block ∈ unit.pieces → CutsBetween block := by
  refine ⟨by decide, ?_⟩
  have hunit : (assemble wideGraph {}).outcome.isOk = true := by decide +kernel
  obtain ⟨unit, hunit⟩ := exists_eq_ok_of_isOk hunit
  exact ⟨unit, hunit, ((generate_torn_nowhere wideGraph {}).2 unit hunit).2⟩

end Chronograph
