import Chronograph.Proofs.Code.Comment
import Chronograph.Proofs.Module.Acceptance

/-!
# Where a module comes from

The comment at the start of a module names the file of the graph and the time at
which it was read.  Both are texts of the user and may hold anything: newlines,
returns, backslashes at the ends of lines.  They stay inside the comment
(`provenanceText_closed`): every line of it has slashes, and the last one ends with
the generator's own bracket, so that it does not continue on the line of the first
include.  Nothing behind the comment depends on them (`provenance_confined`).
-/

namespace Chronograph

/-- Lines of comment, each with its newline, the last of which ends with a
bracket. -/
def ClosedComment (text : List Char) : Prop :=
  ∃ lines last, text = (lines ++ [last]).flatMap (· ++ ['\n']) ∧
    (∀ line ∈ lines ++ [last], '\n' ∉ line ∧ "//".toList <+: line) ∧ last.getLast? = some ']'

/-- The text of the comment for a file and a time without its blank end. -/
def provenanceText (source : String) (time : List Char) : List Char :=
  let text := "Code for profiling and benchmarking purposes.\n"
    ++ "Generated automatically for inference of model file [" ++ source ++ "] at ["
    ++ String.ofList time ++ "]"
  (commentLines text.toList).flatMap fun line => slashed line ++ ['\n']

theorem render_provenance (g : Graph) :
    renderComment 0 (provenance g) =
      .ok (provenanceText g.sourceFile (trimEnd g.parseTime.toList)) :=
  renderComment_eq 0 (provenance g)

/-- **The comment is closed**, whatever the file and the time are. -/
theorem provenanceText_closed (source : String) (time : List Char) :
    ClosedComment (provenanceText source time) := by
  unfold provenanceText
  generalize "Code for profiling and benchmarking purposes.\n"
    ++ "Generated automatically for inference of model file [" ++ source ++ "] at ["
    ++ String.ofList time = text
  obtain ⟨lines, last, hlines⟩ := exists_commentLines_append text.toList (by decide : ']' ≠ '\n')
  have hbracket : (text ++ "]").toList = text.toList ++ [']'] := String.toList_append
  dsimp only
  rw [hbracket, hlines]
  refine ⟨lines.map slashed, slashed (last ++ [']']), ?_, ?_, ?_⟩
  · rw [List.flatMap_append, List.flatMap_append, List.flatMap_map]
    rfl
  · intro line hline
    have hmem : line ∈ (lines ++ [last ++ [']']]).map slashed := by simpa using hline
    obtain ⟨inner, hinner, rfl⟩ := List.mem_map.mp hmem
    rw [← hlines] at hinner
    exact ⟨newline_not_mem_slashed (newline_not_mem_commentLines hinner), prefix_slashed inner⟩
  · rw [slashed, if_neg (by simp), ← List.append_assoc, List.getLast?_concat]

/-- The items of a unit behind the comment. -/
def itemsBehindComment (g : Graph) (o : Options) (output : Tensor) (buffers : List Buffer) :
    List Item :=
  (headers g o output buffers).map Item.header ++ [.blank]
    ++ [.scope (moduleName g o) (moduleItems g o output buffers)]

/-- Behind the comment comes the first header. -/
theorem chrono_prefix {g : Graph} {o : Options} {output : Tensor} {buffers : List Buffer}
    {text : List Char} (h : Item.renderAll (itemsBehindComment g o output buffers) = .ok text) :
    "#include <chrono>\n".toList <+: text := by
  obtain ⟨others, hothers⟩ : ∃ others,
      itemsBehindComment g o output buffers = .header "chrono" :: others := ⟨_, rfl⟩
  rw [hothers, Item.renderAll, Item.render] at h
  obtain ⟨first, rest, hfirst, -, rfl⟩ := join_eq_ok_iff.mp h
  have hline : layOut 0 ("#include <" ++ "chrono" ++ ">").toList =
      .ok "#include <chrono>\n".toList := layOut_line 0 (by decide) (by decide)
  rw [hline] at hfirst
  rw [← Except.ok.inj hfirst]
  exact List.prefix_append _ _

/-- The text of a unit is the comment and a rest, and the file and the time are in
the comment only. -/
theorem render_withSource {g : Graph} {o : Options} {output : Tensor} {buffers : List Buffer}
    {rest : List Char} (h : Item.renderAll (itemsBehindComment g o output buffers) = .ok rest)
    (source time : String) :
    (moduleUnit (g.withSource source time) o output buffers).render =
      .ok (String.ofList (provenanceText source (trimEnd time.toList) ++ rest)) := by
  have hitems : (moduleUnit (g.withSource source time) o output buffers).items =
      .comment (provenance (g.withSource source time)) ::
        itemsBehindComment g o output buffers := rfl
  refine CodeUnit.render_eq_ok_iff.mpr ⟨_, ?_, rfl⟩
  rw [hitems, Item.renderAll, Item.render]
  exact join_eq_ok_iff.mpr ⟨_, rest, render_provenance (g.withSource source time), h, rfl⟩

/-- A graph has the same fault whatever its file and time are. -/
theorem assemble_withSource_error {g : Graph} {o : Options} {fault : GraphFault}
    (h : (assemble g o).outcome = .error fault) (source time : String) :
    (assemble (g.withSource source time) o).outcome = .error fault := by
  have hsame : (assemble (g.withSource source time) o).outcome.map (fun _ => ()) =
      (assemble g o).outcome.map fun _ => () := map_assemble_eq g (g.withSource source time) o o
  rw [h] at hsame
  cases hother : (assemble (g.withSource source time) o).outcome with
  | error other =>
      rw [hother] at hsame
      cases hsame
      rfl
  | ok unit =>
      rw [hother] at hsame
      cases hsame

/-- **What a module says about its origin is confined to its comment.**  Either
generation fails for every file and time, with the same fault, or it gives for every
file and time a closed comment in front of one and the same rest, which starts with
the first include.  The comment depends on the time only through its text without the
blank end. -/
theorem provenance_confined (g : Graph) (o : Options) :
    (∃ fault, ∀ source time, (generate (g.withSource source time) o).outcome = .error fault) ∨
    ∃ rest, "#include <chrono>\n".toList <+: rest ∧ ∀ source time,
      (generate (g.withSource source time) o).outcome =
        .ok (String.ofList (provenanceText source (trimEnd time.toList) ++ rest)) ∧
      ClosedComment (provenanceText source (trimEnd time.toList)) := by
  cases hunit : (assemble g o).outcome with
  | error fault =>
      refine .inl ⟨.graph fault, fun source time => ?_⟩
      exact generate_eq_error_iff.mpr ⟨fault, rfl, assemble_withSource_error hunit source time⟩
  | ok unit =>
      obtain ⟨output, buffers, houtput, hbuffers, rfl⟩ := assemble_eq_ok_iff.mp hunit
      obtain ⟨text, htext⟩ := exists_render_of_assemble hunit
      obtain ⟨chars, hchars, -⟩ := CodeUnit.render_eq_ok_iff.mp htext
      obtain ⟨comment, rest, -, hrest, -⟩ := join_eq_ok_iff.mp hchars
      refine .inr ⟨rest, chrono_prefix hrest, fun source time => ⟨?_, provenanceText_closed _ _⟩⟩
      -- the output and the buffers are made from the tables alone
      have hsame : (assemble (g.withSource source time) o).outcome =
          .ok (moduleUnit (g.withSource source time) o output buffers) :=
        assemble_eq_ok_iff.mpr ⟨output, buffers, houtput, hbuffers, rfl⟩
      exact generate_eq_ok_iff.mpr ⟨_, hsame, render_withSource hrest source time⟩

end Chronograph
