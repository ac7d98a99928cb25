import Chronograph.Proofs.Module.Arrays

/-!
# Every tensor is accounted for

The constants and then the intermediate tensors of a graph are walked in order, and
each of them either gets an array or is reported as skipped (`TensorEntry.HasArray`);
the third case, a tensor that is refused, ends the walk.  A walk that comes to its end
has declared the arrays and reported the rest, both in the order of the walk, and one
that does not has reported what it skipped before the tensor that it was refused for
(`tensors_accounted`).

What becomes of a tensor does not depend on the others, so the events of a walk are
those of its verdicts up to the first refusal (`events_settle_append`).
-/

namespace Chronograph

/-! ## Entries of the tables -/

/-- An entry of the tables that are walked: a constant or an intermediate tensor. -/
inductive TensorEntry where
  | constant (c : Constant)
  | intermediate (t : Tensor)

namespace TensorEntry

def name : TensorEntry → String
  | constant c => c.name
  | intermediate t => t.name

def verdict : TensorEntry → Verdict
  | constant c => c.verdict
  | intermediate t => t.verdict

/-- An entry of a declared type with at least one element. -/
def HasArray : TensorEntry → Prop
  | constant c => c.HasArray
  | intermediate t => t.HasArray

instance : DecidablePred HasArray
  | constant c => inferInstanceAs (Decidable c.HasArray)
  | intermediate t => inferInstanceAs (Decidable t.HasArray)

/-- An item that declares the array of an entry. -/
def DeclaredBy : TensorEntry → Item → Prop
  | constant c => c.DeclaredBy
  | intermediate t => t.DeclaredBy

/-- Why an entry is refused. -/
def Refused : TensorEntry → GraphFault → Prop
  | constant c => c.Refused
  | intermediate t => t.Refused

/-- The report that an entry is skipped: for its type, or else because it is empty. -/
def skipReport : TensorEntry → Event
  | constant c =>
    if c.type.Declared then .emptyConstantSkipped c.name else .constantTypeSkipped c.name c.type
  | intermediate t =>
    if t.type.Declared then .emptyIntermediateSkipped t.name
    else .intermediateTypeSkipped t.name t.type

end TensorEntry

/-- The entries of a graph's tables in the order of the walk. -/
def Graph.tensorEntries (g : Graph) : List TensorEntry :=
  g.constants.map .constant ++ g.intermediates.map .intermediate

theorem verdicts_eq_map (g : Graph) : g.verdicts = g.tensorEntries.map TensorEntry.verdict := by
  rw [Graph.verdicts, Graph.tensorEntries, List.map_append, List.map_map, List.map_map]
  rfl

/-! ## One entry -/

/-- The report of a verdict that skips. -/
def Verdict.event? : Verdict → Option Event
  | .skipped event => some event
  | _ => none

namespace TensorEntry

theorem verdict_refused_iff {e : TensorEntry} {fault : GraphFault} :
    e.verdict = .refused fault ↔ e.Refused fault := by
  cases e with
  | constant c => exact Constant.verdict_refused_iff
  | intermediate t => exact Tensor.verdict_refused_iff

/-- An entry with an array that is not refused is declared. -/
theorem HasArray.exists_buffer {e : TensorEntry} (h : e.HasArray)
    (hsound : ∀ fault, ¬ e.Refused fault) :
    ∃ b : Buffer, e.verdict.buffer? = some b ∧ e.DeclaredBy b.item := by
  cases e with
  | constant c =>
      obtain ⟨hfits, hdata⟩ := Constant.not_refused_iff.mp hsound h.1
      exact Constant.HasArray.exists_buffer h hfits hdata
  | intermediate t =>
      exact Tensor.HasArray.exists_buffer h (Tensor.not_refused_iff.mp hsound h.1)

theorem not_hasArray {e : TensorEntry} (h : ¬ e.HasArray) : e.verdict.buffer? = none := by
  cases e with
  | constant c => exact Constant.not_hasArray h
  | intermediate t => exact Tensor.not_hasArray h

/-- An entry that is skipped is reported for its type, or else because it is empty. -/
theorem eq_skipReport {e : TensorEntry} {event : Event} (h : e.verdict = .skipped event) :
    event = e.skipReport := by
  cases e with
  | constant c =>
      simp only [verdict, Constant.verdict] at h
      split at h
      · next hcode =>
          cases h
          rw [skipReport, if_neg ((codeType?_eq_none_iff _).mp hcode)]
      · next codeType hcode =>
          split at h
          · cases h
          · split at h
            · cases h
            · split at h
              · cases h
                rw [skipReport, if_pos (declared_of_codeType? hcode)]
              · cases h
  | intermediate t =>
      simp only [verdict, Tensor.verdict] at h
      split at h
      · next hcode =>
          cases h
          rw [skipReport, if_neg ((codeType?_eq_none_iff _).mp hcode)]
      · next codeType hcode =>
          split at h
          · cases h
          · split at h
            · cases h
              rw [skipReport, if_pos (declared_of_codeType? hcode)]
            · cases h

/-- **An entry that is not refused** has an array or is reported, and not both. -/
theorem event?_verdict {e : TensorEntry} (hsound : ∀ fault, ¬ e.Refused fault) :
    e.verdict.event? = if e.HasArray then none else some e.skipReport := by
  by_cases harray : e.HasArray
  · rw [if_pos harray]
    obtain ⟨b, hb, -⟩ := harray.exists_buffer hsound
    cases hverdict : e.verdict with
    | declared buffer => rfl
    | skipped event => rw [hverdict] at hb; cases hb
    | refused fault => rfl
  · rw [if_neg harray]
    have hnone := not_hasArray harray
    cases hverdict : e.verdict with
    | declared buffer => rw [hverdict] at hnone; cases hnone
    | skipped event => rw [eq_skipReport hverdict]; rfl
    | refused fault => exact absurd (verdict_refused_iff.mp hverdict) (hsound fault)

/-- A report is a trace that names the entry. -/
theorem skipReport_names (e : TensorEntry) :
    e.skipReport.level = .trace ∧ ("tensor", e.name) ∈ e.skipReport.fields := by
  cases e with
  | constant c => by_cases htype : c.type.Declared <;> simp [skipReport, htype, name, Event.level,
      Event.fields]
  | intermediate t => by_cases htype : t.type.Declared <;> simp [skipReport, htype, name,
      Event.level, Event.fields]

/-- The reports of entries none of which is refused. -/
theorem filterMap_event?_verdict {entries : List TensorEntry}
    (hsound : ∀ e ∈ entries, ∀ fault, ¬ e.Refused fault) :
    (entries.map verdict).filterMap Verdict.event? =
      (entries.filter fun e => ¬ e.HasArray).map skipReport := by
  induction entries with
  | nil => rfl
  | cons e entries ih =>
      have hevent := event?_verdict (hsound e List.mem_cons_self)
      have hrest := ih fun other hother => hsound other (List.mem_cons_of_mem _ hother)
      rw [List.map_cons]
      by_cases harray : e.HasArray
      · rw [if_pos harray] at hevent
        rw [List.filterMap_cons_none hevent, List.filter_cons_of_neg (by simpa using harray), hrest]
      · rw [if_neg harray] at hevent
        rw [List.filterMap_cons_some hevent, List.filter_cons_of_pos (by simpa using harray),
          List.map_cons, hrest]

end TensorEntry

/-! ## The walk -/

/-- **The events of a walk** over verdicts none of which is a refusal, and then over others. -/
theorem events_settle_append {xs : List Verdict} (h : NoneRefused xs) (ys : List Verdict) :
    (settle (xs ++ ys)).events = xs.filterMap Verdict.event? ++ (settle ys).events := by
  induction xs with
  | nil => rfl
  | cons v xs ih =>
      obtain ⟨hv, hxs⟩ := noneRefused_cons.mp h
      cases v with
      | declared b => exact ih hxs
      | skipped event => exact congrArg (event :: ·) (ih hxs)
      | refused fault => exact absurd rfl (hv fault)

theorem noneRefused_map_verdict_iff {entries : List TensorEntry} :
    NoneRefused (entries.map TensorEntry.verdict) ↔
      ∀ e ∈ entries, ∀ fault, ¬ e.Refused fault := by
  simp [NoneRefused, TensorEntry.verdict_refused_iff]

/-- The first refusal of a walk, with the events up to it. -/
theorem exists_refused_of_settle {entries : List TensorEntry} {fault : GraphFault}
    (h : (settle (entries.map TensorEntry.verdict)).outcome = .error fault) :
    ∃ before e after, entries = before ++ e :: after ∧
      (∀ b ∈ before, ∀ other, ¬ b.Refused other) ∧ e.Refused fault ∧
      (settle (entries.map TensorEntry.verdict)).events =
        (before.filter fun e => ¬ e.HasArray).map TensorEntry.skipReport := by
  obtain ⟨before, e, after, rfl, hbefore, he⟩ := settle_map_eq_error_iff.mp h
  have hsound : ∀ b ∈ before, ∀ other, ¬ b.Refused other := by
    intro b hb other hother
    exact hbefore b hb other (TensorEntry.verdict_refused_iff.mpr hother)
  refine ⟨before, e, after, rfl, hsound, TensorEntry.verdict_refused_iff.mp he, ?_⟩
  rw [List.map_append, List.map_cons, he,
    events_settle_append (noneRefused_map_verdict_iff.mpr hsound),
    TensorEntry.filterMap_event?_verdict hsound, settle]
  exact List.append_nil _

/-- **Every tensor is accounted for.**  If no tensor of a graph is refused, those of a
declared type with at least one element are declared, one array each under the tensor's
name, with its type and its number of elements, and all others are reported, one trace
each that names the tensor; both stand in the order of the walk, and together they are as
many as the tensors.  Otherwise the events up to the fault are the reports of the tensors
skipped before the one that is refused. -/
theorem tensors_accounted (g : Graph) :
    (∀ buffers, (settle g.verdicts).outcome = .ok buffers →
      List.Forall₂ TensorEntry.DeclaredBy (g.tensorEntries.filter TensorEntry.HasArray)
        (buffers.map Buffer.item) ∧
      (settle g.verdicts).events =
        (g.tensorEntries.filter fun e => ¬ e.HasArray).map TensorEntry.skipReport ∧
      buffers.length + (settle g.verdicts).events.length =
        g.constants.length + g.intermediates.length) ∧
    (∀ fault, (settle g.verdicts).outcome = .error fault →
      ∃ before e after, g.tensorEntries = before ++ e :: after ∧
        (∀ b ∈ before, ∀ other, ¬ b.Refused other) ∧ e.Refused fault ∧
        (settle g.verdicts).events =
          (before.filter fun e => ¬ e.HasArray).map TensorEntry.skipReport ∧
        ∀ o output, g.output = .ok output →
          (assemble g o).events = assemblingEvent g o :: (settle g.verdicts).events ∧
          (generate g o).events = assemblingEvent g o :: (settle g.verdicts).events) ∧
    ∀ e : TensorEntry, e.skipReport.level = .trace ∧ ("tensor", e.name) ∈ e.skipReport.fields := by
  rw [verdicts_eq_map]
  refine ⟨?_, ?_, TensorEntry.skipReport_names⟩
  · intro buffers h
    obtain ⟨hnone, rfl⟩ := settle_eq_ok_iff.mp h
    have hsound := noneRefused_map_verdict_iff.mp hnone
    have hdeclared := forall₂_buffers TensorEntry.verdict
      (fun e he harray => TensorEntry.HasArray.exists_buffer harray (hsound e he))
      fun e => TensorEntry.not_hasArray
    have hevents : (settle (g.tensorEntries.map TensorEntry.verdict)).events =
        (g.tensorEntries.filter fun e => ¬ e.HasArray).map TensorEntry.skipReport := by
      have happend := events_settle_append hnone []
      rw [List.append_nil, settle, List.append_nil] at happend
      rw [happend, TensorEntry.filterMap_event?_verdict hsound]
    refine ⟨hdeclared, hevents, ?_⟩
    have hlength := hdeclared.length_eq
    have hentries : g.tensorEntries.length = g.constants.length + g.intermediates.length := by
      simp [Graph.tensorEntries]
    have hsplit := g.tensorEntries.length_eq_length_filter_add fun e => decide e.HasArray
    rw [List.length_map] at hlength
    rw [← hlength, hevents, List.length_map, ← hentries, hsplit]
    simp
  · intro fault h
    obtain ⟨before, e, after, hsplit, hbefore, he, hevents⟩ := exists_refused_of_settle h
    refine ⟨before, e, after, hsplit, hbefore, he, hevents, ?_⟩
    intro o output houtput
    rw [← verdicts_eq_map] at h ⊢
    have hassemble : assemble g o =
        ⟨assemblingEvent g o :: (settle g.verdicts).events, .error fault⟩ := by
      rw [assemble, houtput]
      dsimp only
      rw [h]
    rw [generate, hassemble]
    exact ⟨rfl, rfl⟩

/-- A graph with tensors of each kind in both tables. -/
def mixedGraph : Graph where
  name := "mixed"
  constants := [{ name := "mask", shape := [2], data := .raw .bool [1, 0] },
    { name := "W", shape := [2], data := .int32 [3, -4] },
    { name := "E", shape := [3, 0], data := .double [] }]
  intermediates := [{ name := "half", type := .float16, shape := [8] },
    { name := "Y", type := .float, shape := [2] }, { name := "N", type := .int64, shape := [0] }]
  outputs := ["Y"]

/-- That graph with one element too few in its second constant. -/
def shortGraph : Graph :=
  { mixedGraph with
    constants := [{ name := "mask", shape := [2], data := .raw .bool [1, 0] },
      { name := "W", shape := [2], data := .int32 [3] },
      { name := "E", shape := [3, 0], data := .double [] }] }

/-- The one has two arrays and four reports; the other is refused after one report. -/
theorem tensors_accounted_mixed :
    (∃ buffers, (settle mixedGraph.verdicts).outcome = .ok buffers ∧
      (settle mixedGraph.verdicts).events =
        [.constantTypeSkipped "mask" .bool, .emptyConstantSkipped "E",
          .intermediateTypeSkipped "half" .float16, .emptyIntermediateSkipped "N"] ∧
      buffers.length + (settle mixedGraph.verdicts).events.length = 6) ∧
    (settle shortGraph.verdicts).outcome = .error (.constantSize "W" 2 1) ∧
      (assemble shortGraph {}).events =
        assemblingEvent shortGraph {} :: (settle shortGraph.verdicts).events := by
  have hmixed : (settle mixedGraph.verdicts).outcome.isOk = true := by decide +kernel
  obtain ⟨buffers, hbuffers⟩ := exists_eq_ok_of_isOk hmixed
  obtain ⟨-, hevents, hlength⟩ := (tensors_accounted mixedGraph).1 buffers hbuffers
  have hshort : (settle shortGraph.verdicts).outcome = .error (.constantSize "W" 2 1) := by rfl
  obtain ⟨-, -, -, -, -, -, -, hassemble⟩ := (tensors_accounted shortGraph).2.1 _ hshort
  refine ⟨⟨buffers, hbuffers, ?_, hlength⟩, hshort, (hassemble {} _ (by rfl)).1⟩
  rw [hevents]
  decide

end Chronograph
