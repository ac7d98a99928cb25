import Chronograph.Module.AverageFunction
import Chronograph.Proofs.Code.Walks

/-!
# The averaging function computes averages

The emitted averaging function is executed, line by line, on an arbitrary history,
and what it returns is compared with `average` (`averageFunction_computes`).  The
two were written apart: the function keeps sums and counts in two maps that are
walked in any order, while `average` keeps one sorted map of totals.

* Under `union` the two maps of the function are, before and after each run, the
  sums and the counts of the totals of `average` (`unionScope`), so adding a run
  is `addRun` (`exec_eachEntry`), and the second loop divides each sum by the count
  under its name (`exec_divideByCount`).
* Under `firstCall` the only map is that of the sums (`firstCallScope`).  Adding a
  run is `addKnown` (`exec_eachSum`), and the second loop divides each sum by the
  number of runs (`exec_divideByRuns`).

What the text of a line says is decided by reading it, so each line and each header
comes with the phrase that it is.
-/

namespace Chronograph

variable {orders : Orders} {runs : List Run}

theorem Micros.quotient_ofNat (x : Micros) (n : Nat) : x.quotient (.ofNat n) = x.dividedBy n := by
  cases x <;> rfl

theorem readHeader_eachAvg :
    readHeader "for (auto& entry : avg)" = some (.each false "entry" "avg") := by
  decide +kernel

theorem readPhrase_returnAvg : readPhrase "return avg;" = some (.answer (.name "avg")) := by
  decide +kernel

/-- A fold that counts its steps. -/
theorem foldl_counted {σ α : Type} (f : σ → α → σ) (items : List α) (b : σ) (n : Nat) :
    items.foldl (fun state a => (f state.1 a, state.2 + 1)) (b, n) =
      (items.foldl f b, n + items.length) := by
  induction items generalizing b n with
  | nil => rfl
  | cons a rest ih =>
      rw [List.foldl_cons, List.foldl_cons, ih, List.length_cons, Nat.add_assoc,
        Nat.add_comm 1 rest.length]

/-! ## Under `union` -/

/-- The variables of the averaging function under `union`, when some totals have
been added up. -/
def unionScope (runs : List Run) (totals : NameMap Total) : Scope :=
  [("counts", .counts (totals.mapValues fun _ t => t.count)),
    ("avg", .times (totals.mapValues fun _ t => t.sum)), (historyName, .runs runs)]

/-- The lines inside the loops add the time of one operator. -/
theorem exec_addTime {run : Run} {name : String} {time : Micros} (h : run.get? name = some time)
    (totals : NameMap Total) (walks : Nat) :
    Stmt.execAll orders
        [.line "avg[entry.first] += entry.second;", .line "counts[entry.first] += 1;"]
        { scope := ("entry", .entry "run" name) :: ("run", .times run) :: unionScope runs totals,
          walks } =
      some (.next
        { scope := ("entry", .entry "run" name) :: ("run", .times run) ::
            unionScope runs (addTime run totals name),
          walks }) := by
  have hline : readPhrase "avg[entry.first] += entry.second;" =
      some (.add (.element "avg" (.first (.name "entry"))) (.second (.name "entry"))) := by
    decide +kernel
  have hcountLine : readPhrase "counts[entry.first] += 1;" =
      some (.add (.element "counts" (.first (.name "entry"))) (.numeral 1)) := by
    decide +kernel
  have hsums : (addTime run totals name).mapValues (fun _ t => t.sum) =
      (totals.mapValues fun _ t => t.sum).alter name fun old => (old.getD .zero).add time := by
    rw [addTime, h, Option.getD_some]
    refine NameMap.mapValues_alter ?_
    intro old
    cases old <;> rfl
  have hcounts : (addTime run totals name).mapValues (fun _ t => t.count) =
      (totals.mapValues fun _ t => t.count).alter name fun old => old.getD 0 + 1 := by
    refine NameMap.mapValues_alter ?_
    intro old
    cases old <;> rfl
  have hadded : unionScope runs (addTime run totals name) =
      [("counts", .counts ((totals.mapValues fun _ t => t.count).alter name
          fun old => old.getD 0 + 1)),
        ("avg", .times ((totals.mapValues fun _ t => t.sum).alter name
          fun old => (old.getD .zero).add time)),
        (historyName, .runs runs)] := by
    rw [unionScope, hsums, hcounts]
  rw [execAll_cons (exec_add hline (update_plus_times rfl rfl (Scope.read_slot rfl h) rfl)),
    execAll_singleton (exec_add hcountLine (update_plus_counts rfl rfl rfl)), hadded]
  rfl

/-- A walk over a run whose body adds the time of one operator adds the times of
the run. -/
theorem exec_walkRun {run : Run} {body : State → Option Flow}
    (hbody : ∀ (totals : NameMap Total) (name : String) (time : Micros) (walks : Nat),
      run.get? name = some time →
      body { scope := ("entry", .entry "run" name) :: ("run", .times run) :: unionScope runs totals,
             walks } =
        some (.next
          { scope := ("entry", .entry "run" name) :: ("run", .times run) ::
              unionScope runs (addTime run totals name),
            walks }))
    (totals : NameMap Total) (walks : Nat) :
    (Header.each true "entry" "run").exec orders body
        { scope := ("run", .times run) :: unionScope runs totals, walks } =
      some (.next
        { scope := ("run", .times run) :: unionScope runs (addRun totals run),
          walks := walks + 1 }) := by
  let state (totals : NameMap Total) : State :=
    { scope := ("run", .times run) :: unionScope runs totals, walks := walks + 1 }
  have hperm := (orders walks).perm run.names
  have hunused (totals : NameMap Total) : (state totals).scope.get? "entry" = none := rfl
  have hstep : ∀ name ∈ (orders walks).arrange run.names, ∀ totals : NameMap Total,
      within (keepingNames "run" run.names body) (state totals)
        (("entry", .entry "run" name) :: (state totals).scope) =
          some (.next (state (addTime run totals name))) := by
    intro name hname totals
    obtain ⟨time, htime⟩ := NameMap.exists_of_mem_names (hperm.mem_iff.mp hname)
    have hnext := hbody totals name time (walks + 1) htime
    rw [within_eq_next (keepingNames_eq_next hnext rfl rfl)]
    rfl
  have hwalk := forEach_eq_foldl hunused hstep totals
  rw [foldl_addTime_eq_addRun hperm] at hwalk
  exact hwalk

/-- The inner loop adds the times of one run. -/
theorem exec_eachEntry (run : Run) (totals : NameMap Total) (walks : Nat) :
    Stmt.exec orders
        (.block "for (const auto& entry : run)"
          [.line "avg[entry.first] += entry.second;", .line "counts[entry.first] += 1;"])
        { scope := ("run", .times run) :: unionScope runs totals, walks } =
      some (.next
        { scope := ("run", .times run) :: unionScope runs (addRun totals run),
          walks := walks + 1 }) := by
  have hheader : readHeader "for (const auto& entry : run)" =
      some (.each true "entry" "run") := by
    decide +kernel
  rw [exec_block hheader]
  refine exec_walkRun ?_ totals walks
  intro totals name time walks htime
  exact exec_addTime htime totals walks

/-- The first loop adds up the times of all runs. -/
theorem exec_totals (walks : Nat) :
    Stmt.exec orders
        (.block ("for (const auto& run : " ++ historyName ++ ")")
          [.block "for (const auto& entry : run)"
            [.line "avg[entry.first] += entry.second;", .line "counts[entry.first] += 1;"]])
        { scope := unionScope runs .empty, walks } =
      some (.next { scope := unionScope runs (totalsOf runs), walks := walks + runs.length }) := by
  have hheader : readHeader ("for (const auto& run : " ++ historyName ++ ")") =
      some (.each true "run" historyName) := by
    decide +kernel
  let state (b : NameMap Total × Nat) : State := { scope := unionScope runs b.1, walks := b.2 }
  have hunused (b : NameMap Total × Nat) : (state b).scope.get? "run" = none := rfl
  have hstep : ∀ run ∈ runs, ∀ b : NameMap Total × Nat,
      within
        (Stmt.execAll orders [.block "for (const auto& entry : run)"
          [.line "avg[entry.first] += entry.second;", .line "counts[entry.first] += 1;"]])
        (state b) (("run", .times run) :: (state b).scope) =
          some (.next (state (addRun b.1 run, b.2 + 1))) := by
    intro run _ b
    rw [within_eq_next (execAll_singleton (exec_eachEntry run b.1 b.2))]
    rfl
  have hloop := forEach_eq_foldl hunused hstep (.empty, walks)
  rw [foldl_counted] at hloop
  rw [exec_block hheader, totalsOf]
  exact hloop

/-- The second loop divides the total of each operator by its count. -/
theorem exec_divideByCount (totals : NameMap Total) (walks : Nat) :
    Stmt.exec orders
        (.block "for (auto& entry : avg)"
          [.line "entry.second /= static_cast<double>(counts[entry.first]);"])
        { scope := unionScope runs totals, walks } =
      some (.next
        { scope := [("counts", .counts (totals.mapValues fun _ t => t.count)),
            ("avg", .times (totals.mapValues fun _ t => t.sum.dividedBy t.count)),
            (historyName, .runs runs)],
          walks := walks + 1 }) := by
  have hline : readPhrase "entry.second /= static_cast<double>(counts[entry.first]);" =
      some (.divide (.second (.name "entry"))
        (.toDouble (.element "counts" (.first (.name "entry"))))) := by
    decide +kernel
  let divided (name : String) (sum : Micros) : Micros :=
    sum.dividedBy ((totals.get? name).getD {}).count
  have hresult : (totals.mapValues fun _ t => t.sum).mapValues divided =
      totals.mapValues fun _ t => t.sum.dividedBy t.count := by
    refine NameMap.ext_get? ?_
    intro name
    cases h : totals.get? name <;> simp [h, divided]
  rw [exec_block readHeader_eachAvg, ← hresult]
  refine exec_each_eq_next rfl rfl ?_
  intro walks current name sum hnames hsum
  obtain ⟨total, htotal⟩ : ∃ total, totals.get? name = some total := by
    have hmem : name ∈ current.names := by rw [NameMap.mem_names_iff, hsum]; rfl
    rw [hnames, NameMap.names_mapValues] at hmem
    exact NameMap.exists_of_mem_names hmem
  let counts := totals.mapValues fun _ t => t.count
  have hcount : counts.get? name = some total.count := by
    rw [NameMap.get?_mapValues, htotal, Option.map_some]
  let scope : Scope := [("entry", .entry "avg" name), ("counts", .counts counts),
    ("avg", .times current), (historyName, .runs runs)]
  -- looking a count up by its name would enter it, if it were missing
  have hentered : scope.set "counts" (.counts (counts.alter name fun old => old.getD 0)) =
      scope := by
    rw [NameMap.alter_getD hcount]
    rfl
  have helement : (CodeExpr.element "counts" (.first (.name "entry"))).eval scope =
      some (.slot "counts" name, scope) :=
    congrArg (fun after => some (Value.slot "counts" name, after)) hentered
  have hread : scope.read (.slot "counts" name) = some (.size total.count) :=
    congrArg (Option.map Value.size) hcount
  have hlookup : (CodeExpr.toDouble (.element "counts" (.first (.name "entry")))).eval scope =
      some (.number (.ofNat total.count), scope) := by
    rw [CodeExpr.eval, helement]
    simp [hread, Value.toDouble]
  have hdivided : Value.quotient (.number sum) (.number (.ofNat total.count)) =
      some (.number (divided name sum)) := by
    simp [Value.quotient, Micros.quotient_ofNat, divided, htotal]
  have hupdate : scope.update Value.quotient (.second (.name "entry")) _ = some _ :=
    update_second hlookup rfl rfl rfl hsum hdivided
  refine ⟨[("entry", .entry "avg" name)], by simp, ?_⟩
  rw [execAll_singleton (exec_divide hline hupdate)]
  rfl

/-- The statements of `union` compute the average, if they start with the runs
alone. -/
theorem execAll_union :
    Stmt.execAll orders (unionStatements ++ [.line "return avg;"])
        { scope := [(historyName, .runs runs)] } =
      some (.answered (.times ((totalsOf runs).mapValues fun _ t => t.sum.dividedBy t.count))) := by
  have htimes : readPhrase (resultTypeName ++ " avg;") = some (.declare .times "avg") := by
    decide +kernel
  have hcounts : readPhrase "std::unordered_map<std::string, std::size_t> counts;" =
      some (.declare .counts "counts") := by
    decide +kernel
  have htimesDeclared : Stmt.exec orders (.line (resultTypeName ++ " avg;"))
      { scope := [(historyName, .runs runs)] } =
        some (.next { scope := [("avg", .times .empty), (historyName, .runs runs)] }) := by
    rw [exec_line htimes]
    rfl
  have hcountsDeclared : Stmt.exec orders
      (.line "std::unordered_map<std::string, std::size_t> counts;")
      { scope := [("avg", .times .empty), (historyName, .runs runs)] } =
        some (.next { scope := unionScope runs .empty }) := by
    rw [exec_line hcounts]
    rfl
  simp only [unionStatements, List.cons_append, List.nil_append, execAll_comment]
  rw [execAll_cons htimesDeclared, execAll_cons hcountsDeclared, execAll_cons (exec_totals 0),
    execAll_blank, execAll_comment, execAll_cons (exec_divideByCount _ _)]
  refine execAll_cons_answered ?_
  rw [exec_line readPhrase_returnAvg]
  rfl

/-! ## Under `firstCall` -/

/-- The variables of the averaging function under `firstCall`, when some times have
been added to those of the first run. -/
def firstCallScope (runs : List Run) (sums : Run) : Scope :=
  [("avg", .times sums), (historyName, .runs runs)]

/-- The lines inside the loops add the time of one operator, if the run has one. -/
theorem exec_addFound {run : Run} {i : Nat} (hrun : runs[i]? = some run) {sums : Run}
    {name : String} {sum : Micros} (hsum : sums.get? name = some sum) (walks : Nat) :
    ∃ own : Scope, (∀ v ∈ own, v.1 ≠ "avg") ∧
      Stmt.execAll orders
          [.line ("auto found = " ++ historyName ++ "[i].find(entry.first);"),
            .block ("if (found != " ++ historyName ++ "[i].end())")
              [.line "entry.second += found->second;"]]
          { scope := ("entry", .entry "avg" name) :: ("i", .size i) :: firstCallScope runs sums,
            walks } =
        some (.next
          { scope := own ++ ("i", .size i) :: firstCallScope runs (sums.insert name
              (match run.get? name with
                | some time => sum.add time
                | none => sum)),
            walks }) := by
  have hline : readPhrase ("auto found = " ++ historyName ++ "[i].find(entry.first);") =
      some (.define none "found"
        (.find (.element historyName (.name "i")) (.first (.name "entry")))) := by
    decide +kernel
  have hheader : readHeader ("if (found != " ++ historyName ++ "[i].end())") =
      some (.branch (.unequal (.name "found") (.past (.element historyName (.name "i"))))) := by
    decide +kernel
  have hadd : readPhrase "entry.second += found->second;" =
      some (.add (.second (.name "entry")) (.second (.pointee (.name "found")))) := by
    decide +kernel
  let outer : Scope := ("entry", .entry "avg" name) :: ("i", .size i) :: firstCallScope runs sums
  let position := (run.get? name).map fun _ => name
  let scope : Scope := ("found", .iterator run position) :: outer
  have helement {s : Scope} (hruns : s.get? historyName = some (.runs runs))
      (hi : s.get? "i" = some (.size i)) :
      (CodeExpr.element historyName (.name "i")).eval s = some (.times run, s) := by
    simp [CodeExpr.eval, hi, Scope.read, Scope.element, hruns, hrun]
  have hfound : Stmt.exec orders
      (.line ("auto found = " ++ historyName ++ "[i].find(entry.first);"))
      { scope := outer, walks } = some (.next { scope, walks }) := by
    have hfind : (CodeExpr.find (.element historyName (.name "i")) (.first (.name "entry"))).eval
        outer = some (.iterator run position, outer) := by
      rw [CodeExpr.eval, helement rfl rfl]
      rfl
    rw [exec_line hline, Phrase.exec, hfind]
    rfl
  have hcondition : (CodeExpr.unequal (.name "found")
      (.past (.element historyName (.name "i")))).eval scope =
        some (.truth (position ≠ none), scope) := by
    have hpast : (CodeExpr.past (.element historyName (.name "i"))).eval scope =
        some (.iterator run none, scope) := by
      rw [CodeExpr.eval, helement rfl rfl]
      rfl
    have hname : (CodeExpr.name "found").eval scope = some (.iterator run position, scope) := rfl
    rw [CodeExpr.eval, hname]
    simp [hpast, Value.unequal]
  refine ⟨[("found", .iterator run position), ("entry", .entry "avg" name)], by simp, ?_⟩
  rw [execAll_cons hfound]
  refine execAll_singleton ((exec_block hheader).trans ?_)
  cases htime : run.get? name with
  | none =>
      have hposition : position = none := by simp [position, htime]
      rw [hposition] at hcondition
      rw [exec_branch_false hcondition, NameMap.insert_eq_self hsum]
      rfl
  | some time =>
      have hposition : position = some name := by simp [position, htime]
      rw [hposition] at hcondition
      have hvalue : (CodeExpr.second (.pointee (.name "found"))).eval scope =
          some (.number time, scope) := by
        have hpointee : (CodeExpr.pointee (.name "found")).eval scope =
            some (.pair name time, scope) := by
          have hname : (CodeExpr.name "found").eval scope =
              some (.iterator run position, scope) := rfl
          rw [CodeExpr.eval, hname, hposition]
          simp [Value.pointee, htime]
        rw [CodeExpr.eval, hpointee]
        rfl
      have hplus : Value.plus (.number sum) (.number time) = some (.number (sum.add time)) := rfl
      have hupdate : scope.update Value.plus (.second (.name "entry")) _ = some _ :=
        update_second hvalue rfl rfl rfl hsum hplus
      rw [exec_branch_true hcondition,
        within_eq_next (execAll_singleton (exec_add hadd hupdate))]
      rfl

/-- The inner loop adds the times of one run. -/
theorem exec_eachSum {run : Run} {i : Nat} (hrun : runs[i]? = some run) (sums : Run)
    (walks : Nat) :
    Stmt.exec orders
        (.block "for (auto& entry : avg)"
          [.line ("auto found = " ++ historyName ++ "[i].find(entry.first);"),
            .block ("if (found != " ++ historyName ++ "[i].end())")
              [.line "entry.second += found->second;"]])
        { scope := ("i", .size i) :: firstCallScope runs sums, walks } =
      some (.next
        { scope := ("i", .size i) :: firstCallScope runs (addKnown sums run),
          walks := walks + 1 }) := by
  rw [exec_block readHeader_eachAvg]
  refine exec_each_eq_next rfl rfl ?_
  intro walks current name sum _ hsum
  exact exec_addFound hrun hsum walks

/-- The first loop adds the times of all runs but the first. -/
theorem exec_sums {first : Run} {rest : List Run} (walks : Nat) :
    Stmt.exec orders
        (.block ("for (std::size_t i = 1; i < " ++ historyName ++ ".size(); ++i)")
          [.block "for (auto& entry : avg)"
            [.line ("auto found = " ++ historyName ++ "[i].find(entry.first);"),
              .block ("if (found != " ++ historyName ++ "[i].end())")
                [.line "entry.second += found->second;"]]])
        { scope := firstCallScope (first :: rest) first, walks } =
      some (.next
        { scope := firstCallScope (first :: rest) (rest.foldl addKnown first),
          walks := walks + rest.length }) := by
  have hheader : readHeader ("for (std::size_t i = 1; i < " ++ historyName ++ ".size(); ++i)") =
      some (.count "i" 1 historyName) := by
    decide +kernel
  let state (b : Run × Nat) : State :=
    { scope := firstCallScope (first :: rest) b.1, walks := b.2 }
  let runAt (i : Nat) : Run := ((first :: rest)[i]?).getD .empty
  have hunused (b : Run × Nat) : (state b).scope.get? "i" = none := rfl
  have hstep : ∀ i ∈ List.range' 1 rest.length, ∀ b : Run × Nat,
      within
        (Stmt.execAll orders [.block "for (auto& entry : avg)"
          [.line ("auto found = " ++ historyName ++ "[i].find(entry.first);"),
            .block ("if (found != " ++ historyName ++ "[i].end())")
              [.line "entry.second += found->second;"]]])
        (state b) (("i", .size i) :: (state b).scope) =
          some (.next (state (addKnown b.1 (runAt i), b.2 + 1))) := by
    intro i hi b
    have hlt : i < (first :: rest).length := by
      rw [List.mem_range'_1] at hi
      rw [List.length_cons]
      omega
    have hrun : (first :: rest)[i]? = some (runAt i) := by
      simp only [runAt, List.getElem?_eq_getElem hlt, Option.getD_some]
    rw [within_eq_next (execAll_singleton (exec_eachSum hrun b.1 b.2))]
    rfl
  have hloop := forEach_eq_foldl hunused hstep (first, walks)
  have hfold : (List.range' 1 rest.length).foldl (fun sums i => addKnown sums (runAt i)) first =
      rest.foldl addKnown first := by
    have hrest : (List.range' 1 rest.length).map runAt = rest := by
      refine List.ext_getElem (by simp) ?_
      intro i _ hi
      simp [runAt, Nat.add_comm 1 i, hi]
    rw [← List.foldl_map, hrest]
  rw [foldl_counted (fun sums i => addKnown sums (runAt i)), hfold, List.length_range'] at hloop
  rw [exec_block hheader]
  exact hloop

/-- The second loop divides each sum by the number of runs. -/
theorem exec_divideByRuns (sums : Run) (walks : Nat) :
    Stmt.exec orders
        (.block "for (auto& entry : avg)"
          [.line ("entry.second /= static_cast<double>(" ++ historyName ++ ".size());")])
        { scope := firstCallScope runs sums, walks } =
      some (.next
        { scope := firstCallScope runs (sums.mapValues fun _ sum => sum.dividedBy runs.length),
          walks := walks + 1 }) := by
  have hline : readPhrase ("entry.second /= static_cast<double>(" ++ historyName ++ ".size());") =
      some (.divide (.second (.name "entry")) (.toDouble (.size (.name historyName)))) := by
    decide +kernel
  rw [exec_block readHeader_eachAvg]
  refine exec_each_eq_next rfl rfl ?_
  intro walks current name sum _ hsum
  let scope : Scope := ("entry", .entry "avg" name) :: firstCallScope runs current
  have hlength : (CodeExpr.toDouble (.size (.name historyName))).eval scope =
      some (.number (.ofNat runs.length), scope) := rfl
  have hdivided : Value.quotient (.number sum) (.number (.ofNat runs.length)) =
      some (.number (sum.dividedBy runs.length)) := by
    rw [Value.quotient, Micros.quotient_ofNat]
  have hupdate : scope.update Value.quotient (.second (.name "entry")) _ = some _ :=
    update_second hlength rfl rfl rfl hsum hdivided
  refine ⟨[("entry", .entry "avg" name)], by simp, ?_⟩
  rw [execAll_singleton (exec_divide hline hupdate)]
  rfl

/-- The statements of `firstCall` compute the average, if they start with the runs
alone and there is one. -/
theorem execAll_firstCall (first : Run) (rest : List Run) :
    Stmt.execAll orders (firstCallStatements ++ [.line "return avg;"])
        { scope := [(historyName, .runs (first :: rest))] } =
      some (.answered (.times
        ((rest.foldl addKnown first).mapValues fun _ sum => sum.dividedBy (rest.length + 1)))) := by
  have hline : readPhrase (resultTypeName ++ " avg = " ++ historyName ++ "[0];") =
      some (.define (some .times) "avg" (.element historyName (.numeral 0))) := by
    decide +kernel
  have hdefined : Stmt.exec orders (.line (resultTypeName ++ " avg = " ++ historyName ++ "[0];"))
      { scope := [(historyName, .runs (first :: rest))] } =
        some (.next { scope := firstCallScope (first :: rest) first }) := by
    rw [exec_line hline]
    rfl
  simp only [firstCallStatements, List.cons_append, List.nil_append, execAll_comment]
  rw [execAll_cons hdefined, execAll_cons (exec_sums 0), execAll_blank, execAll_comment,
    execAll_cons (exec_divideByRuns _ _)]
  refine execAll_cons_answered ?_
  rw [exec_line readPhrase_returnAvg]
  rfl

/-! ## The function -/

/-- What stands before the statements of the policy: nothing is computed without
runs. -/
theorem execAll_body (policy : Policy) (synchronized : Bool) :
    Stmt.execAll orders (averageFunction policy synchronized).body
        { scope := [(historyName, .runs runs)] } =
      if runs = [] then some (.answered (.times .empty))
      else Stmt.execAll orders (averageStatements policy ++ [.line "return avg;"])
        { scope := [(historyName, .runs runs)] } := by
  have hlock : readPhrase ("std::lock_guard<std::mutex> lock(" ++ mutexName ++ ");") =
      some .lock := by
    decide +kernel
  have hheader : readHeader ("if (" ++ historyName ++ ".empty())") =
      some (.branch (.isEmpty (.name historyName))) := by
    decide +kernel
  have hreturn : readPhrase "return \x7b\x7d;" = some .answerEmpty := by decide +kernel
  let start : State := { scope := [(historyName, .runs runs)] }
  have hlocked : Stmt.exec orders lockLine start = some (.next start) := by
    rw [lockLine, exec_line hlock]
    rfl
  have hskip (rest : List Stmt) : Stmt.execAll orders
      ((if synchronized then [lockLine] else []) ++ rest) start =
        Stmt.execAll orders rest start := by
    cases synchronized with
    | false => rfl
    | true => exact execAll_cons hlocked
  have hcondition : (CodeExpr.isEmpty (.name historyName)).eval start.scope =
      some (.truth (runs.length = 0), start.scope) := rfl
  rw [averageFunction]
  simp only [List.append_assoc, List.cons_append, List.nil_append]
  refine (hskip _).trans ?_
  cases runs with
  | nil =>
      have hanswer : Stmt.execAll orders [.line "return \x7b\x7d;"] start =
          some (.answered (.times .empty)) :=
        execAll_cons_answered (exec_line hreturn)
      rw [if_pos rfl]
      refine execAll_cons_answered ?_
      rw [exec_block hheader, exec_branch_true hcondition, within_eq_answered hanswer]
  | cons first rest =>
      rw [if_neg (List.cons_ne_nil first rest)]
      have hguard : Stmt.exec orders
          (.block ("if (" ++ historyName ++ ".empty())") [.line "return \x7b\x7d;"]) start =
            some (.next start) := by
        rw [exec_block hheader, exec_branch_false hcondition]
      rw [execAll_cons hguard, execAll_blank]

/-- **The averaging function computes averages**: for both policies, with and
without the lock, for every history and whatever orders its maps are walked in. -/
theorem averageFunction_computes (orders : Orders) (policy : Policy) (synchronized : Bool)
    (runs : List Run) :
    (averageFunction policy synchronized).answer? orders runs = some (average policy runs) := by
  rw [Function.answer?, if_pos ⟨rfl, rfl⟩, execAll_body]
  cases runs with
  | nil => cases policy <;> rfl
  | cons first rest =>
      rw [if_neg (List.cons_ne_nil first rest)]
      cases policy with
      | union => rw [averageStatements, execAll_union]; rfl
      | firstCall => rw [averageStatements, execAll_firstCall]; rfl

end Chronograph
