import Chronograph.Proofs.Code.Execution
import Chronograph.Proofs.Timing.Orders

/-!
# Rules of execution

An execution is followed statement by statement, with one rule for each kind of
statement.  A loop goes through states that depend on a smaller datum, such as the
totals so far; if the body takes the state of each datum to that of the next one,
the loop takes the first state to that of the datum folded over all values
(`forEach_eq_next`).

A loop that walks a map variable and changes the entry it stands at makes all
values of the map anew, in whatever order it walks (`exec_each_eq_next`).
-/

namespace Chronograph

/-! ## Variables -/

namespace Scope

variable {s : Scope} {x y : String} {v w old : Value}

theorem get?_cons : get? ((x, v) :: s) y = if x = y then some v else get? s y := rfl

theorem get?_set_self (h : s.get? x = some old) : (s.set x v).get? x = some v := by
  induction s with
  | nil => cases h
  | cons first rest ih =>
      obtain ⟨y, u⟩ := first
      rw [get?_cons] at h
      rw [set]
      by_cases hy : y = x
      · rw [if_pos hy, get?_cons, if_pos hy]
      · rw [if_neg hy] at h ⊢
        rw [get?_cons, if_neg hy, ih h]

theorem get?_set_ne (h : x ≠ y) : (s.set x v).get? y = s.get? y := by
  induction s with
  | nil => rfl
  | cons first rest ih =>
      obtain ⟨z, u⟩ := first
      by_cases hz : z = x
      · subst hz
        simp [set, get?_cons, h]
      · simp [set, hz, get?_cons, ih]

/-- Variables of other names do not hide a variable. -/
theorem get?_append {own : Scope} (h : ∀ v ∈ own, v.1 ≠ x) :
    get? (own ++ s) x = get? s x := by
  induction own with
  | nil => rfl
  | cons first rest ih =>
      obtain ⟨hfirst, hrest⟩ := List.forall_mem_cons.mp h
      rw [List.cons_append, get?_cons, if_neg hfirst, ih hrest]

theorem set_set : (s.set x v).set x w = s.set x w := by
  induction s with
  | nil => rfl
  | cons first rest ih =>
      obtain ⟨y, u⟩ := first
      by_cases hy : y = x <;> simp [set, hy, ih]

theorem set_eq_self (h : s.get? x = some v) : s.set x v = s := by
  induction s with
  | nil => rfl
  | cons first rest ih =>
      obtain ⟨y, u⟩ := first
      rw [get?_cons] at h
      rw [set]
      by_cases hy : y = x
      · rw [if_pos hy] at h ⊢
        cases h
        rfl
      · rw [if_neg hy] at h ⊢
        rw [ih h]

theorem length_set : (s.set x v).length = s.length := by
  induction s with
  | nil => rfl
  | cons first rest ih =>
      obtain ⟨y, u⟩ := first
      by_cases hy : y = x <;> simp [set, hy, ih]

/-- The value under a name of a map variable. -/
theorem read_slot {m : Run} {name : String} {time : Micros} (hx : s.get? x = some (.times m))
    (hname : m.get? name = some time) : s.read (.slot x name) = some (.number time) := by
  simp [read, hx, hname]

end Scope

/-! ## Updates -/

/-- The steps of an update: the expression, the target, the new value and the
assignment. -/
theorem update_eq_some {s after entered t : Scope} {f : Value → Value → Option Value}
    {target e : CodeExpr} {v w place old new : Value} (he : e.eval s = some (v, after))
    (hw : after.read v = some w) (htarget : target.eval after = some (place, entered))
    (hold : entered.read place = some old) (hnew : f old w = some new)
    (hassign : entered.assign place new = some t) : s.update f target e = some t := by
  simp [Scope.update, he, hw, htarget, hold, hnew, hassign]

section Updates

variable {s : Scope} {x name : String} {key e pair : CodeExpr} {v : Value}

/-- A time added at a name of a map variable is added to the time there, or to
zero. -/
theorem update_plus_times {m : Run} {time : Micros} (hx : s.get? x = some (.times m))
    (he : e.eval s = some (v, s)) (htime : s.read v = some (.number time))
    (hkey : key.eval s = some (.text name, s)) :
    s.update Value.plus (.element x key) e =
      some (s.set x (.times (m.alter name fun old => (old.getD .zero).add time))) := by
  let entered := s.set x (.times (m.alter name fun old => old.getD .zero))
  have hentered : entered.get? x = some (.times (m.alter name fun old => old.getD .zero)) :=
    Scope.get?_set_self hx
  have htarget : (CodeExpr.element x key).eval s = some (.slot x name, entered) := by
    simp [CodeExpr.eval, hkey, Scope.read, Scope.element, hx, entered]
  have hold : entered.read (.slot x name) = some (.number ((m.get? name).getD .zero)) := by
    refine Scope.read_slot hentered ?_
    rw [NameMap.get?_alter, if_pos rfl]
  refine update_eq_some he htime htarget hold rfl ?_
  have hresult := m.insert_alter name (fun old => old.getD .zero) fun old =>
    (old.getD .zero).add time
  simp [Scope.assign, hentered, hresult, entered, Scope.set_set]

/-- A number added at a name of a map of counts. -/
theorem update_plus_counts {m : NameMap Nat} {n : Nat} (hx : s.get? x = some (.counts m))
    (he : e.eval s = some (.size n, s)) (hkey : key.eval s = some (.text name, s)) :
    s.update Value.plus (.element x key) e =
      some (s.set x (.counts (m.alter name fun old => old.getD 0 + n))) := by
  let entered := s.set x (.counts (m.alter name fun old => old.getD 0))
  have hentered : entered.get? x = some (.counts (m.alter name fun old => old.getD 0)) :=
    Scope.get?_set_self hx
  have htarget : (CodeExpr.element x key).eval s = some (.slot x name, entered) := by
    simp [CodeExpr.eval, hkey, Scope.read, Scope.element, hx, entered]
  have hold : entered.read (.slot x name) = some (.size ((m.get? name).getD 0)) := by
    simp [Scope.read, hentered, NameMap.get?_alter]
  refine update_eq_some he rfl htarget hold rfl ?_
  have hresult := m.insert_alter name (fun old => old.getD 0) fun old => old.getD 0 + n
  simp [Scope.assign, hentered, hresult, entered, Scope.set_set]

/-- The time of an entry changed by a value. -/
theorem update_second {after : Scope} {m : Run} {f : Value → Value → Option Value}
    {old new : Micros} {w : Value} (he : e.eval s = some (v, after)) (hw : after.read v = some w)
    (hpair : pair.eval after = some (.entry x name, after))
    (hx : after.get? x = some (.times m)) (hold : m.get? name = some old)
    (hnew : f (.number old) w = some (.number new)) :
    s.update f (.second pair) e = some (after.set x (.times (m.insert name new))) := by
  have htarget : (CodeExpr.second pair).eval after = some (.slot x name, after) := by
    simp [CodeExpr.eval, hpair, Value.second]
  refine update_eq_some he hw htarget (Scope.read_slot hx hold) hnew ?_
  simp [Scope.assign, hx]

end Updates

/-! ## Statements -/

section Statements

variable {orders : Orders} {s t : State} {rest : List Stmt}

theorem exec_line {text : String} {phrase : Phrase} (h : readPhrase text = some phrase) :
    Stmt.exec orders (.line text) s = phrase.exec s := by
  rw [Stmt.exec, h, Option.bind_some]

theorem exec_add {text : String} {target e : CodeExpr} {scope : Scope}
    (hread : readPhrase text = some (.add target e))
    (h : s.scope.update Value.plus target e = some scope) :
    Stmt.exec orders (.line text) s = some (.next { s with scope }) := by
  rw [exec_line hread, Phrase.exec, h]
  rfl

theorem exec_divide {text : String} {target e : CodeExpr} {scope : Scope}
    (hread : readPhrase text = some (.divide target e))
    (h : s.scope.update Value.quotient target e = some scope) :
    Stmt.exec orders (.line text) s = some (.next { s with scope }) := by
  rw [exec_line hread, Phrase.exec, h]
  rfl

theorem exec_block {header : String} {body : List Stmt} {h : Header}
    (hread : readHeader header = some h) :
    Stmt.exec orders (.block header body) s = h.exec orders (Stmt.execAll orders body) s := by
  rw [Stmt.exec, hread, Option.bind_some]

theorem execAll_cons {stmt : Stmt} (h : Stmt.exec orders stmt s = some (.next t)) :
    Stmt.execAll orders (stmt :: rest) s = Stmt.execAll orders rest t := by
  rw [Stmt.execAll, h, Option.bind_some, Flow.andThen]

/-- Statements end with the first one that returns. -/
theorem execAll_cons_answered {stmt : Stmt} {v : Value}
    (h : Stmt.exec orders stmt s = some (.answered v)) :
    Stmt.execAll orders (stmt :: rest) s = some (.answered v) := by
  rw [Stmt.execAll, h, Option.bind_some, Flow.andThen]

theorem execAll_singleton {stmt : Stmt} (h : Stmt.exec orders stmt s = some (.next t)) :
    Stmt.execAll orders [stmt] s = some (.next t) := by
  rw [execAll_cons h, Stmt.execAll]

@[simp] theorem execAll_comment {text : String} :
    Stmt.execAll orders (.comment text :: rest) s = Stmt.execAll orders rest s :=
  execAll_cons rfl

@[simp] theorem execAll_blank :
    Stmt.execAll orders (.blank :: rest) s = Stmt.execAll orders rest s :=
  execAll_cons rfl

/-- The variables of a block end with it. -/
theorem within_eq_next {body : State → Option Flow} {scope : Scope}
    (h : body { s with scope } = some (.next t)) :
    within body s scope =
      some (.next { t with scope := t.scope.drop (t.scope.length - s.scope.length) }) := by
  rw [within, h]
  rfl

theorem within_eq_answered {body : State → Option Flow} {scope : Scope} {v : Value}
    (h : body { s with scope } = some (.answered v)) :
    within body s scope = some (.answered v) := by
  rw [within, h]
  rfl

theorem drop_own {own outer : Scope} {n : Nat} (h : outer.length = n) :
    (own ++ outer).drop ((own ++ outer).length - n) = outer := by
  rw [List.length_append, h, Nat.add_sub_cancel, List.drop_left]

variable {condition : CodeExpr} {scope : Scope} {body : State → Option Flow}

theorem exec_branch_true (h : condition.eval s.scope = some (.truth true, scope)) :
    (Header.branch condition).exec orders body s = within body { s with scope } scope := by
  rw [Header.exec, h]
  rfl

theorem exec_branch_false (h : condition.eval s.scope = some (.truth false, scope)) :
    (Header.branch condition).exec orders body s = some (.next { s with scope }) := by
  rw [Header.exec, h]
  rfl

end Statements

/-! ## Loops -/

/-- **The rule of loops.**  If the body takes the state of each datum to the state
of the next one, the loop ends in the state of the datum folded over all values,
and what every step keeps still holds. -/
theorem forEach_eq_next {σ α : Type} {x : String} {body : State → Option Flow} {value : α → Value}
    {state : σ → State} {f : σ → α → σ} {keeps : σ → Prop} {items : List α}
    (hfresh : ∀ b, (state b).scope.get? x = none)
    (hstep : ∀ a ∈ items, ∀ b, keeps b → keeps (f b a) ∧
      within body (state b) ((x, value a) :: (state b).scope) = some (.next (state (f b a))))
    {b : σ} (hb : keeps b) :
    forEach x body (items.map value) (state b) = some (.next (state (items.foldl f b))) ∧
      keeps (items.foldl f b) := by
  induction items generalizing b with
  | nil => exact ⟨rfl, hb⟩
  | cons a rest ih =>
      obtain ⟨hnext, hbody⟩ := hstep a List.mem_cons_self b hb
      obtain ⟨hrest, hkeeps⟩ := ih (fun a' ha' => hstep a' (List.mem_cons_of_mem _ ha')) hnext
      refine ⟨?_, hkeeps⟩
      have hdeclare : (state b).scope.declare x (value a) =
          some ((x, value a) :: (state b).scope) := by
        simp [Scope.declare, hfresh b]
      simp [forEach, hdeclare, hbody, Flow.andThen, hrest]

/-- The rule of loops, when there is nothing to keep. -/
theorem forEach_eq_foldl {σ α : Type} {x : String} {body : State → Option Flow}
    {value : α → Value} {state : σ → State} {f : σ → α → σ} {items : List α}
    (hfresh : ∀ b, (state b).scope.get? x = none)
    (hstep : ∀ a ∈ items, ∀ b,
      within body (state b) ((x, value a) :: (state b).scope) = some (.next (state (f b a))))
    (b : σ) :
    forEach x body (items.map value) (state b) = some (.next (state (items.foldl f b))) :=
  (forEach_eq_next hfresh (fun a ha b (_ : True) => ⟨trivial, hstep a ha b⟩) trivial).1

theorem keepingNames_eq_next {body : State → Option Flow} {s t : State} {map : String}
    {m : Run} {names : List String} (h : body s = some (.next t))
    (hmap : t.scope.get? map = some (.times m)) (hnames : m.names = names) :
    keepingNames map names body s = some (.next t) := by
  simp [keepingNames, h, Flow.andThen, hmap, hnames]

/-- **A walk over a map variable** that changes the entry it stands at makes every
value anew, in whatever order it walks.  The body may have variables of its own. -/
theorem exec_each_eq_next {orders : Orders} {s : State} {x map : String} {m : Run}
    {f : String → Micros → Micros} {body : State → Option Flow} (hfresh : s.scope.get? x = none)
    (hmap : s.scope.get? map = some (.times m))
    (hbody : ∀ (walks : Nat) (current : Run) (name : String) (old : Micros),
      current.names = m.names → current.get? name = some old →
      ∃ own : Scope, (∀ v ∈ own, v.1 ≠ map) ∧
        body { scope := (x, .entry map name) :: s.scope.set map (.times current), walks } =
          some (.next
            { scope := own ++ s.scope.set map (.times (current.insert name (f name old))),
              walks })) :
    (Header.each false x map).exec orders body s =
      some (.next
        { scope := s.scope.set map (.times (m.mapValues f)), walks := s.walks + 1 }) := by
  let state (current : Run) : State :=
    { scope := s.scope.set map (.times current), walks := s.walks + 1 }
  have hne : map ≠ x := by
    rintro rfl
    rw [hfresh] at hmap
    cases hmap
  have hstart : { s with walks := s.walks + 1 } = state m := by
    simp only [state, Scope.set_eq_self hmap]
  have hperm := (orders s.walks).perm m.names
  have hunused (current : Run) : (state current).scope.get? x = none := by
    rw [Scope.get?_set_ne hne, hfresh]
  -- the walk keeps the names, so every name that is met still has a value
  have hstep : ∀ name ∈ (orders s.walks).arrange m.names, ∀ current : Run,
      current.names = m.names →
      (current.alter name fun old => f name (old.getD .zero)).names = m.names ∧
        within (keepingNames map m.names body) (state current)
            ((x, .entry map name) :: (state current).scope) =
          some (.next (state (current.alter name fun old => f name (old.getD .zero)))) := by
    intro name hname current hcurrent
    have hmem : name ∈ current.names := by rw [hcurrent]; exact hperm.mem_iff.mp hname
    obtain ⟨old, hold⟩ := NameMap.exists_of_mem_names hmem
    have hnames := (NameMap.names_alter hmem fun old => f name (old.getD .zero)).trans hcurrent
    obtain ⟨own, hown, hnext⟩ := hbody (s.walks + 1) current name old hcurrent hold
    have hinsert : current.insert name (f name old) =
        current.alter name fun old => f name (old.getD .zero) :=
      NameMap.alter_congr (by rw [hold, Option.getD_some])
    rw [hinsert] at hnext
    have hkept := (Scope.get?_append hown).trans (Scope.get?_set_self
      (v := .times (current.alter name fun old => f name (old.getD .zero))) hmap)
    refine ⟨hnames, ?_⟩
    rw [within_eq_next (keepingNames_eq_next hnext hkept hnames), drop_own]
    rw [Scope.length_set, Scope.length_set]
  have hwalk := (forEach_eq_next hunused hstep (Eq.refl m.names)).1
  rw [NameMap.foldl_alter_eq_mapValues hperm] at hwalk
  rw [Header.exec, hmap]
  dsimp only
  rw [hstart, hwalk]

end Chronograph
