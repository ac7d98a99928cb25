import Chronograph.Module.TimedBody
import Chronograph.Proofs.Code.Phrase
import Chronograph.Timing.Average

/-!
# Executing statements

What the statements of a function do to its variables, as far as they can be read
(`readPhrase`, `readHeader`).  Text that is not read has no meaning, and neither
has a step that the language leaves open: an index out of range, iterators of maps
that differ compared, a map that gets or loses a name while a loop walks it.  So an
execution has a result only if every step on the way has a meaning.

A map has no order of its own.  Each time a loop is entered, it walks the names of
its map in some order, which may be another every time: an execution is given all
these orders in advance (`Orders`), and what is said for all of them is said for
every order that a map may choose.

Times are computed in the arithmetic of `Micros`.  Counts are natural numbers: a
count is at most the number of runs in memory, and so never comes to where a
number of type `std::size_t` would wrap around.
-/

namespace Chronograph

/-! ## Values and variables -/

/-- A value. -/
inductive Value where
  | number (x : Micros)
  | size (n : Nat)
  | text (s : String)
  | truth (b : Bool)
  | times (m : Run)
  | counts (m : NameMap Nat)
  | runs (rs : List Run)
  /-- An iterator of a map, at the entry of a name or past all entries. -/
  | iterator (m : Run) (position : Option String)
  /-- An entry by value. -/
  | pair (name : String) (time : Micros)
  /-- A reference to the entry of a name in a map variable. -/
  | entry (map name : String)
  /-- A reference to the value of a name in a map variable. -/
  | slot (map name : String)

/-- The variables with their values, those of the innermost block first. -/
abbrev Scope := List (String × Value)

namespace Scope

/-- The value of a variable. -/
def get? (s : Scope) (x : String) : Option Value := NameMap.lookup x s

/-- The variables after one has got another value. -/
def set (x : String) (v : Value) : Scope → Scope
  | [] => []
  | (y, old) :: rest => if y = x then (y, v) :: rest else (y, old) :: set x v rest

/-- The variables with a new one.  A name that is taken is not declared again. -/
def declare (s : Scope) (x : String) (v : Value) : Option Scope :=
  if (s.get? x).isSome then none else some ((x, v) :: s)

/-- A value that is no reference: what a reference refers to, and otherwise the
value itself. -/
def read (s : Scope) : Value → Option Value
  | .slot x name =>
    match s.get? x with
    | some (.times m) => (m.get? name).map .number
    | some (.counts m) => (m.get? name).map .size
    | _ => none
  | v => some v

/-- The variables after an assignment to what a reference refers to. -/
def assign (s : Scope) : Value → Value → Option Scope
  | .slot x name, v =>
    match s.get? x, v with
    | some (.times m), .number time => some (s.set x (.times (m.insert name time)))
    | some (.counts m), .size n => some (s.set x (.counts (m.insert name n)))
    | _, _ => none
  | _, _ => none

/-- The element of a container: the run at an index, or a reference to the value of
a name, which is entered with zero if it is missing. -/
def element (s : Scope) (x : String) (key : Value) : Option (Value × Scope) :=
  match s.get? x, key with
  | some (.runs rs), .size i => rs[i]?.map fun run => (.times run, s)
  | some (.times m), .text name =>
    some (.slot x name, s.set x (.times (m.alter name fun old => old.getD .zero)))
  | some (.counts m), .text name =>
    some (.slot x name, s.set x (.counts (m.alter name fun old => old.getD 0)))
  | _, _ => none

end Scope

/-! ## Expressions -/

/-- The quotient of two times; an undefined time stays undefined. -/
def Micros.quotient : Micros → Micros → Micros
  | undefined, _ => undefined
  | number x, y => number (x / y.toFloat)

namespace Value

def first : Value → Option Value
  | .entry _ name => some (.text name)
  | .pair name _ => some (.text name)
  | _ => none

def second : Value → Option Value
  | .entry map name => some (.slot map name)
  | .pair _ time => some (.number time)
  | _ => none

/-- The entry at an iterator. -/
def pointee : Value → Option Value
  | .iterator m (some name) => (m.get? name).map (.pair name)
  | _ => none

/-- The number of elements of a container. -/
def length? : Value → Option Nat
  | .runs rs => some rs.length
  | .times m => some m.entries.length
  | .counts m => some m.entries.length
  | _ => none

def past : Value → Option Value
  | .times m => some (.iterator m none)
  | _ => none

def find : Value → Value → Option Value
  | .times m, .text name => some (.iterator m ((m.get? name).map fun _ => name))
  | _, _ => none

def toDouble : Value → Option Value
  | .size n => some (.number (.ofNat n))
  | _ => none

/-- Whether two iterators of one map stand at different places. -/
def unequal : Value → Value → Option Value
  | .iterator m p, .iterator n q => if m = n then some (.truth (p ≠ q)) else none
  | _, _ => none

def plus : Value → Value → Option Value
  | .number x, .number y => some (.number (x.add y))
  | .size a, .size b => some (.size (a + b))
  | _, _ => none

def quotient : Value → Value → Option Value
  | .number x, .number y => some (.number (x.quotient y))
  | _, _ => none

end Value

/-- The value of an expression, and the variables after its evaluation. -/
def CodeExpr.eval : CodeExpr → Scope → Option (Value × Scope)
  | .name x, s => (s.get? x).map fun v => (v, s)
  | .numeral n, s => some (.size n, s)
  | .element x key, s => do
    let (k, s) ← key.eval s
    s.element x (← s.read k)
  | .first e, s => do
    let (v, s) ← e.eval s
    return (← v.first, s)
  | .second e, s => do
    let (v, s) ← e.eval s
    return (← v.second, s)
  | .pointee e, s => do
    let (v, s) ← e.eval s
    return (← v.pointee, s)
  | .size e, s => do
    let (v, s) ← e.eval s
    return (.size (← v.length?), s)
  | .isEmpty e, s => do
    let (v, s) ← e.eval s
    return (.truth ((← v.length?) = 0), s)
  | .past e, s => do
    let (v, s) ← e.eval s
    return (← v.past, s)
  | .find e key, s => do
    let (v, s) ← e.eval s
    let (k, s) ← key.eval s
    return (← v.find (← s.read k), s)
  | .toDouble e, s => do
    let (v, s) ← e.eval s
    return (← (← s.read v).toDouble, s)
  | .unequal a b, s => do
    let (v, s) ← a.eval s
    let (w, s) ← b.eval s
    return (← v.unequal w, s)

/-- The variables after the value of a target has been changed by that of an
expression, which is evaluated first. -/
def Scope.update (s : Scope) (f : Value → Value → Option Value) (target e : CodeExpr) :
    Option Scope := do
  let (v, s) ← e.eval s
  let v ← s.read v
  let (place, s) ← target.eval s
  s.assign place (← f (← s.read place) v)

/-! ## Statements -/

/-- An order in which a map may be walked. -/
structure Order where
  arrange : List String → List String
  perm : ∀ names, (arrange names).Perm names

/-- The orders in which maps are walked, one for each time that a loop is
entered. -/
abbrev Orders := Nat → Order

/-- The state of an execution: the variables, and how many walks over maps were
begun. -/
structure State where
  scope : Scope
  walks : Nat := 0

/-- How a statement ends: the next one follows, or the function returns a value. -/
inductive Flow where
  | next (s : State)
  | answered (v : Value)

/-- A flow with more statements behind it. -/
def Flow.andThen (f : State → Option Flow) : Flow → Option Flow
  | .next s => f s
  | .answered v => some (.answered v)

def MapType.empty : MapType → Value
  | .times => .times .empty
  | .counts => .counts .empty

/-- Whether a variable of a type may hold a value. -/
def MapType.holds : MapType → Value → Bool
  | .times, .times _ => true
  | .counts, .counts _ => true
  | _, _ => false

/-- What a line does. -/
def Phrase.exec (s : State) : Phrase → Option Flow
  | .lock => some (.next s)
  | .declare type x => do
    return .next { s with scope := ← s.scope.declare x type.empty }
  | .define type x e => do
    let (v, scope) ← e.eval s.scope
    let v ← scope.read v
    if type.all (·.holds v) then return .next { s with scope := ← scope.declare x v } else none
  | .add target e => do
    return .next { s with scope := ← s.scope.update Value.plus target e }
  | .divide target e => do
    return .next { s with scope := ← s.scope.update Value.quotient target e }
  | .answerEmpty => some (.answered (.times .empty))
  | .answer e => do
    let (v, scope) ← e.eval s.scope
    return .answered (← scope.read v)

/-- A block with some variables of its own, which end with it. -/
def within (body : State → Option Flow) (s : State) (scope : Scope) : Option Flow := do
  match ← body { s with scope } with
  | .next t => return .next { t with scope := t.scope.drop (t.scope.length - s.scope.length) }
  | .answered v => return .answered v

/-- A loop over the values of a variable. -/
def forEach (x : String) (body : State → Option Flow) : List Value → State → Option Flow
  | [], s => some (.next s)
  | v :: rest, s => do
    (← within body s (← s.scope.declare x v)).andThen (forEach x body rest)

/-- A body that is only executed as long as it leaves the names of a map variable
as they are. -/
def keepingNames (map : String) (names : List String) (body : State → Option Flow) (s : State) :
    Option Flow := do
  (← body s).andThen fun t =>
    match t.scope.get? map with
    | some (.times m) => if m.names = names then some (.next t) else none
    | _ => none

/-- What a block does. -/
def Header.exec (orders : Orders) (body : State → Option Flow) (s : State) : Header → Option Flow
  | .branch condition => do
    match ← condition.eval s.scope with
    | (.truth true, scope) => within body { s with scope } scope
    | (.truth false, scope) => return .next { s with scope }
    | _ => none
  | .each constant x container =>
    match s.scope.get? container with
    | some (.runs rs) => if constant then forEach x body (rs.map .times) s else none
    | some (.times m) =>
      forEach x (keepingNames container m.names body)
        (((orders s.walks).arrange m.names).map (.entry container)) { s with walks := s.walks + 1 }
    | _ => none
  | .count x start container =>
    match s.scope.get? container with
    | some (.runs rs) => forEach x body ((List.range' start (rs.length - start)).map .size) s
    | _ => none

mutual

/-- What a statement does. -/
def Stmt.exec (orders : Orders) : Stmt → State → Option Flow
  | .line text, s => (readPhrase text).bind fun phrase => phrase.exec s
  | .comment _, s => some (.next s)
  | .blank, s => some (.next s)
  | .block header body, s =>
    (readHeader header).bind fun h => h.exec orders (Stmt.execAll orders body) s
  | _, _ => none

/-- What statements do, one after the other. -/
def Stmt.execAll (orders : Orders) : List Stmt → State → Option Flow
  | [], s => some (.next s)
  | stmt :: rest, s => (Stmt.exec orders stmt s).bind (Flow.andThen (Stmt.execAll orders rest))

end

/-- What a function without parameters returns that gives times by name, if the
history holds some runs. -/
def Function.answer? (f : Function) (orders : Orders) (runs : List Run) : Option Run :=
  if f.params = [] ∧ f.returns = resultTypeName then
    match Stmt.execAll orders f.body { scope := [(historyName, .runs runs)] } with
    | some (.answered (.times m)) => some m
    | _ => none
  else none

end Chronograph
