import Signum.Failure
import Signum.Run.Input
import Signum.Run.Store
import Signum.Syntax.Tree
/- Running a program on numbers.

   Integers are words of 64 bits whose arithmetic wraps around, division goes
   toward zero, and division by zero of either type stops the run. Logical
   operators skip a right part that cannot matter. A loop is followed for a given
   number of rounds; a run that needs more is reported as unfinished. -/
namespace Signum.Run

/-- A program that makes no sense when it runs. -/
inductive Fault where
  | redeclared (name : Bytes) (span : Span)
  | mismatched (span : Span)
  deriving DecidableEq, Repr

/-- How a fault is worded. -/
def Fault.message : Fault → Bytes
  | .redeclared name span => "concrete: " ++ name ++ " redeclared at " ++ span.text
  | .mismatched span => "concrete: mismatched operands at " ++ span.text

/-- Why a run stopped. -/
inductive Halt where
  | failed (kind : ErrorKind) (span : Span)
  | fault (f : Fault)
  | unfinished
  deriving DecidableEq, Repr

/-- The state of a run: the variables, the input that is left, and what was
printed. -/
structure State where
  store : Store
  input : Input
  printed : Array Value

/-- What was printed, one line for each value. -/
def State.output (s : State) : Bytes :=
  s.printed.toList.flatMap fun v => v.text ++ [Bytes.newline]

/-- The state at the start, with some input. -/
def State.start (input : Input) : State := ⟨Store.fresh, input, #[]⟩

/-- A step of a run. -/
abbrev M := ExceptT Halt (StateM State)

/-- Stops for a failure of the program. -/
def fail {α : Type} (kind : ErrorKind) (span : Span) : M α := throw (.failed kind span)

/-- An operator on integers, unless it divides by zero. -/
def applyInt? : BinaryOp → Int64 → Int64 → Option Int64
  | .add, a, b => some (a + b)
  | .sub, a, b => some (a - b)
  | .mul, a, b => some (a * b)
  | .div, a, b => if b = 0 then none else some (a / b)

/-- An operator on floats, unless it divides by zero. -/
def applyFloat? : BinaryOp → Binary64 → Binary64 → Option Binary64
  | .add, a, b => some (a.add b)
  | .sub, a, b => some (a.sub b)
  | .mul, a, b => some (a.mul b)
  | .div, a, b => if b.isZero then none else some (a.div b)

/-- An operator on values of one kind. -/
def arith (op : BinaryOp) (span : Span) (a b : Value) : M Value :=
  match a, b with
  | .int m, .int n =>
    match applyInt? op m n with
    | some r => pure (.int r)
    | none => fail .divisionByZero span
  | .float x, .float y =>
    match applyFloat? op x y with
    | some r => pure (.float r)
    | none => fail .divisionByZero span
  | _, _ => throw (.fault (.mismatched span))

/-- A comparison of integers. -/
def compareInt : CompareOp → Int64 → Int64 → Bool
  | .eq, a, b => a = b
  | .ne, a, b => a ≠ b
  | .lt, a, b => a < b
  | .gt, a, b => b < a
  | .le, a, b => a ≤ b
  | .ge, a, b => b ≤ a

/-- A comparison of floats. -/
def compareFloat : CompareOp → Binary64 → Binary64 → Bool
  | .eq, a, b => a.eq b
  | .ne, a, b => !a.eq b
  | .lt, a, b => a.lt b
  | .gt, a, b => b.lt a
  | .le, a, b => a.le b
  | .ge, a, b => b.le a

/-- A comparison; the kind of the left value decides how both are taken. -/
def compare (op : CompareOp) (a b : Value) : Bool :=
  match a with
  | .float x => compareFloat op x b.asFloat
  | _ => compareInt op a.asInt b.asInt

/-- A value with the other sign. -/
def negate : Value → Value
  | .int i => .int (-i)
  | .float f => .float f.neg
  | .bool b => .bool b

/-- Takes a value from the input. -/
def take {α : Type} (read : Input → Option α × Input) (span : Span) : M α := do
  let (v, input) := read (← get).input
  modify fun s => { s with input }
  match v with
  | some a => pure a
  | none => fail .failedRead span

/-- The value of an expression. -/
def expr : Expr → M Value
  | .int v _ => pure (.int v)
  | .float v _ _ => pure (.float v)
  | .readInt s => do pure (.int (← take Input.readInt s))
  | .readFloat s => do pure (.float (← take Input.readFloat s))
  | .var name s => do
    match (← get).store.lookup? name with
    | some v => pure v
    | none => fail .uninitialized s
  | .neg e _ => do pure (negate (← expr e))
  | .binary op l r s => do
    let a ← expr l
    let b ← expr r
    arith op s a b

/-- Whether a condition holds. -/
def cond : Cond → M Bool
  | .compare op l r _ => do
    let a ← expr l
    let b ← expr r
    pure (compare op a b)
  | .logical .and l r _ => do
    if ← cond l then cond r else pure false
  | .logical .or l r _ => do
    if ← cond l then pure true else cond r
  | .not c _ => do pure !(← cond c)

/-- Runs in a scope of its own, which is closed again whatever happens. -/
def within (run : M Unit) : M Unit :=
  ExceptT.mk do
    modify fun s => { s with store := s.store.enter }
    let result ← ExceptT.run run
    modify fun s => { s with store := s.store.exit.2 }
    pure result

/-- Repeats a step that tells whether to go on, at most `fuel` times. -/
def repeatWhile (step : M Bool) : (fuel : Nat) → State → Except Halt Unit × State
  | 0, s => (.error .unfinished, s)
  | fuel + 1, s =>
    match (ExceptT.run step).run s with
    | (.ok true, s') => repeatWhile step fuel s'
    | (.ok false, s') => (.ok (), s')
    | (.error h, s') => (.error h, s')

/-- Runs a declaration; the initializer is looked at before the variable is
declared. -/
def decl (d : Decl) : M Unit := do
  let init ← match d.init with
    | some e => do pure (some (← expr e))
    | none => pure none
  let (isNew, store) := (← get).store.declare d.name
  if !isNew then throw (.fault (.redeclared d.name d.span))
  let store := match init with
    | some v => (store.bind? d.name v).getD store
    | none => store
  modify fun s => { s with store }

mutual

/-- Runs a statement, following each loop for at most `fuel` rounds. -/
def stmt (fuel : Nat) : Stmt → M Unit
  | .assign name value s => do
    let v ← expr value
    match (← get).store.bind? name v with
    | some store => modify fun st => { st with store }
    | none => fail .uninitialized s
  | .print value _ => do
    let v ← expr value
    modify fun st => { st with printed := st.printed.push v }
  | .block body _ => within (items fuel body)
  | .ite c yes none _ => do
    if ← cond c then stmt fuel yes
  | .ite c yes (some no) _ => do
    if ← cond c then stmt fuel yes else stmt fuel no
  | .loop c body _ =>
    let step : M Bool := do
      if ← cond c then
        stmt fuel body
        pure true
      else pure false
    ExceptT.mk fun s => repeatWhile step fuel s

/-- Runs a unit. -/
def item (fuel : Nat) : Item → M Unit
  | .decl d => decl d
  | .stmt s => stmt fuel s

/-- Runs units in order, up to the first that fails. -/
def items (fuel : Nat) : List Item → M Unit
  | [] => pure ()
  | u :: rest => do
    item fuel u
    items fuel rest

end

/-- Runs a step from a state. -/
def runFrom (s : State) (m : M Unit) : Except Halt Unit × State := (ExceptT.run m).run s

/-- Runs a program on some input. -/
def run (fuel : Nat) (p : Program) (input : Input) : Except Halt Unit × State :=
  runFrom (State.start input) (items fuel p.units)

/-- What one unit of a program did: how it ended, what it printed, and the state
after it. -/
structure UnitRun where
  result : Except Halt Unit
  output : Bytes
  state : State

/-- Runs units one by one, up to the first that does not succeed. -/
def runEach (fuel : Nat) : State → List Item → List UnitRun
  | _, [] => []
  | s, u :: rest =>
    let (result, s') := runFrom { s with printed := #[] } (item fuel u)
    let here : UnitRun := ⟨result, s'.output, s'⟩
    match result with
    | .ok () => here :: runEach fuel s' rest
    | .error _ => [here]

/-- The names declared anywhere in a program, each at its first occurrence, with
the values their variables have in a store. -/
def valuesIn (names : List Bytes) (s : Store) : List (Bytes × Option Value) :=
  names.eraseDups.map fun n => (n, s.lookup? n)

end Signum.Run
