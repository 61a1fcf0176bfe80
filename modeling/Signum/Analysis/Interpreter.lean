import Signum.Analysis.Environment
import Signum.Failure
import Signum.Sign.Operators
import Signum.Syntax.Tree
/- Running a program over the sign domain, covering every run at once.

   Conditions never prune: both branches of an `if` run on forks of the
   environment and their results are joined, and the body of a loop runs again
   on a fork until its result adds nothing to the state at the loop's head. The
   verdict of a condition is only observed. Every round of a loop that goes on
   raises some bound variable to the top of its domain, so the rounds are bounded
   by the number of variables that can still rise. A quotient whose divisor may
   be zero stops the analysis. -/
namespace Signum.Analysis

/-- Settings of an analysis. -/
structure Config where
  /-- The most rounds any one loop may take; no limit unless positive. -/
  maxIterations : Int
  /-- Whether a read expression yields one value for the whole analysis. -/
  memoizeReads : Bool
  deriving DecidableEq, Repr

/-- What an analysis reports as it goes, with the place of the statement. -/
inductive Event where
  | branch (span : Span) (cond : Cond) (verdict : Atom)
  | round (span : Span) (cond : Cond) (number : Nat) (verdict : Atom) (stable : Bool)
  | print (span : Span) (value : Expr) (atom : Atom)
  deriving DecidableEq, Repr

/-- A program that makes no sense to the analysis, or a loop that takes too long. -/
inductive Fault where
  | redeclared (name : Bytes) (span : Span)
  | unsettled (span : Span) (rounds : Int)
  | environment (fault : EnvironmentFault)
  | sign (fault : SignFault)
  deriving DecidableEq, Repr

/-- How a fault is worded. -/
def Fault.message : Fault → Bytes
  | .redeclared name span => "abstract: " ++ name ++ " redeclared at " ++ span.text
  | .unsettled span rounds =>
    "abstract: loop at " ++ span.text ++ " did not stabilize in " ++ Bytes.ofInt rounds ++ " rounds"
  | .environment fault => fault.message
  | .sign fault => fault.message

/-- Why an analysis stopped: a failure of the program, or a fault. -/
inductive Halt where
  | failed (kind : ErrorKind) (span : Span)
  | fault (f : Fault)
  deriving DecidableEq, Repr

/-- The state of an analysis: the environment, the values given to reads, and
what was printed and reported. -/
structure State where
  env : Environment
  reads : List ((NumType × Span) × Atom)
  printed : Array Atom
  trace : Array Event

/-- The state at the start. -/
def State.start : State := ⟨Environment.fresh, [], #[], #[]⟩

/-- What was printed, one line for each atom. -/
def State.output (s : State) : Bytes :=
  s.printed.toList.flatMap fun a => a.name ++ [Bytes.newline]

/-- A step of an analysis. -/
abbrev M := ExceptT Halt (StateM State)

/-- Stops for a failure of the program. -/
def fail {α : Type} (kind : ErrorKind) (span : Span) : M α := throw (.failed kind span)

/-- Takes the result of a sign operation, whose fault stops the analysis. -/
def ofSign {α : Type} (r : Except SignFault α) : M α :=
  match r with
  | .ok a => pure a
  | .error f => throw (.fault (.sign f))

/-- Reports an event. -/
def report (e : Event) : M Unit := modify fun s => { s with trace := s.trace.push e }

/-- Binds a variable. -/
def bind (name : Bytes) (value : Atom) : M Unit := do
  match (← get).env.bind name value with
  | .ok env => modify fun s => { s with env }
  | .error f => throw (.fault (.environment f))

/-- The domain of the values of a type. -/
def domainOf : NumType → Domain
  | .int => .int
  | .float => .float

/-- The atom that says nothing of a value of the type. -/
def topOf : NumType → Atom
  | .int => .int .any
  | .float => .float .any

/-- The value of a read expression, which can be anything of its type. -/
def read (config : Config) (t : NumType) (span : Span) : M Atom := do
  if !config.memoizeReads then pure (topOf t)
  else match (← get).reads.lookup (t, span) with
    | some v => pure v
    | none =>
      modify fun s => { s with reads := ((t, span), topOf t) :: s.reads }
      pure (topOf t)

/-- The operator on atoms. -/
def binary : BinaryOp → Atom → Atom → Except SignFault Atom
  | .add => Atom.add
  | .sub => Atom.sub
  | .mul => Atom.mul
  | .div => Atom.div

/-- The comparison on atoms. -/
def compare : CompareOp → Atom → Atom → Except SignFault Atom
  | .eq => Atom.eq
  | .ne => Atom.ne
  | .lt => Atom.lt
  | .gt => Atom.gt
  | .le => Atom.le
  | .ge => Atom.ge

/-- The logical operator on atoms. -/
def logical : LogicalOp → Atom → Atom → Except SignFault Atom
  | .and => Atom.and
  | .or => Atom.or

/-- The atom of an expression. -/
def expr (config : Config) : Expr → M Atom
  | .int v _ => pure (Atom.ofInt v.toInt)
  | .float v _ _ => pure (Atom.ofFloat v)
  | .readInt s => read config .int s
  | .readFloat s => read config .float s
  | .var name s => do
    match (← get).env.lookup? name with
    | some v => pure v
    | none => fail .uninitialized s
  | .neg e _ => do
    let a ← expr config e
    ofSign a.neg
  | .binary op l r s => do
    let a ← expr config l
    let b ← expr config r
    let v ← ofSign (binary op a b)
    if v = Atom.illegal then fail .divisionByZero s else pure v

/-- The verdict of a condition; both parts are looked at. -/
def cond (config : Config) : Cond → M Atom
  | .compare op l r _ => do
    let a ← expr config l
    let b ← expr config r
    ofSign (compare op a b)
  | .logical op l r _ => do
    let a ← cond config l
    let b ← cond config r
    ofSign (logical op a b)
  | .not c _ => do
    let a ← cond config c
    ofSign a.not

/-- Runs in a scope of its own, which is closed again whatever happens. -/
def within (run : M Unit) : M Unit :=
  ExceptT.mk do
    modify fun s => { s with env := s.env.enter }
    let result ← ExceptT.run run
    modify fun s => { s with env := s.env.exit.2 }
    pure result

/-- Runs on a fork of the environment, goes back to the state before it and hands
back the fork. -/
def branch (run : M Unit) : M Environment :=
  ExceptT.mk do
    modify fun s => { s with env := s.env.fork }
    let result ← ExceptT.run run
    match result, (← get).env.restore with
    | .error (.fault f), _ => pure (.error (.fault f))
    | _, .error f => pure (.error (.fault (.environment f)))
    | result, .ok (env, fork) =>
      modify fun s => { s with env }
      pure (result.map fun _ => fork)

/-- Merges an environment into the present one and tells whether it changed. -/
def joinIn (other : Environment) : M Bool := do
  let (changed, env) := (← get).env.join other
  modify fun s => { s with env }
  ofSign changed

/-- The most rounds a loop entered with this environment takes: as many as there
are variables that can still rise and one more, or the limit set if that is less. -/
def roundLimit (config : Config) (env : Environment) : Nat :=
  if 0 < config.maxIterations then min config.maxIterations.toNat (env.slack + 1)
  else env.slack + 1

/-- Runs a loop, given how many rounds are left and the number of the next one. -/
def rounds (config : Config) (span : Span) (c : Cond) (body : M Unit) :
    (left : Nat) → (number : Nat) → M Unit
  | 0, _ => throw (.fault (.unsettled span config.maxIterations))
  | left + 1, number => do
    let verdict ← cond config c
    let after ← branch body
    let stable ←
      if (← get).env.identical after then pure true
      else do pure !(← joinIn after)
    report (.round span c number verdict stable)
    if stable then pure () else rounds config span c body left (number + 1)

/-- Runs a declaration; the variable is declared before its initializer is looked
at. -/
def decl (config : Config) (d : Decl) : M Unit := do
  let (isNew, env) := (← get).env.declare d.name (domainOf d.type)
  if !isNew then throw (.fault (.redeclared d.name d.span))
  modify fun s => { s with env }
  match d.init with
  | some e =>
    let v ← expr config e
    bind d.name v
  | none => pure ()

mutual

/-- Runs a statement. -/
def stmt (config : Config) : Stmt → M Unit
  | .assign name value _ => do
    let v ← expr config value
    bind name v
  | .print value s => do
    let v ← expr config value
    report (.print s value v)
    modify fun st => { st with printed := st.printed.push v }
  | .block body _ => within (items config body)
  | .ite c yes none s => do
    let verdict ← cond config c
    report (.branch s c verdict)
    let inYes ← branch (stmt config yes)
    let _ ← joinIn inYes
  | .ite c yes (some no) s => do
    let verdict ← cond config c
    report (.branch s c verdict)
    let inYes ← branch (stmt config yes)
    let inNo ← branch (stmt config no)
    let (changed, joined) := inYes.join inNo
    let _ ← ofSign changed
    modify fun st => { st with env := { st.env with scopes := joined.scopes } }
  | .loop c body s => do
    let limit := roundLimit config (← get).env
    rounds config s c (stmt config body) limit 1

/-- Runs a unit. -/
def item (config : Config) : Item → M Unit
  | .decl d => decl config d
  | .stmt s => stmt config s

/-- Runs units in order, up to the first that fails. -/
def items (config : Config) : List Item → M Unit
  | [] => pure ()
  | u :: rest => do
    item config u
    items config rest

end

/-- Runs a step from a state. -/
def runFrom (s : State) (m : M Unit) : Except Halt Unit × State := (ExceptT.run m).run s

/-- Analyses a program. -/
def run (config : Config) (p : Program) : Except Halt Unit × State :=
  runFrom State.start (items config p.units)

/-- What one unit of a program did: how it ended, what it printed, and the state
after it. -/
structure UnitRun where
  result : Except Halt Unit
  output : Bytes
  state : State

/-- Analyses units one by one, up to the first that does not succeed. -/
def runEach (config : Config) : State → List Item → List UnitRun
  | _, [] => []
  | s, u :: rest =>
    let (result, s') := runFrom { s with printed := #[] } (item config u)
    let here : UnitRun := ⟨result, s'.output, s'⟩
    match result with
    | .ok () => here :: runEach config s' rest
    | .error _ => [here]

end Signum.Analysis
