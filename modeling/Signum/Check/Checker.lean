import Signum.Check.Scopes
import Signum.Failure
import Signum.Syntax.Walk
/- Checking a program before it runs.

   A program is accepted when no scope declares a name twice, every name read or
   assigned is declared, types agree, and every variable is assigned before it is
   read on all paths. The first problem in the order of the program is reported.
   The checker records every variable and the type of every expression it has
   accepted, also when it fails later.

   Assignment is followed by a set of variables. A branch works on a copy: after
   an `if` with both branches, what both assign is assigned; what a single branch
   or the body of a loop assigns is not kept. -/
namespace Signum

/-- What a checker knows and has recorded. -/
structure Context where
  scopes : Scopes
  /-- Every declaration seen, in order. -/
  «variables» : Array Variable
  /-- The type of every accepted expression. -/
  types : Array (Expr × NumType)
  /-- The numbers of the variables assigned on every path to here. -/
  assigned : List Nat

namespace Context

/-- What a checker knows at the start. -/
def start : Context := ⟨Scopes.prelude, #[], #[], []⟩

/-- The type recorded for an expression. -/
def typeOf? (c : Context) (e : Expr) : Option NumType :=
  (c.types.find? (·.1 = e)).map Prod.snd

end Context

/-- A check: it changes what is known and may find a problem. -/
abbrev CheckM := ExceptT Failure (StateM Context)

namespace Check

/-- Reports a problem. -/
def fail {α : Type} (kind : ErrorKind) (span : Span) (message : Bytes) : CheckM α :=
  throw ⟨kind, span, message⟩

/-- Runs a check inside a scope of its own. -/
def within {α : Type} (check : CheckM α) : CheckM α :=
  ExceptT.mk do
    modify fun c => { c with scopes := c.scopes.push }
    let result ← check.run
    modify fun c => { c with scopes := c.scopes.pop }
    pure result

/-- Runs a check on a copy of what is assigned, and returns what it assigns. -/
def branch (check : CheckM Unit) : CheckM (List Nat) :=
  ExceptT.mk do
    let saved := (← get).assigned
    let result ← check.run
    let assigned := (← get).assigned
    modify fun c => { c with assigned := saved }
    pure (result.map fun _ => assigned)

/-- Counts a variable as assigned. -/
def assign (v : Variable) : CheckM Unit :=
  modify fun c => { c with assigned := c.assigned.insert v.number }

/-- The variable of that name that is in sight. -/
def lookup (name : Bytes) (span : Span) : CheckM Variable := do
  match (← get).scopes.search? name with
  | some (.variable v) => pure v
  | _ => fail .uninitialized span (name ++ " is not declared")

/-- Records the type of an expression. -/
def record (e : Expr) (t : NumType) : CheckM NumType := do
  modify fun c => { c with types := c.types.push (e, t) }
  pure t

/-- Requires two operands of one type. -/
def sameType (l r : NumType) (op : Bytes) (span : Span) : CheckM Unit :=
  if l = r then pure ()
  else fail .staticCheck span ("mismatched operands " ++ l.name ++ " " ++ op ++ " " ++ r.name)

/-- The type of an expression. -/
def expr : Expr → CheckM NumType
  | .int v s => record (.int v s) .int
  | .float v t s => record (.float v t s) .float
  | .readInt s => record (.readInt s) .int
  | .readFloat s => record (.readFloat s) .float
  | .var name s => do
    let v ← lookup name s
    if (← get).assigned.contains v.number then record (.var name s) v.type
    else fail .uninitialized s (name ++ " may be read before it is assigned")
  | .neg e s => do
    let t ← expr e
    record (.neg e s) t
  | .binary op l r s => do
    let t ← expr l
    let u ← expr r
    sameType t u op.symbol s
    record (.binary op l r s) t

/-- Checks a condition. -/
def cond : Cond → CheckM Unit
  | .compare op l r s => do
    let t ← expr l
    let u ← expr r
    sameType t u op.symbol s
  | .logical _ l r _ => do
    cond l
    cond r
  | .not c _ => cond c

/-- Checks a declaration; the initializer does not see the variable. -/
def decl (d : Decl) : CheckM Unit := do
  let c ← get
  if c.scopes.declaredHere d.name then
    fail .staticCheck d.span (d.name ++ " is already declared in this scope")
  match d.init with
  | some e =>
    let t ← expr e
    if t ≠ d.type then
      fail .staticCheck e.span
        ("cannot initialize " ++ d.type.name ++ " " ++ d.name ++ " with " ++ t.name)
  | none => pure ()
  let v : Variable :=
    { name := d.name, type := d.type, span := d.span, depth := c.scopes.depth,
      number := c.variables.size }
  modify fun c => { c with
    scopes := c.scopes.add d.name (.variable v), «variables» := c.variables.push v }
  if d.init.isSome then assign v

mutual

/-- Checks a statement. -/
def stmt : Stmt → CheckM Unit
  | .assign name value s => do
    let v ← lookup name s
    let t ← expr value
    if t ≠ v.type then
      fail .staticCheck value.span
        ("cannot assign " ++ t.name ++ " to " ++ v.type.name ++ " " ++ name)
    assign v
  | .print value _ => do
    let _ ← expr value
  | .block body _ => within (items body)
  | .ite c yes none _ => do
    cond c
    let _ ← branch (stmt yes)
  | .ite c yes (some no) _ => do
    cond c
    let inYes ← branch (stmt yes)
    let inNo ← branch (stmt no)
    modify fun c => { c with
      assigned := (inYes.filter inNo.contains).foldr List.insert c.assigned }
  | .loop c body _ => do
    cond c
    let _ ← branch (stmt body)

/-- Checks a unit. -/
def item : Item → CheckM Unit
  | .decl d => decl d
  | .stmt s => stmt s

/-- Checks units in order. -/
def items : List Item → CheckM Unit
  | [] => pure ()
  | u :: rest => do
    item u
    items rest

end

end Check

/-- Checks a program, and returns what was recorded. -/
def Program.check (p : Program) : Except Failure Unit × Context :=
  (Check.within (Check.items p.units)).run.run Context.start

/-- The recorded types of a program's expressions, each before its parts. -/
def Program.typesIn (p : Program) (c : Context) : List (Expr × NumType) :=
  p.expressions.filterMap fun e => (c.typeOf? e).map fun t => (e, t)

end Signum
