import Signum.Proofs.Analysis.Operations
import Signum.Proofs.Analysis.UpperBounds
import Mathlib.Data.List.AList
/- Environments as tables.

   A scope can be stored in two parts that have to be kept in step: the names in the order they were
   declared, and for each name its slot (`Table`). What goes through all variables goes through the
   names and looks each one up, and stops where a name has no slot (`Panic.noSlot`); what is done to
   the innermost scope stops when there is none. The scopes stand here from the outermost one
   inward, so that a depth is a place in the list. An operation works on the tables in place, and
   when it stops, what it had done by then stays. -/
namespace Signum

/-- A scope in two parts. -/
structure Table where
  names : List Bytes
  slots : AList fun _ : Bytes => Slot
  deriving DecidableEq

namespace Table

def empty : Table := ⟨[], ∅⟩

/-- A copy of a table, with every slot copied. -/
def clone (t : Table) : Table :=
  ⟨t.names, t.slots.entries.foldl (fun slots p => slots.insert p.1 p.2) ∅⟩

/-- Puts a slot for a name into a table. -/
def put (name : Bytes) (slot : Slot) (t : Table) : Table :=
  { t with slots := t.slots.insert name slot }

end Table

/-- Scopes, outermost first, and the scopes set aside by forks, the latest last. -/
structure Tables where
  scopes : List Table
  stashed : List (List Table)
  deriving DecidableEq

/-- Why an operation stops: for a reason of its own, or because what it needs is not there. -/
inductive Panic where
  | refused (fault : EnvironmentFault)
  | noSlot (name : Bytes)
  | noScope
  deriving DecidableEq, Repr

namespace Tables

/-- Work on tables. -/
abbrev Work (α : Type) := ExceptT Panic (StateM Tables) α

def fresh : Tables := ⟨[.empty], []⟩

/-- The slot of a name at a depth, if there are any. -/
def slotAt (e : Tables) (depth : Nat) (name : Bytes) : Option Slot :=
  e.scopes[depth]?.bind (·.slots.lookup name)

/-- Every name, outermost scope first, with its depth. -/
def places (e : Tables) : List (Nat × Bytes) :=
  e.scopes.zipIdx.flatMap fun (t, depth) => t.names.map fun name => (depth, name)

/-- The slot of a name at a depth, where there has to be one. -/
def slot (depth : Nat) (name : Bytes) : Work Slot := do
  match (← get).slotAt depth name with
  | some slot => pure slot
  | none => throw (.noSlot name)

/-- Changes the table at a depth. -/
def change (depth : Nat) (f : Table → Table) : Work Unit :=
  modify fun e => { e with scopes := e.scopes.modify depth f }

/-- Puts a slot for a name into the table at a depth. -/
def put (depth : Nat) (name : Bytes) (slot : Slot) : Work Unit :=
  change depth (.put name slot)

/-- The depth of the innermost scope. -/
def current : Work Nat := do
  let e ← get
  if e.scopes.isEmpty then throw .noScope
  return e.scopes.length - 1

def enter : Work Unit := modify fun e => { e with scopes := e.scopes ++ [.empty] }

/-- Closes the innermost scope, unless it is the only one. -/
def exit : Work Bool := do
  let e ← get
  if e.scopes.length ≤ 1 then return false
  set { e with scopes := e.scopes.dropLast }
  return true

/-- Adds an unbound variable to the innermost scope, unless the scope has one of that name: first
its name, then its slot. -/
def declare (name : Bytes) (domain : Domain) : Work Bool := do
  let depth ← current
  if ((← get).slotAt depth name).isSome then return false
  change depth fun t => { t with names := t.names ++ [name] }
  put depth name ⟨domain, none⟩
  return true

/-- The slot of the nearest variable of that name, with its depth. -/
def find? (name : Bytes) (scopes : List Table) : Option (Nat × Slot) :=
  scopes.zipIdx.reverse.findSome? fun (t, depth) =>
    (t.slots.lookup name).map fun slot => (depth, slot)

/-- Binds the nearest variable of that name, which must be of the value's domain. -/
def bind (name : Bytes) (value : Atom) : Work Unit := do
  match find? name (← get).scopes with
  | none => throw (.refused (.undeclared name))
  | some (depth, slot) =>
    if value.domain ≠ slot.domain then throw (.refused (.wrongDomain value slot.domain name))
    put depth name { slot with value := some value }

/-- The value of the innermost bound variable of that name. -/
def lookup (name : Bytes) : Work (Option Atom) := do
  return (← get).scopes.reverse.findSome? fun t => (t.slots.lookup name).bind (·.value)

/-- Sets the tables aside and goes on with copies of them. -/
def fork : Work Unit :=
  modify fun e => { scopes := e.scopes.map .clone, stashed := e.stashed ++ [e.scopes] }

/-- Returns to the tables set aside last, and hands the present ones over. -/
def restore : Work Tables := do
  let e ← get
  match e.stashed.getLast? with
  | none => throw (.refused .noFork)
  | some saved =>
    set ({ scopes := saved, stashed := e.stashed.dropLast } : Tables)
    return { scopes := e.scopes, stashed := [] }

/-- Merges what another environment has for a name at a depth, if both are bound; tells whether
this or an earlier merge changed something. -/
def mergeAt (other : Tables) (changed : Bool) (place : Nat × Bytes) : Work Bool := do
  let mine ← slot place.1 place.2
  match mine.value, (other.slotAt place.1 place.2).bind (·.value) with
  | some before, some theirs =>
    match before.merge theirs with
    | .error fault => throw (.refused (.sign fault))
    | .ok after =>
      if after = before then return changed
      put place.1 place.2 { mine with value := some after }
      return true
  | _, _ => return changed

/-- Merges another environment, name by name, and tells whether something changed. -/
def join (other : Tables) : Work Bool := do
  (← get).places.foldlM (mergeAt other) false

/-- Whether a name is unbound at a depth or bound to the same value in another environment, and all
was the same before it. -/
def sameAt (other : Tables) (same : Bool) (place : Nat × Bytes) : Work Bool := do
  let mine ← slot place.1 place.2
  match mine.value with
  | none => return same
  | some value =>
    if (other.slotAt place.1 place.2).bind (·.value) = some value then return same
    return false

/-- Whether every variable that is bound is bound in another environment to the same value. -/
def identical (other : Tables) : Work Bool := do
  (← get).places.foldlM (sameAt other) true

/-- The variable of a name at a depth. -/
def binding (place : Nat × Bytes) : Work Environment.Binding := do
  let mine ← slot place.1 place.2
  return { depth := place.1, name := place.2, domain := mine.domain, value := mine.value }

/-- Every variable, outermost scope first and in the order of declaration. -/
def snapshot : Work (List Environment.Binding) := do (← get).places.mapM binding

/-- A use of an environment as work on its tables. -/
def work : Environment.Use Tables → Work (Environment.Answer Tables)
  | .enter => do enter; return .done
  | .exit => return .told (← exit)
  | .declare name domain => return .told (← declare name domain)
  | .bind name value => do bind name value; return .done
  | .lookup name => return .found (← lookup name)
  | .fork => do fork; return .done
  | .restore => return .left (← restore)
  | .join other => return .told (← join other)
  | .identical other => return .told (← identical other)

/-- Environments kept as tables. -/
def keeping : Environment.Keeping Panic Tables := ⟨fresh, fun use e => (work use).run.run e⟩

end Tables
end Signum
