import Signum.Sign.Atom
/- The environment of an analysis: a stack of scopes, each mapping its variables
   to what is known of them.

   A variable is declared with a domain before it is bound to an atom; a
   declared but unbound variable is invisible to `lookup?`, `join` and
   `identical`. `fork` sets the present state aside and goes on with a copy;
   `restore` returns to the state set aside last and hands back the copy. `join`
   merges the bindings of another environment into this one, scope by scope and
   variable by variable from the outermost scope inward. -/
namespace Signum

/-- What a scope holds for one variable. -/
structure Slot where
  domain : Domain
  value : Option Atom
  deriving DecidableEq, Repr

/-- The variables of one scope, in the order they were declared. -/
abbrev Scope := List (Bytes × Slot)

/-- A use of an environment that has no meaning. -/
inductive EnvironmentFault where
  | undeclared (name : Bytes)
  | wrongDomain (value : Atom) (domain : Domain) (name : Bytes)
  | noFork
  | sign (fault : SignFault)
  deriving DecidableEq, Repr

/-- How a fault of an environment is worded. -/
def EnvironmentFault.message : EnvironmentFault → Bytes
  | .undeclared name => "abstract: bind of undeclared variable " ++ name
  | .wrongDomain value domain name =>
    "abstract: cannot bind " ++ value.name ++ " to " ++ domain.name ++ " variable " ++ name
  | .noFork => "abstract: restore without fork"
  | .sign fault => fault.message

/-- A stack of scopes, innermost first, and the stacks set aside by forks, the
latest first. -/
structure Environment where
  scopes : List Scope
  stashed : List (List Scope)
  deriving DecidableEq, Repr

namespace Scope

/-- Binds the variable `name` of the scope. -/
def set (name : Bytes) (value : Atom) (s : Scope) : Scope :=
  s.map fun (n, slot) => if n = name then (n, { slot with value := some value }) else (n, slot)

end Scope

namespace Slot

/-- Merges the value of `theirs` into a slot, when both are bound. -/
def join (mine : Slot) (theirs : Option Slot) : Except SignFault Slot :=
  match mine.value, theirs.bind (·.value) with
  | some a, some b => (a.merge b).map fun v => { mine with value := some v }
  | _, _ => .ok mine

/-- Whether a slot is unbound or bound in `theirs` to the same value. -/
def agrees (mine : Slot) (theirs : Option Slot) : Bool :=
  mine.value = none || theirs.bind (·.value) = mine.value

/-- Whether a slot is bound to an atom that can still rise. -/
def canRise (slot : Slot) : Bool := slot.value.any (!·.isTop)

end Slot

namespace Environment

/-- An environment with one empty scope. -/
def fresh : Environment := { scopes := [[]], stashed := [] }

/-- How many scopes are open. -/
def depth (e : Environment) : Nat := e.scopes.length

/-- How many forks have not been restored. -/
def forks (e : Environment) : Nat := e.stashed.length

/-- Opens a scope. -/
def enter (e : Environment) : Environment := { e with scopes := [] :: e.scopes }

/-- Closes the innermost scope, unless it is the only one. -/
def exit (e : Environment) : Bool × Environment :=
  match e.scopes with
  | _ :: s :: rest => (true, { e with scopes := s :: rest })
  | _ => (false, e)

/-- Adds an unbound variable to the innermost scope, unless the scope has one of
that name. -/
def declare (name : Bytes) (domain : Domain) (e : Environment) : Bool × Environment :=
  match e.scopes with
  | s :: rest =>
    if (s.lookup name).isSome then (false, e)
    else (true, { e with scopes := (s ++ [(name, ⟨domain, none⟩)]) :: rest })
  | [] => (false, e)

/-- Binds the nearest variable called `name` in a stack of scopes. -/
def bindIn (name : Bytes) (value : Atom) : List Scope → Except EnvironmentFault (List Scope)
  | [] => .error (.undeclared name)
  | s :: rest =>
    match s.lookup name with
    | some slot =>
      if value.domain = slot.domain then .ok (Scope.set name value s :: rest)
      else .error (.wrongDomain value slot.domain name)
    | none => (bindIn name value rest).map (s :: ·)

/-- Binds the nearest variable called `name`, which must be of the value's domain. -/
def bind (name : Bytes) (value : Atom) (e : Environment) : Except EnvironmentFault Environment :=
  (bindIn name value e.scopes).map fun scopes => { e with scopes }

/-- The value of the innermost bound variable called `name`. -/
def lookup? (name : Bytes) (e : Environment) : Option Atom :=
  e.scopes.findSome? fun s => (s.lookup name).bind (·.value)

/-- Sets the present state aside and goes on with a copy. -/
def fork (e : Environment) : Environment := { e with stashed := e.scopes :: e.stashed }

/-- Returns to the state set aside last; the second environment is the copy left
behind, with no forks of its own. -/
def restore (e : Environment) : Except EnvironmentFault (Environment × Environment) :=
  match e.stashed with
  | [] => .error .noFork
  | saved :: rest =>
    .ok ({ scopes := saved, stashed := rest }, { scopes := e.scopes, stashed := [] })

/-- Merges a scope into another of the same place, variable by variable, and
tells whether it changed. A fault leaves the variables after it alone. -/
def joinScope (theirs : Scope) : Scope → Scope × Except SignFault Bool
  | [] => ([], .ok false)
  | (name, slot) :: rest =>
    match slot.join (theirs.lookup name) with
    | .error fault => ((name, slot) :: rest, .error fault)
    | .ok slot' =>
      let (rest', changed) := joinScope theirs rest
      ((name, slot') :: rest', changed.map (decide (slot' ≠ slot) || ·))

/-- Merges stacks of the same height, outermost scopes first. -/
def joinScopes : List Scope → List Scope → List Scope × Except SignFault Bool
  | s :: ss, t :: ts =>
    match joinScopes ss ts with
    | (ss', .error fault) => (s :: ss', .error fault)
    | (ss', .ok outer) =>
      let (s', changed) := joinScope t s
      (s' :: ss', changed.map (outer || ·))
  | mine, _ => (mine, .ok false)

/-- Merges `other` into `e` and tells whether `e` changed. A variable bound in
both takes the join of its two values; all else is left alone. Scopes are
matched by their distance from the outermost one. -/
def join (e other : Environment) : Except SignFault Bool × Environment :=
  let extra := e.scopes.length - other.scopes.length
  let (joined, changed) :=
    joinScopes (e.scopes.drop extra) (other.scopes.drop (other.scopes.length - e.scopes.length))
  (changed, { e with scopes := e.scopes.take extra ++ joined })

/-- Whether every variable bound in a scope has that value in `theirs`. -/
def scopeAgrees (theirs : Scope) (mine : Scope) : Bool :=
  mine.all fun (name, slot) => slot.agrees (theirs.lookup name)

/-- Whether every variable bound in a stack has that value in one of the same height. -/
def scopesAgree : List Scope → List Scope → Bool
  | s :: ss, t :: ts => scopeAgrees t s && scopesAgree ss ts
  | s :: ss, [] => scopeAgrees [] s && scopesAgree ss []
  | [], _ => true

/-- Whether every variable bound in `e` is bound in `other` to the same value. -/
def identical (e other : Environment) : Bool :=
  let extra := e.scopes.length - other.scopes.length
  (e.scopes.take extra).all (scopeAgrees [])
    && scopesAgree (e.scopes.drop extra)
      (other.scopes.drop (other.scopes.length - e.scopes.length))

/-- How many bound variables of a stack hold an atom that can still rise. -/
def slackOf : List Scope → Nat
  | [] => 0
  | s :: ss => s.countP (fun p => p.2.canRise) + slackOf ss

/-- How many bound variables hold an atom that can still rise. Every join that
changes something makes this smaller. -/
def slack (e : Environment) : Nat := slackOf e.scopes

/-- One variable of an environment, with the depth of its scope. -/
structure Binding where
  depth : Nat
  name : Bytes
  domain : Domain
  value : Option Atom
  deriving DecidableEq, Repr

/-- A variable and what it is bound to. -/
def Binding.text (b : Binding) : Bytes :=
  match b.value with
  | some v => b.name ++ ": " ++ v.name
  | none => b.name ++ ": unbound " ++ b.domain.name

/-- Every variable, outermost scope first and in the order of declaration. -/
def snapshot (e : Environment) : List Binding :=
  e.scopes.reverse.zipIdx.flatMap fun (s, depth) =>
    s.map fun (name, slot) => { depth, name, domain := slot.domain, value := slot.value }

/-- Sets the value of a name in a list of names and values. -/
def overwrite (name : Bytes) (value : Atom) : List (Bytes × Atom) → List (Bytes × Atom)
  | [] => [(name, value)]
  | (n, v) :: rest => if n = name then (n, value) :: rest else (n, v) :: overwrite name value rest

/-- The bound value of each name: of variables with one name, the innermost
bound one. -/
def bound (e : Environment) : List (Bytes × Atom) :=
  e.snapshot.foldl (fun acc b => match b.value with
    | some v => overwrite b.name v acc
    | none => acc) []

end Environment
end Signum
