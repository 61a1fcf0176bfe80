import Signum.Run.Value
/- The variables of a running program: lexical scopes, innermost first. -/
namespace Signum

/-- Scopes of variables; a variable without a value is declared but unbound. -/
structure Store where
  scopes : List (List (Bytes × Option Value))
  deriving DecidableEq, Repr

namespace Store

/-- One empty scope. -/
def fresh : Store := ⟨[[]]⟩

/-- Opens a scope. -/
def enter (s : Store) : Store := ⟨[] :: s.scopes⟩

/-- Closes the innermost scope, unless it is the only one. -/
def exit (s : Store) : Bool × Store :=
  match s.scopes with
  | _ :: t :: rest => (true, ⟨t :: rest⟩)
  | _ => (false, s)

/-- What the innermost scope that has the name holds for it. -/
def search? (name : Bytes) (s : Store) : Option (Option Value) :=
  s.scopes.findSome? (·.lookup name)

/-- Adds an unbound variable to the innermost scope, unless it has one of that
name. -/
def declare (name : Bytes) (s : Store) : Bool × Store :=
  match s.scopes with
  | here :: rest =>
    if (here.lookup name).isSome then (false, s) else (true, ⟨((name, none) :: here) :: rest⟩)
  | [] => (false, s)

/-- Binds the nearest variable of that name in a stack of scopes. -/
def bindIn (name : Bytes) (v : Value) :
    List (List (Bytes × Option Value)) → Option (List (List (Bytes × Option Value)))
  | [] => none
  | here :: rest =>
    if (here.lookup name).isSome then
      some (here.map (fun (n, w) => if n = name then (n, some v) else (n, w)) :: rest)
    else (bindIn name v rest).map (here :: ·)

/-- Binds the nearest variable of that name, if there is one. -/
def bind? (name : Bytes) (v : Value) (s : Store) : Option Store :=
  (bindIn name v s.scopes).map Store.mk

/-- The value of the nearest variable of that name. -/
def lookup? (name : Bytes) (s : Store) : Option Value := (s.search? name).join

end Store
end Signum
