import Signum.Syntax.Tree
/- The names a checker knows: a stack of scopes over a prelude that holds the
   names of the types.

   Depth counts the scopes above the prelude from zero, so the prelude itself has
   depth minus one. -/
namespace Signum

/-- A declared variable. Its number tells it apart from others of one name. -/
structure Variable where
  name : Bytes
  type : NumType
  span : Span
  depth : Int
  number : Nat
  deriving DecidableEq, Repr

/-- What a name stands for. -/
inductive Object where
  | type (t : NumType)
  | variable (v : Variable)
  deriving DecidableEq, Repr

/-- Scopes of names, innermost first. -/
structure Scopes where
  items : List (List (Bytes × Object))
  deriving DecidableEq, Repr

namespace Scopes

/-- The scope of the type names. -/
def prelude : Scopes := ⟨[[("int", .type .int), ("float", .type .float)]]⟩

/-- How many scopes are open above the prelude, less one. -/
def depth (s : Scopes) : Int := s.items.length - 2

/-- Opens a scope. -/
def push (s : Scopes) : Scopes := ⟨[] :: s.items⟩

/-- Closes the innermost scope. -/
def pop (s : Scopes) : Scopes := ⟨s.items.tail⟩

/-- What the innermost scope that knows the name has for it. -/
def search? (name : Bytes) (s : Scopes) : Option Object := s.items.findSome? (·.lookup name)

/-- Whether the innermost scope has the name. -/
def declaredHere (name : Bytes) (s : Scopes) : Bool :=
  match s.items with
  | here :: _ => (here.lookup name).isSome
  | [] => false

/-- Gives the name a meaning in the innermost scope. -/
def add (name : Bytes) (o : Object) (s : Scopes) : Scopes :=
  match s.items with
  | here :: rest => ⟨((name, o) :: here) :: rest⟩
  | [] => s

end Scopes
end Signum
