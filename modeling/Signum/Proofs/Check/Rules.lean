import Signum.Proofs.Check.Paths
/- The rules of a program, told without the checker.

   A program keeps the rules when no scope of it declares a name twice, every name it
   reads or assigns is declared before in an open scope, types agree, and no path
   through it reads too early. The names in sight differ from place to place, so the
   uses of variables are listed, each with the names in sight there (`uses`), and the
   rules on names and types are about every use. -/
namespace Signum

/-- The declarations in sight: the open scopes, innermost first, and of each what is
declared in it so far with its type, newest first. -/
abbrev Names := List (List (Bytes × NumType))

/-- A use of variables. -/
inductive Use where
  | print (value : Expr)
  | test (c : Cond)
  | assign (name : Bytes) (value : Expr)
  | declare (d : Decl)

namespace Use

/-- The names that are read or assigned in a use; a declaration reads those of its
initializer. -/
def names : Use → List Bytes
  | .print value => value.names
  | .test c => c.names
  | .assign name value => name :: value.names
  | .declare d => (d.init.map Expr.names).getD []

end Use

/-- The names in sight after a unit. -/
def Item.scope (Γ : Names) : Item → Names
  | .decl d => tellHere d.name d.type Γ
  | .stmt _ => Γ

mutual

/-- The uses in a statement, each with the names in sight there. -/
def Stmt.uses (Γ : Names) : Stmt → List (Names × Use)
  | .assign name value _ => [(Γ, .assign name value)]
  | .print value _ => [(Γ, .print value)]
  | .block body _ => usesOf ([] :: Γ) body
  | .ite c yes none _ => (Γ, .test c) :: yes.uses Γ
  | .ite c yes (some no) _ => (Γ, .test c) :: (yes.uses Γ ++ no.uses Γ)
  | .loop c body _ => (Γ, .test c) :: body.uses Γ

/-- The uses in a unit. -/
def Item.uses (Γ : Names) : Item → List (Names × Use)
  | .decl d => [(Γ, .declare d)]
  | .stmt s => s.uses Γ

/-- The uses in units in order; what a unit declares is in sight after it. -/
def usesOf (Γ : Names) : List Item → List (Names × Use)
  | [] => []
  | u :: rest => u.uses Γ ++ usesOf (u.scope Γ) rest

end

/-- The type of an expression: that of the variable, or of the left operand. -/
def Expr.type? (Γ : Names) : Expr → Option NumType
  | .int _ _ | .readInt _ => some .int
  | .float _ _ _ | .readFloat _ => some .float
  | .var name _ => inSight name Γ
  | .neg e _ => e.type? Γ
  | .binary _ l _ _ => l.type? Γ

/-- Two types, where both are known, are one. -/
def Agree (t u : Option NumType) : Prop := ∀ x ∈ t, ∀ y ∈ u, x = y

/-- The operands of an expression agree in type. -/
def Expr.Agrees (Γ : Names) : Expr → Prop
  | .neg e _ => e.Agrees Γ
  | .binary _ l r _ => l.Agrees Γ ∧ r.Agrees Γ ∧ Agree (l.type? Γ) (r.type? Γ)
  | .int _ _ | .float _ _ _ | .var _ _ | .readInt _ | .readFloat _ => True

/-- The operands of a condition agree in type. -/
def Cond.Agrees (Γ : Names) : Cond → Prop
  | .compare _ l r _ => l.Agrees Γ ∧ r.Agrees Γ ∧ Agree (l.type? Γ) (r.type? Γ)
  | .logical _ l r _ => l.Agrees Γ ∧ r.Agrees Γ
  | .not c _ => c.Agrees Γ

/-- The types in a use agree: those of operands, and those of a variable and of
what it is assigned or initialized with. -/
def Use.Agrees (Γ : Names) : Use → Prop
  | .print value => value.Agrees Γ
  | .test c => c.Agrees Γ
  | .assign name value => value.Agrees Γ ∧ Agree (inSight name Γ) (value.type? Γ)
  | .declare d => ∀ e ∈ d.init, e.Agrees Γ ∧ Agree (some d.type) (e.type? Γ)

/-- The name a unit declares in the scope around it. -/
def Item.declares? : Item → Option Bytes
  | .decl d => some d.name
  | .stmt _ => none

mutual

/-- The scopes in a statement, each as the names declared in it. -/
def Stmt.scopes : Stmt → List (List Bytes)
  | .assign _ _ _ | .print _ _ => []
  | .block body _ => body.filterMap Item.declares? :: scopesOf body
  | .ite _ yes none _ => yes.scopes
  | .ite _ yes (some no) _ => yes.scopes ++ no.scopes
  | .loop _ body _ => body.scopes

/-- The scopes in a unit. -/
def Item.scopes : Item → List (List Bytes)
  | .decl _ => []
  | .stmt s => s.scopes

/-- The scopes in units, less the one around them. -/
def scopesOf : List Item → List (List Bytes)
  | [] => []
  | u :: rest => u.scopes ++ scopesOf rest

end

namespace Program

/-- No scope declares a name twice. -/
def DeclaresOnce (p : Program) : Prop :=
  ∀ names ∈ p.units.filterMap Item.declares? :: scopesOf p.units, names.Nodup

/-- Every name that is read or assigned is declared before, in an open scope. -/
def Resolves (p : Program) : Prop :=
  ∀ q ∈ usesOf [[]] p.units, ∀ name ∈ q.2.names, (inSight name q.1).isSome

/-- Types agree in every use. -/
def Agrees (p : Program) : Prop := ∀ q ∈ usesOf [[]] p.units, q.2.Agrees q.1

/-- On no path is a variable read before it is assigned. -/
def AssignsFirst (p : Program) : Prop :=
  ∀ path ∈ pathsOf p.units, ¬Marks.ReadsEarly [[]] path

end Program

/-! Agreement of known types. -/

theorem agree_some {t u : NumType} : Agree (some t) (some u) ↔ t = u := by
  simp [Agree]

end Signum
