import Signum.Syntax.Walk
/- The nodes of a tree that can be told apart.

   The expressions of a program are listed each before its parts. A statement that prints
   or branches has a site: its kind, its place and what it evaluates. -/
namespace Signum

/-- The expressions among some nodes. -/
def exprsOf (nodes : List Node) : List Expr :=
  nodes.filterMap fun
    | .expr e => some e
    | _ => none

/-- The nodes of all parts. -/
def everywhere : Node → Bool := fun _ => true

@[simp] theorem exprsOf_append (ns ms : List Node) :
    exprsOf (ns ++ ms) = exprsOf ns ++ exprsOf ms := List.filterMap_append

@[simp] theorem exprsOf_expr (e : Expr) (ns : List Node) :
    exprsOf (Node.visit everywhere (.expr e) ns) = e :: exprsOf ns := rfl

@[simp] theorem exprsOf_cond (c : Cond) (ns : List Node) :
    exprsOf (Node.visit everywhere (.cond c) ns) = exprsOf ns := rfl

@[simp] theorem exprsOf_stmt (s : Stmt) (ns : List Node) :
    exprsOf (Node.visit everywhere (.stmt s) ns) = exprsOf ns := rfl

@[simp] theorem exprsOf_decl (d : Decl) (ns : List Node) :
    exprsOf (Node.visit everywhere (.decl d) ns) = exprsOf ns := rfl

/-- The expressions in an expression. -/
theorem exprsOf_le {e e' : Expr} (h : e' ∈ exprsOf (e.inspect everywhere)) :
    sizeOf e' ≤ sizeOf e := by
  induction e with
  | neg e s ih =>
    rw [Expr.inspect, exprsOf_expr] at h
    rcases List.mem_cons.mp h with rfl | h
    · exact Nat.le_refl _
    · have := ih h
      simp only [Expr.neg.sizeOf_spec]
      omega
  | binary op l r s ihl ihr =>
    rw [Expr.inspect, exprsOf_expr, exprsOf_append] at h
    rcases List.mem_cons.mp h with rfl | h
    · exact Nat.le_refl _
    · simp only [Expr.binary.sizeOf_spec]
      rcases List.mem_append.mp h with h | h
      · have := ihl h
        omega
      · have := ihr h
        omega
  | _ =>
    obtain rfl := List.mem_singleton.mp h
    exact Nat.le_refl _

/-- Where something can be observed. -/
inductive Site where
  | print (span : Span) (e : Expr)
  | branch (span : Span) (c : Cond)
  | loop (span : Span) (c : Cond)
  deriving DecidableEq, Repr

mutual

/-- The sites of a statement. -/
def Stmt.sites : Stmt → List Site
  | .assign _ _ _ => []
  | .print value s => [.print s value]
  | .block body _ => sitesOf body
  | .ite c yes none s => .branch s c :: yes.sites
  | .ite c yes (some no) s => .branch s c :: (yes.sites ++ no.sites)
  | .loop c body s => .loop s c :: body.sites

/-- The sites of a unit. -/
def Item.sites : Item → List Site
  | .decl _ => []
  | .stmt s => s.sites

/-- The sites of a list of units. -/
def sitesOf : List Item → List Site
  | [] => []
  | u :: rest => u.sites ++ sitesOf rest

end

end Signum
