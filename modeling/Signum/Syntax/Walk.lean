import Signum.Syntax.Tree
/- Visiting the nodes of a program in the order of the source: each node before
   its parts, and its parts from left to right. -/
namespace Signum

/-- A node of the tree. -/
inductive Node where
  | program (p : Program)
  | decl (d : Decl)
  | stmt (s : Stmt)
  | cond (c : Cond)
  | expr (e : Expr)

def Expr.kind : Expr → Bytes
  | .int _ _ => "IntLit"
  | .float _ _ _ => "FloatLit"
  | .var _ _ => "Ident"
  | .readInt _ => "ReadIntExpr"
  | .readFloat _ => "ReadFloatExpr"
  | .neg _ _ => "NegExpr"
  | .binary _ _ _ _ => "BinaryExpr"

def Cond.kind : Cond → Bytes
  | .compare _ _ _ _ => "CompareExpr"
  | .logical _ _ _ _ => "LogicalExpr"
  | .not _ _ => "NotCond"

def Stmt.kind : Stmt → Bytes
  | .assign _ _ _ => "AssignStmt"
  | .print _ _ => "PrintStmt"
  | .block _ _ => "BlockStmt"
  | .ite _ _ _ _ => "IfStmt"
  | .loop _ _ _ => "WhileStmt"

namespace Node

/-- The name of the kind of a node. -/
def kind : Node → Bytes
  | .program _ => "Program"
  | .decl _ => "Decl"
  | .stmt s => s.kind
  | .cond c => c.kind
  | .expr e => e.kind

/-- Where a node stands. -/
def span : Node → Span
  | .program p => p.span
  | .decl d => d.span
  | .stmt s => s.span
  | .cond c => c.span
  | .expr e => e.span

/-- A node and, unless they are to be skipped, the nodes of its parts. -/
def visit (descend : Node → Bool) (n : Node) (parts : List Node) : List Node :=
  n :: if descend n then parts else []

end Node

/-- The nodes of an expression. -/
def Expr.inspect (descend : Node → Bool) : Expr → List Node
  | .neg e s => Node.visit descend (.expr (.neg e s)) (e.inspect descend)
  | .binary op l r s =>
    Node.visit descend (.expr (.binary op l r s)) (l.inspect descend ++ r.inspect descend)
  | e => Node.visit descend (.expr e) []

/-- The nodes of a condition. -/
def Cond.inspect (descend : Node → Bool) : Cond → List Node
  | .compare op l r s =>
    Node.visit descend (.cond (.compare op l r s)) (l.inspect descend ++ r.inspect descend)
  | .logical op l r s =>
    Node.visit descend (.cond (.logical op l r s)) (l.inspect descend ++ r.inspect descend)
  | .not c s => Node.visit descend (.cond (.not c s)) (c.inspect descend)

/-- The nodes of a declaration. -/
def Decl.inspect (descend : Node → Bool) (d : Decl) : List Node :=
  Node.visit descend (.decl d) (match d.init with
    | some e => e.inspect descend
    | none => [])

mutual

/-- The nodes of a statement. -/
def Stmt.inspect (descend : Node → Bool) : Stmt → List Node
  | .assign name value s =>
    Node.visit descend (.stmt (.assign name value s)) (value.inspect descend)
  | .print value s => Node.visit descend (.stmt (.print value s)) (value.inspect descend)
  | .block body s => Node.visit descend (.stmt (.block body s)) (inspectItems descend body)
  | .ite c yes none s =>
    Node.visit descend (.stmt (.ite c yes none s)) (c.inspect descend ++ yes.inspect descend)
  | .ite c yes (some no) s =>
    Node.visit descend (.stmt (.ite c yes (some no) s))
      (c.inspect descend ++ yes.inspect descend ++ no.inspect descend)
  | .loop c body s =>
    Node.visit descend (.stmt (.loop c body s)) (c.inspect descend ++ body.inspect descend)

/-- The nodes of a unit. -/
def Item.inspect (descend : Node → Bool) : Item → List Node
  | .decl d => d.inspect descend
  | .stmt s => s.inspect descend

/-- The nodes of a list of units. -/
def inspectItems (descend : Node → Bool) : List Item → List Node
  | [] => []
  | u :: rest => u.inspect descend ++ inspectItems descend rest

end

namespace Program

/-- The nodes of a program; parts are skipped of nodes that `descend` rejects. -/
def inspect (descend : Node → Bool) (p : Program) : List Node :=
  Node.visit descend (.program p) (inspectItems descend p.units)

/-- All nodes of a program. -/
def nodes (p : Program) : List Node := p.inspect fun _ => true

/-- Every declaration in a program, in the order of the source. -/
def declarations (p : Program) : List Decl :=
  p.nodes.filterMap fun
    | .decl d => some d
    | _ => none

/-- Every expression in a program, each before its parts. -/
def expressions (p : Program) : List Expr :=
  p.nodes.filterMap fun
    | .expr e => some e
    | _ => none

end Program
end Signum
