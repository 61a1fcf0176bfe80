import Signum.Check.Checker
import Signum.Number.Decimal
import Signum.Text.Quoted
/- The tree of a program in full, with what the checker learned.

   A dump shows records with their fields one to a line, and leaves out fields
   that hold the zero of their type: the number 0, the empty text, the empty list,
   an absent part and the first operator of each kind. Records inside records are
   never left out. -/
namespace Signum.Dump

/-- A value as a dump shows it. -/
inductive Shown where
  | plain (text : Bytes)
  | record (head : Bytes) (fields : List (Bytes × Shown))
  | list (head : Bytes) (elements : List Shown)

/-- The start of a line at a depth. -/
def margin (depth : Nat) : Bytes := List.replicate (2 * depth) 32

mutual

/-- The text of a value whose first line starts at the given depth, before `rest`. -/
def Shown.renderBefore (depth : Nat) (rest : Bytes) : Shown → Bytes
  | .plain text => text ++ rest
  | .record head fields =>
    head ++ "\x7b\n" ++ fieldsBefore (depth + 1) (margin depth ++ "\x7d" ++ rest) fields
  | .list head elements =>
    head ++ "\x7b\n" ++ elementsBefore (depth + 1) (margin depth ++ "\x7d" ++ rest) elements

/-- The lines of some fields, before `rest`. -/
def fieldsBefore (depth : Nat) (rest : Bytes) : List (Bytes × Shown) → Bytes
  | [] => rest
  | (name, v) :: more =>
    margin depth ++ name ++ ": " ++ v.renderBefore depth (",\n" ++ fieldsBefore depth rest more)

/-- The lines of some elements, before `rest`. -/
def elementsBefore (depth : Nat) (rest : Bytes) : List Shown → Bytes
  | [] => rest
  | v :: more => margin depth ++ v.renderBefore depth (",\n" ++ elementsBefore depth rest more)

end

/-- The text of a value. -/
def Shown.render (v : Shown) : Bytes := v.renderBefore 0 []

/-- A field that is left out when its value is zero. -/
def field (name : Bytes) (isZero : Bool) (v : Shown) : List (Bytes × Shown) :=
  if isZero then [] else [(name, v)]

/-- A field that is always shown. -/
def part (name : Bytes) (v : Shown) : List (Bytes × Shown) := [(name, v)]

def number (name : Bytes) (n : Int) : List (Bytes × Shown) :=
  field name (n = 0) (.plain (Bytes.ofInt n))

def text (name : Bytes) (t : Bytes) : List (Bytes × Shown) :=
  field name t.isEmpty (.plain t.quoted)

def point (p : Point) : Shown :=
  .record "ast.Point" (number "Row" p.row ++ number "Column" p.column)

def span (s : Span) : List (Bytes × Shown) :=
  [("Span", .record "ast.Span" [("Start", point s.start), ("End", point s.stop)])]

/-- An operator, left out when it is the first of its kind. -/
def operator (kind symbol : Bytes) (isFirst : Bool) : List (Bytes × Shown) :=
  field "Op" isFirst (.plain ("ast." ++ kind ++ "(" ++ symbol ++ ")"))

/-- A node of the tree. -/
def node (kind : Bytes) (fields : List (Bytes × Shown)) : Shown := .record ("&ast." ++ kind) fields

def expr : Expr → Shown
  | .int v s => node "IntLit" (number "Value" v.toInt ++ span s)
  | .float v t s =>
    node "FloatLit" (field "Value" v.isZero (.plain v.general) ++ text "Text" t ++ span s)
  | .var name s => node "Ident" (text "Name" name ++ span s)
  | .readInt s => node "ReadIntExpr" (span s)
  | .readFloat s => node "ReadFloatExpr" (span s)
  | .neg e s => node "NegExpr" (part "Operand" (expr e) ++ span s)
  | .binary op l r s =>
    node "BinaryExpr" (operator "BinaryOp" op.symbol (op = .add)
      ++ part "Left" (expr l) ++ part "Right" (expr r) ++ span s)

def cond : Cond → Shown
  | .compare op l r s =>
    node "CompareExpr" (operator "CompareOp" op.symbol (op = .eq)
      ++ part "Left" (expr l) ++ part "Right" (expr r) ++ span s)
  | .logical op l r s =>
    node "LogicalExpr" (operator "LogicalOp" op.symbol (op = .and)
      ++ part "Left" (cond l) ++ part "Right" (cond r) ++ span s)
  | .not c s => node "NotCond" (part "Operand" (cond c) ++ span s)

def decl (d : Decl) : Shown :=
  node "Decl" (field "Type" (d.type = .int) (.plain ("ast.Type(" ++ d.type.name ++ ")"))
    ++ text "Name" d.name
    ++ (match d.init with
      | some e => part "Init" (expr e)
      | none => [])
    ++ span d.span)

/-- A list of units, left out when it is empty. -/
def unitList (units : List Shown) : List (Bytes × Shown) :=
  field "Units" units.isEmpty (.list "[]ast.Unit" units)

mutual

def stmt : Stmt → Shown
  | .assign name value s =>
    node "AssignStmt" (text "Name" name ++ part "Value" (expr value) ++ span s)
  | .print value s => node "PrintStmt" (part "Value" (expr value) ++ span s)
  | .block body s => node "BlockStmt" (unitList (items body) ++ span s)
  | .ite c yes none s => node "IfStmt" (part "Cond" (cond c) ++ part "Then" (stmt yes) ++ span s)
  | .ite c yes (some no) s =>
    node "IfStmt"
      (part "Cond" (cond c) ++ part "Then" (stmt yes) ++ part "Else" (stmt no) ++ span s)
  | .loop c body s => node "WhileStmt" (part "Cond" (cond c) ++ part "Body" (stmt body) ++ span s)

def item : Item → Shown
  | .decl d => decl d
  | .stmt s => stmt s

def items : List Item → List Shown
  | [] => []
  | u :: rest => item u :: items rest

end

def program (p : Program) : Shown :=
  node "Program" (unitList (items p.units) ++ text "Documentation" p.documentation ++ span p.span)

/-- The checker's view of one declaration. -/
def declared (v : Variable) : Shown :=
  .record [] (text "Name" v.name ++ text "Type" v.type.name ++ number "Depth" v.depth
    ++ text "At" v.span.text)

/-- The declarations, those of outer scopes first. -/
def variableTable (vs : List Variable) : Shown :=
  if vs.isEmpty then .plain "nil"
  else .list "[]dump.Variable" ((vs.mergeSort fun a b => a.depth ≤ b.depth).map declared)

/-- Whether the node takes a value from the input. -/
def isRead : Node → Bool
  | .expr (.readInt _) | .expr (.readFloat _) => true
  | _ => false

/-- The dump of a checked program. -/
def render (p : Program) (c : Context) : Bytes :=
  (program p).render ++ "\n" ++ (variableTable c.variables.toList).render ++ "\nreads: "
    ++ Bytes.ofNat (p.nodes.countP isRead) ++ "\n"

end Signum.Dump
