import Signum.Number.Decimal
import Signum.Syntax.Tree
/- The canonical text of a program.

   Expressions and conditions get only the parentheses their structure needs,
   except that whatever is negated in a condition stands in parentheses unless
   it is itself a negation. Blocks are indented by tabs, one statement to a
   line. -/
namespace Signum

/-- The text, in parentheses when asked for. -/
def wrap (paren : Bool) (text : Bytes) : Bytes := if paren then "(" ++ text ++ ")" else text

namespace Expr

/-- How tightly the expression binds: sums least, then products, then signs. -/
def precedence : Expr → Nat
  | .binary .add _ _ _ | .binary .sub _ _ _ => 1
  | .binary .mul _ _ _ | .binary .div _ _ _ => 2
  | .neg _ _ => 3
  | _ => 4

/-- The canonical text of an expression. -/
def format : Expr → Bytes
  | .int v _ => Bytes.ofInt v.toInt
  | .float v text _ => if text.isEmpty then v.literal else text
  | .var name _ => name
  | .readInt _ => "readint"
  | .readFloat _ => "readfloat"
  | .neg e _ => "-" ++ wrap (e.precedence < 3) e.format
  | .binary op l r s =>
    let p := (binary op l r s).precedence
    wrap (l.precedence < p) l.format ++ " " ++ op.symbol ++ " " ++ wrap (r.precedence ≤ p) r.format

end Expr

namespace Cond

/-- How tightly the condition binds: disjunctions least, then conjunctions. -/
def precedence : Cond → Nat
  | .logical .or _ _ _ => 1
  | .logical .and _ _ _ => 2
  | .not _ _ => 3
  | .compare _ _ _ _ => 4

/-- Whether the condition is a negation. -/
def isNot : Cond → Bool
  | .not _ _ => true
  | _ => false

/-- The canonical text of a condition. -/
def format : Cond → Bytes
  | .compare op l r _ => l.format ++ " " ++ op.symbol ++ " " ++ r.format
  | .not c _ => "!" ++ wrap (!c.isNot) c.format
  | .logical op l r s =>
    let p := (logical op l r s).precedence
    wrap (l.precedence < p) l.format ++ " " ++ op.symbol ++ " " ++ wrap (r.precedence ≤ p) r.format

end Cond

/-- The canonical text of a declaration. -/
def Decl.format (d : Decl) : Bytes :=
  d.type.name ++ " " ++ d.name ++
    (match d.init with
    | some e => " = " ++ e.format ++ ";"
    | none => Bytes.ofString ";")

/-- The indentation of a line. -/
def indentation (depth : Nat) : Bytes := List.replicate depth 9

/-- Whether the statement is a block. -/
def Stmt.isBlock : Stmt → Bool
  | .block _ _ => true
  | _ => false

mutual

/-- The canonical text of a statement that starts in the middle of a line at the
given depth, without the end of its last line. -/
def Stmt.format (depth : Nat) : Stmt → Bytes
  | .assign name value _ => name ++ " = " ++ value.format ++ ";"
  | .print value _ => "print " ++ value.format ++ ";"
  | .block body _ =>
    "\x7b\n" ++ formatItems (depth + 1) body ++ indentation depth ++ "\x7d"
  | .ite c yes none _ => "if (" ++ c.format ++ ") " ++ yes.format depth
  | .ite c yes (some no) _ =>
    "if (" ++ c.format ++ ") " ++ yes.format depth ++
      (if yes.isBlock then [32] else Bytes.newline :: indentation depth) ++ "else "
        ++ no.format depth
  | .loop c body _ => "while (" ++ c.format ++ ") " ++ body.format depth

/-- The canonical text of a unit. -/
def Item.format (depth : Nat) : Item → Bytes
  | .decl d => d.format
  | .stmt s => s.format depth

/-- The canonical text of units, each on lines of its own. -/
def formatItems (depth : Nat) : List Item → Bytes
  | [] => []
  | u :: rest => indentation depth ++ u.format depth ++ "\n" ++ formatItems depth rest

end

/-- The comment lines that hold some documentation, with an empty line after them. -/
def formatDocumentation (documentation : Bytes) : Bytes :=
  let text := Bytes.dropRightWhile (· == Bytes.newline) documentation
  if text.isEmpty then []
  else
    ((text.splitOn Bytes.newline).flatMap fun line =>
      (if line.isEmpty then Bytes.ofString "//" else "// " ++ line) ++ [Bytes.newline])
      ++ [Bytes.newline]

/-- The canonical text of a program, with its documentation. -/
def Program.format (p : Program) : Bytes :=
  formatDocumentation p.documentation ++ formatItems 0 p.units

end Signum
