import Signum.Number.Binary64
import Signum.Syntax.Span
/- The syntax tree of a program.

   Expressions are numeric, conditions are boolean and stand only in the headers
   of `if` and `while`. A unit is a declaration or a statement; blocks and
   programs are lists of units. Every node carries its place in the source. -/
namespace Signum

/-- The types a variable can be declared with. -/
inductive NumType where
  | int
  | float
  deriving DecidableEq, Repr

inductive BinaryOp where
  | add
  | sub
  | mul
  | div
  deriving DecidableEq, Repr

inductive CompareOp where
  | eq
  | ne
  | lt
  | gt
  | le
  | ge
  deriving DecidableEq, Repr

inductive LogicalOp where
  | and
  | or
  deriving DecidableEq, Repr

/-- A numeric expression. A float literal keeps the text it was written with. -/
inductive Expr where
  | int (value : Int64) (span : Span)
  | float (value : Binary64) (text : Bytes) (span : Span)
  | var (name : Bytes) (span : Span)
  | readInt (span : Span)
  | readFloat (span : Span)
  | neg (operand : Expr) (span : Span)
  | binary (op : BinaryOp) (left right : Expr) (span : Span)
  deriving DecidableEq, Repr

/-- A boolean condition. -/
inductive Cond where
  | compare (op : CompareOp) (left right : Expr) (span : Span)
  | logical (op : LogicalOp) (left right : Cond) (span : Span)
  | not (operand : Cond) (span : Span)
  deriving DecidableEq, Repr

/-- The declaration of a variable. -/
structure Decl where
  type : NumType
  name : Bytes
  init : Option Expr
  span : Span
  deriving DecidableEq, Repr

mutual

/-- A statement. -/
inductive Stmt where
  | assign (name : Bytes) (value : Expr) (span : Span)
  | print (value : Expr) (span : Span)
  | block (body : List Item) (span : Span)
  | ite (cond : Cond) (yes : Stmt) (no : Option Stmt) (span : Span)
  | loop (cond : Cond) (body : Stmt) (span : Span)

/-- A unit of a block or program: a declaration or a statement. -/
inductive Item where
  | decl (d : Decl)
  | stmt (s : Stmt)

end

/-- A program: its units, and the text of the comments at its top. -/
structure Program where
  units : List Item
  documentation : Bytes
  span : Span

def NumType.name : NumType → Bytes
  | .int => "int"
  | .float => "float"

/-- The type with the given number. -/
def NumType.ofNumber? : Int → Option NumType
  | 0 => some .int
  | 1 => some .float
  | _ => none

/-- What is said of a number that names no type. -/
def NumType.badNumber : Bytes := "Bad primitive type"

def BinaryOp.symbol : BinaryOp → Bytes
  | .add => "+"
  | .sub => "-"
  | .mul => "*"
  | .div => "/"

def CompareOp.symbol : CompareOp → Bytes
  | .eq => "=="
  | .ne => "!="
  | .lt => "<"
  | .gt => ">"
  | .le => "<="
  | .ge => ">="

def LogicalOp.symbol : LogicalOp → Bytes
  | .and => "&&"
  | .or => "||"

/-- Where the expression stands. -/
def Expr.span : Expr → Span
  | .int _ s | .float _ _ s | .var _ s | .readInt s | .readFloat s | .neg _ s
  | .binary _ _ _ s => s

namespace Cond

/-- Where the condition stands. -/
def span : Cond → Span
  | .compare _ _ _ s | .logical _ _ _ s | .not _ s => s

/-- The condition with another place. -/
def withSpan (s : Span) : Cond → Cond
  | .compare op l r _ => .compare op l r s
  | .logical op l r _ => .logical op l r s
  | .not c _ => .not c s

end Cond

/-- Where the statement stands. -/
def Stmt.span : Stmt → Span
  | .assign _ _ s | .print _ s | .block _ s | .ite _ _ _ s | .loop _ _ s => s

/-- Where the unit stands. -/
def Item.span : Item → Span
  | .decl d => d.span
  | .stmt s => s.span

end Signum
