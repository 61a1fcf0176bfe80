import Signum.Number.Decimal
import Signum.Sign.Operators
/- The values a running program computes with. -/
namespace Signum

/-- A value of a running program. -/
inductive Value where
  | int (i : Int64)
  | float (f : Binary64)
  | bool (b : Bool)
  deriving DecidableEq, Repr

namespace Value

/-- The atom that describes the value. -/
def abstract : Value → Atom
  | .int i => Atom.ofInt i.toInt
  | .float f => Atom.ofFloat f
  | .bool b => Atom.ofBool b

/-- What printing the value writes. -/
def text : Value → Bytes
  | .int i => Bytes.ofInt i.toInt
  | .float f => f.display
  | .bool b => if b then "true" else "false"

/-- The value as an integer, zero for other kinds of values. -/
def asInt : Value → Int64
  | .int i => i
  | _ => 0

/-- The value as a float, zero for other kinds of values. -/
def asFloat : Value → Binary64
  | .float f => f
  | _ => Binary64.zero

end Value
end Signum
