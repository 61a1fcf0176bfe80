import Signum.Sign.Atom
import Signum.Number.Binary64
/- Operators on atoms.

   Each operator is a small table on signs or truths, lifted to atoms of one
   domain. Integers and floats share their tables but for the product: a float
   product of nonzero factors may underflow to zero, so only a zero factor
   decides it. Quotient signs are not kept, since integer division truncates
   toward zero. -/
namespace Signum

namespace Sign

/-- The sign of a negated number. -/
def flip : Sign → Sign
  | .pos => .neg
  | .neg => .pos
  | .zero => .zero
  | .any => .any

/-- The sign of a sum. -/
def add : Sign → Sign → Sign
  | .zero, b => b
  | a, .zero => a
  | .pos, .pos => .pos
  | .neg, .neg => .neg
  | _, _ => .any

/-- The sign of a difference. -/
def sub (a b : Sign) : Sign := add a b.flip

/-- The sign of an integer product. -/
def mul : Sign → Sign → Sign
  | .zero, _ | _, .zero => .zero
  | .any, _ | _, .any => .any
  | .pos, b => b
  | .neg, b => b.flip

/-- The sign of a float product. -/
def floatMul : Sign → Sign → Sign
  | .zero, _ | _, .zero => .zero
  | _, _ => .any

/-- The sign of a quotient, when the divisor cannot be zero. -/
def div? : Sign → Sign → Option Sign
  | _, .zero | _, .any => none
  | .zero, _ => some .zero
  | _, _ => some .any

/-- Whether two numbers are equal. -/
def eq : Sign → Sign → Truth
  | .any, _ | _, .any => .maybe
  | .zero, .zero => .yes
  | .pos, .pos | .neg, .neg => .maybe
  | _, _ => .no

/-- Whether one number is less than another. -/
def lt : Sign → Sign → Truth
  | .any, _ | _, .any => .maybe
  | .pos, .pos | .neg, .neg => .maybe
  | .neg, _ | .zero, .pos => .yes
  | _, _ => .no

/-- Whether one number is less than or equal to another. -/
def le : Sign → Sign → Truth
  | .zero, .zero => .yes
  | a, b => lt a b

end Sign

namespace Truth

/-- The truth of a negated condition. -/
def not : Truth → Truth
  | .yes => .no
  | .no => .yes
  | .maybe => .maybe

/-- The truth of a conjunction; a false part decides it. -/
def and : Truth → Truth → Truth
  | .yes, b => b
  | .no, _ => .no
  | .maybe, .no => .no
  | .maybe, _ => .maybe

/-- The truth of a disjunction; a true part decides it. -/
def or : Truth → Truth → Truth
  | .yes, _ => .yes
  | .no, b => b
  | .maybe, .yes => .yes
  | .maybe, _ => .maybe

end Truth

namespace Atom

/-- The sign of a numeric atom. -/
def sign : Atom → Except SignFault Sign
  | .int s | .float s => .ok s
  | a => .error (.notNumeric a)

/-- The truth of a boolean atom. -/
def truth : Atom → Except SignFault Truth
  | .bool t => .ok t
  | a => .error (.notBool a)

/-- The atom of sign `s` in the domain of `a`. -/
def withSign (a : Atom) (s : Sign) : Atom :=
  match a with
  | .float _ => .float s
  | _ => .int s

/-- Lifts a table on signs to numeric atoms of one domain. -/
def arith (op : Bytes) (table : Sign → Sign → Sign) (a b : Atom) : Except SignFault Atom := do
  sameDomain op a b
  let s ← a.sign
  let t ← b.sign
  pure (a.withSign (table s t))

def add (a b : Atom) : Except SignFault Atom := arith "+" Sign.add a b

def sub (a b : Atom) : Except SignFault Atom := arith "-" Sign.sub a b

def mul (a b : Atom) : Except SignFault Atom :=
  arith "*" (if a.domain = .float then Sign.floatMul else Sign.mul) a b

/-- The quotient, which is illegal when the divisor may be zero. -/
def div (a b : Atom) : Except SignFault Atom := do
  sameDomain "/" a b
  let s ← a.sign
  let t ← b.sign
  pure (match Sign.div? s t with
    | some r => a.withSign r
    | none => illegal)

def neg (a : Atom) : Except SignFault Atom := do
  let s ← a.sign
  pure (a.withSign s.flip)

/-- Lifts a comparison of signs to numeric atoms of one domain. -/
def compare (op : Bytes) (table : Sign → Sign → Truth) (a b : Atom) : Except SignFault Atom := do
  sameDomain op a b
  let s ← a.sign
  let t ← b.sign
  pure (.bool (table s t))

def eq (a b : Atom) : Except SignFault Atom := compare "==" Sign.eq a b

def lt (a b : Atom) : Except SignFault Atom := compare "<" Sign.lt a b

def le (a b : Atom) : Except SignFault Atom := compare "<=" Sign.le a b

/-- Greater is less with the operands exchanged. -/
def gt (a b : Atom) : Except SignFault Atom := compare ">" Sign.lt b a

/-- Greater or equal is less or equal with the operands exchanged. -/
def ge (a b : Atom) : Except SignFault Atom := compare ">=" Sign.le b a

def not (a : Atom) : Except SignFault Atom := do
  let t ← a.truth
  pure (.bool t.not)

/-- Different is the negation of equal. -/
def ne (a b : Atom) : Except SignFault Atom := do not (← eq a b)

def and (a b : Atom) : Except SignFault Atom := do
  let s ← a.truth
  let t ← b.truth
  pure (.bool (s.and t))

def or (a b : Atom) : Except SignFault Atom := do
  let s ← a.truth
  let t ← b.truth
  pure (.bool (s.or t))

/-- The atom that describes an integer and nothing less. -/
def ofInt (i : Int) : Atom :=
  .int (if 0 < i then .pos else if i < 0 then .neg else .zero)

/-- The atom of a float; "not a number" has no sign. -/
def ofFloat : Binary64 → Atom
  | .nan => .float .any
  | .infinite s => .float (if s then .neg else .pos)
  | .finite s n => .float (if n = 0 then .zero else if s then .neg else .pos)

/-- The atom of a boolean. -/
def ofBool (b : Bool) : Atom := .bool (if b then .yes else .no)

/-- A condition's verdict in words. -/
def describe : Atom → Bytes
  | .bool .yes => "always true"
  | .bool .no => "always false"
  | _ => "either"

end Atom
end Signum
