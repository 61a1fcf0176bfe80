import Signum.Text.Bytes
/- The sign domain: what an analysis knows of a value.

   An atom belongs to the integers, the floats or the booleans, and within its
   domain is exact (positive, negative or zero; true or false) or says nothing
   (`any`, `maybe`). Each domain is a flat lattice: `leq` is its order and
   `merge` its join. An atom of no domain, `invalid`, is what a quotient gets
   whose divisor may be zero. Joining atoms of different domains is a fault. -/
namespace Signum

/-- What kind of values an atom describes. -/
inductive Domain where
  | int
  | float
  | bool
  | invalid
  deriving DecidableEq, Repr

/-- The sign of a number, as far as it is known. -/
inductive Sign where
  | pos
  | neg
  | zero
  | any
  deriving DecidableEq, Repr

/-- The truth of a condition, as far as it is known. -/
inductive Truth where
  | yes
  | no
  | maybe
  deriving DecidableEq, Repr

/-- An abstract value. The code of an invalid atom is 0 for the illegal quotient;
other codes are numbers that name no atom. -/
inductive Atom where
  | int (s : Sign)
  | float (s : Sign)
  | bool (t : Truth)
  | invalid (code : Int)
  deriving DecidableEq, Repr

/-- The name of a domain. -/
def Domain.name : Domain → Bytes
  | .int => "Int"
  | .float => "Float"
  | .bool => "Bool"
  | .invalid => "Invalid"

/-- The domain with the given number. -/
def Domain.ofNumber : Int → Domain
  | 0 => .int
  | 1 => .float
  | 2 => .bool
  | _ => .invalid

/-- The word for a sign in an atom's name. -/
def Sign.word : Sign → Bytes
  | .pos => "Pos"
  | .neg => "Neg"
  | .zero => "Zero"
  | .any => "Any"

namespace Atom

/-- The atom of a quotient whose divisor may be zero. -/
abbrev illegal : Atom := .invalid 0

/-- The name of an atom. -/
def name : Atom → Bytes
  | .int s => s.word ++ "Int"
  | .float s => s.word ++ "Float"
  | .bool .yes => "TrueBool"
  | .bool .no => "FalseBool"
  | .bool .maybe => "AnyBool"
  | .invalid code =>
    if code = 0 then "Illegal" else "Value(" ++ Bytes.ofInt code ++ ")"

/-- The atoms of all domains, in the order of their numbers. -/
def all : List Atom :=
  [.int .pos, .int .neg, .int .zero, .int .any,
    .float .pos, .float .neg, .float .zero, .float .any,
    .bool .yes, .bool .no, .bool .maybe]

/-- The atom with the given number: 0 is the illegal one, and the others are
numbered from 1 in the order of `all`. -/
def ofNumber (n : Int) : Atom :=
  if 1 ≤ n then (all[n.toNat - 1]?).getD (.invalid n) else .invalid n

/-- The number of the atom with the given name. -/
def numberOf? (text : Bytes) : Option Nat := (illegal :: all).findIdx? (·.name == text)

/-- The atom with the given name. -/
def ofName? (text : Bytes) : Option Atom := (illegal :: all).find? (·.name == text)

/-- The domain an atom belongs to. -/
def domain : Atom → Domain
  | .int _ => .int
  | .float _ => .float
  | .bool _ => .bool
  | .invalid _ => .invalid

/-- Whether the atom says nothing beyond its domain. -/
def isTop : Atom → Bool
  | .int s | .float s => s = .any
  | .bool t => t = .maybe
  | .invalid _ => false

/-- The order: every value described by the first is described by the second. -/
def leq (a b : Atom) : Bool := a = b || (a.domain = b.domain && b.isTop)

end Atom

/-- A use of the sign domain that has no meaning. -/
inductive SignFault where
  | noTop (d : Domain)
  | mismatch (op : Bytes) (a b : Atom)
  | notNumeric (a : Atom)
  | notBool (a : Atom)
  deriving DecidableEq, Repr

/-- How a fault of the sign domain is worded. -/
def SignFault.message : SignFault → Bytes
  | .noTop d => "sign: no top for " ++ d.name
  | .mismatch op a b =>
    "sign: " ++ op ++ " of " ++ a.name ++ " and " ++ b.name ++ ": mismatched domains"
  | .notNumeric a => "sign: " ++ a.name ++ " is not numeric"
  | .notBool a => "sign: " ++ a.name ++ " is not a Bool"

/-- The atom that describes every value of a domain. -/
def Domain.top : Domain → Except SignFault Atom
  | .int => .ok (.int .any)
  | .float => .ok (.float .any)
  | .bool => .ok (.bool .maybe)
  | .invalid => .error (.noTop .invalid)

namespace Atom

/-- Refuses operands that do not belong to one and the same domain. -/
def sameDomain (op : Bytes) (a b : Atom) : Except SignFault Unit :=
  if a.domain = .invalid || a.domain ≠ b.domain then .error (.mismatch op a b) else .ok ()

/-- The least atom above both. -/
def merge (a b : Atom) : Except SignFault Atom := do
  sameDomain "merge" a b
  if a = b then pure a else a.domain.top

end Atom
end Signum
