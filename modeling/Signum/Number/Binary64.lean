/- Binary floating-point numbers of 64 bits, computed exactly.

   Every finite number of the format is a whole multiple of `2 ^ -1074`, so a
   finite number is a sign and a count of such units. An operation computes
   its exact result as a ratio of integers and rounds once, to the nearest
   number of the format with ties to the one of even significand; what reaches
   `2 ^ 1024` becomes infinite. There is one "not a number", and zero has a
   sign. `ofBits` and `toBits` relate the numbers to their bit patterns. -/
namespace Signum

/-- A binary floating-point number: `finite s n` is `n * 2 ^ -1074`, negated
when `s` is true. -/
inductive Binary64 where
  | nan
  | infinite (negative : Bool)
  | finite (negative : Bool) (units : Nat)
  deriving DecidableEq, Repr

namespace Binary64

/-- Units in the number one, as a power of two. -/
def unitShift : Nat := 1074

/-- Binary digits of a significand. -/
def precision : Nat := 53

/-- Where the finite numbers end: `2 ^ 1024` in units. -/
def limit : Nat := Nat.pow 2 (1024 + unitShift)

/-- The integer nearest to `num / den`, a tie going to the even one. -/
def roundQuotient (num den : Nat) : Nat :=
  let q := num / den
  let r := num % den
  if 2 * r < den then q
  else if den < 2 * r then q + 1
  else if q % 2 = 0 then q else q + 1

/-- How many low binary digits of `n` a significand has no room for. -/
def excess (n : Nat) : Nat := n.log2 + 1 - precision

/-- The count of units of the format nearest to `num / den` units. -/
def nearest (num den : Nat) : Nat :=
  let k := excess (num / den)
  roundQuotient num (den * Nat.pow 2 k) * Nat.pow 2 k

/-- The number of the format nearest to `num / den` units. -/
def ofRatio (negative : Bool) (num den : Nat) : Binary64 :=
  let n := nearest num den
  if n < limit then .finite negative n else .infinite negative

def zero : Binary64 := .finite false 0

/-- The number with the other sign. -/
def neg : Binary64 → Binary64
  | .nan => .nan
  | .infinite s => .infinite !s
  | .finite s n => .finite (!s) n

/-- The units of a finite number with their sign. -/
def signed (negative : Bool) (units : Nat) : Int := if negative then -units else units

/-- The sum. An exact zero is negative only when both operands are. -/
def add : Binary64 → Binary64 → Binary64
  | .nan, _ | _, .nan => .nan
  | .infinite s, .infinite t => if s = t then .infinite s else .nan
  | .infinite s, .finite _ _ => .infinite s
  | .finite _ _, .infinite t => .infinite t
  | .finite s m, .finite t n =>
    let sum := signed s m + signed t n
    if sum = 0 then .finite (s && t) 0 else ofRatio (sum < 0) sum.natAbs 1

/-- The difference. -/
def sub (a b : Binary64) : Binary64 := add a b.neg

/-- The product. -/
def mul : Binary64 → Binary64 → Binary64
  | .nan, _ | _, .nan => .nan
  | .infinite s, .infinite t => .infinite (s != t)
  | .infinite s, .finite t n => if n = 0 then .nan else .infinite (s != t)
  | .finite s m, .infinite t => if m = 0 then .nan else .infinite (s != t)
  | .finite s m, .finite t n => ofRatio (s != t) (m * n) (Nat.pow 2 unitShift)

/-- The quotient. -/
def div : Binary64 → Binary64 → Binary64
  | .nan, _ | _, .nan => .nan
  | .infinite _, .infinite _ => .nan
  | .infinite s, .finite t _ => .infinite (s != t)
  | .finite s _, .infinite t => .finite (s != t) 0
  | .finite s m, .finite t n =>
    if n = 0 then if m = 0 then .nan else .infinite (s != t)
    else ofRatio (s != t) (m * Nat.pow 2 unitShift) n

/-- Whether the number is a zero of either sign. -/
def isZero : Binary64 → Bool
  | .finite _ n => n = 0
  | _ => false

/-- Equality of numbers: the zeros are equal, and "not a number" equals nothing. -/
def eq : Binary64 → Binary64 → Bool
  | .infinite s, .infinite t => s = t
  | .finite s m, .finite t n => signed s m = signed t n
  | _, _ => false

/-- The order of numbers, to which "not a number" does not belong. -/
def lt : Binary64 → Binary64 → Bool
  | .infinite s, .infinite t => s && !t
  | .infinite s, .finite _ _ => s
  | .finite _ _, .infinite t => !t
  | .finite s m, .finite t n => signed s m < signed t n
  | _, _ => false

/-- Less or equal. -/
def le (a b : Binary64) : Bool := lt a b || eq a b

/-- The number with the given bit pattern. -/
def ofBits (bits : UInt64) : Binary64 :=
  let b := bits.toNat
  let negative := b / Nat.pow 2 63 % 2 = 1
  let exponent := b / Nat.pow 2 52 % 2048
  let fraction := b % Nat.pow 2 52
  if exponent = 2047 then if fraction = 0 then .infinite negative else .nan
  else if exponent = 0 then .finite negative fraction
  else .finite negative ((Nat.pow 2 52 + fraction) * Nat.pow 2 (exponent - 1))

/-- The bit pattern of a number. -/
def toBits : Binary64 → UInt64
  | .nan => 0x7FF8000000000001
  | .infinite s => signBit s ||| 0x7FF0000000000000
  | .finite s n =>
    if n < Nat.pow 2 52 then signBit s ||| n.toUInt64
    else
      let k := n.log2 - 52
      signBit s ||| ((k + 1) * Nat.pow 2 52 + (n / Nat.pow 2 k - Nat.pow 2 52)).toUInt64
where
  /-- The bit of the sign. -/
  signBit (s : Bool) : UInt64 := if s then 0x8000000000000000 else 0

end Binary64
end Signum
