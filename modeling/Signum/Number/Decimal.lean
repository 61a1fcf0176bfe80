import Signum.Number.Reading
/- Decimal texts of binary floating-point numbers.

   `shortest` finds the decimal with the fewest digits that is nearer to the
   number than to any other number of the format, and of those the one nearest
   to the number: the fewest digits that read back. The texts of the library
   differ only in how they lay these digits out. `plain` writes them around a
   point, `scientific` with a power of ten. What a program prints is made of
   these texts (`display`). -/
namespace Signum

/-- The decimal number `coefficient * 10 ^ exponent`. -/
structure Decimal where
  coefficient : Nat
  exponent : Int
  deriving DecidableEq, Repr

namespace Decimal

/-- Whether `c * 10 ^ p` compared with `q / 2 ^ 1076` (a quarter of a unit) is
less, equal or greater. -/
def compareQuarters (c : Nat) (p : Int) (q : Nat) : Ordering :=
  match p with
  | .ofNat k => compare (c * Nat.pow 10 k * Nat.pow 2 1076) q
  | .negSucc k => compare (c * Nat.pow 2 1076) (q * Nat.pow 10 (k + 1))

/-- Whether `c * 10 ^ p` reads back as the number of `n` units. The reals that
round to it reach half way to its neighbours; the lower neighbour of a power of
two is only half as far. The ends belong to it when its significand is even. -/
def readsBack (n c : Nat) (p : Int) : Bool :=
  let k := Binary64.excess n
  let gap := Nat.pow 2 k
  let below := if 0 < k ∧ n = Nat.pow 2 n.log2 then gap else 2 * gap
  let low := compareQuarters c p (4 * n - below)
  let high := compareQuarters c p (4 * n + 2 * gap)
  if n / gap % 2 = 0 then low.isGE && high.isLE else low.isGT && high.isLT

/-- The integer part of the number of `n` units divided by `10 ^ p`. -/
def quotient (n : Nat) (p : Int) : Nat :=
  match p with
  | .ofNat k => n / (Nat.pow 10 k * Nat.pow 2 1074)
  | .negSucc k => n * Nat.pow 10 (k + 1) / Nat.pow 2 1074

/-- The least `e` at or above `e₀` with the number of `n` units below `10 ^ e`,
looked for in at most `fuel` steps. -/
def exponentFrom (n : Nat) : (fuel : Nat) → (e₀ : Int) → Int
  | 0, e => e
  | fuel + 1, e => if quotient n e = 0 then e else exponentFrom n fuel (e + 1)

/-- The least `e` with the number of `n` units below `10 ^ e`, for `n ≠ 0`. -/
def decimalExponent (n : Nat) : Int :=
  exponentFrom n 4 (((n.log2 : Int) - 1074) * 30103 / 100000 - 1)

/-- The candidate of the two neighbours `c` and `c + 1` of the number of `n`
units, in units of `10 ^ p`, that reads back and is nearer. -/
def pick? (n : Nat) (p : Int) : Option Nat :=
  let c := quotient n p
  match readsBack n c p, readsBack n (c + 1) p with
  | true, false => some c
  | false, true => some (c + 1)
  | false, false => none
  | true, true =>
    -- twice the number against the sum of the two candidates
    match compareQuarters (2 * c + 1) p (8 * n) with
    | .gt => some c
    | .lt => some (c + 1)
    | .eq => some (if c % 2 = 0 then c else c + 1)

/-- Moves trailing zeros of the coefficient into the exponent, at most `fuel`. -/
def stripZeros : (fuel : Nat) → Decimal → Decimal
  | 0, d => d
  | fuel + 1, d =>
    if d.coefficient ≠ 0 ∧ d.coefficient % 10 = 0 then
      stripZeros fuel ⟨d.coefficient / 10, d.exponent + 1⟩
    else d

/-- The first decimal that reads back as the number of `n` units, with `digits`
digits or more, trying at most `fuel` lengths. -/
def shortestFrom (n : Nat) (e : Int) : (fuel digits : Nat) → Decimal
  | 0, digits => ⟨quotient n (e - digits), e - digits⟩
  | fuel + 1, digits =>
    match pick? n (e - digits) with
    | some c => stripZeros 20 ⟨c, e - digits⟩
    | none => shortestFrom n e fuel (digits + 1)

/-- The shortest decimal that reads back as the number of `n` units. -/
def shortest (n : Nat) : Decimal :=
  if n = 0 then ⟨0, 0⟩ else shortestFrom n (decimalExponent n) 17 1

/-- The digits of the coefficient. -/
def digits (d : Decimal) : Bytes := Bytes.ofNat d.coefficient

/-- The exponent of the leading digit. -/
def leading (d : Decimal) : Int := d.exponent + d.digits.length - 1

/-- The digits around a decimal point; no point when there is no fraction. -/
def plain (d : Decimal) : Bytes :=
  match d.exponent with
  | .ofNat k => d.digits ++ List.replicate k 48
  | .negSucc k =>
    let ds := d.digits
    let places := k + 1
    if ds.length ≤ places then
      "0." ++ (List.replicate (places - ds.length) 48 : Bytes) ++ ds
    else ds.take (ds.length - places) ++ "." ++ ds.drop (ds.length - places)

/-- One digit, a point and the other digits; no point when there is one digit. -/
def mantissa (d : Decimal) : Bytes :=
  match d.digits with
  | [] => []
  | [x] => [x]
  | x :: rest => x :: 46 :: rest

/-- A power of ten, with its sign and two digits or more. -/
def powerText (e : Int) : Bytes :=
  let digits := Bytes.ofNat e.natAbs
  (if e < 0 then "-" else "+") ++ (if digits.length < 2 then 48 :: digits else digits)

/-- The digits with a power of ten after a mark. -/
def scientific (mark : UInt8) (d : Decimal) : Bytes :=
  d.mantissa ++ mark :: powerText d.leading

/-- The text with `.0` added when it holds no point. -/
def withPoint (text : Bytes) : Bytes :=
  if text.contains 46 then text else text ++ ".0"

/-- A text with a power of ten after `E`, with a point among its digits and its
power written as integers are. -/
def rewritePower (text : Bytes) : Bytes :=
  let (mantissa, power) := (Bytes.cut 69 text).getD (text, [])
  withPoint mantissa ++ "E" ++ Bytes.ofInt ((readInt64? power).getD 0).toInt

end Decimal

namespace Binary64

/-- The sign of a number as text. -/
def signText (negative : Bool) : Bytes := if negative then "-" else []

/-- The number nearest to a thousandth. -/
def thousandth : Binary64 := ofRatio false (Nat.pow 2 unitShift) 1000

/-- Ten million. -/
def tenMillion : Binary64 := ofRatio false (10000000 * Nat.pow 2 unitShift) 1

/-- What a program prints for a number: plain digits with at least one after the
point from `10 ^ -3` up to `10 ^ 7`, and else one digit before the point and a
power of ten after `E`. -/
def display : Binary64 → Bytes
  | .nan => "NaN"
  | .infinite s => signText s ++ "Infinity"
  | .finite s n =>
    let d := Decimal.shortest n
    let abs := Binary64.finite false n
    if n = 0 then signText s ++ "0.0"
    else if thousandth.le abs ∧ abs.lt tenMillion then Decimal.withPoint (signText s ++ d.plain)
    else Decimal.rewritePower (signText s ++ d.scientific 69)

/-- The text of a number as a literal: plain digits with a point. -/
def literal : Binary64 → Bytes
  | .nan => "NaN.0"
  | .infinite s => (if s then "-" else "+") ++ "Inf.0"
  | .finite s n => signText s ++ Decimal.withPoint (Decimal.shortest n).plain

/-- The general text of a number: plain digits while the leading digit's exponent
is at least `-4` and below 6, and else a power of ten of at least two digits. -/
def general : Binary64 → Bytes
  | .nan => "NaN"
  | .infinite s => (if s then "-" else "+") ++ "Inf"
  | .finite s n =>
    let d := Decimal.shortest n
    let e := d.leading
    signText s ++
      (if n = 0 then Bytes.ofString "0"
      else if e < -4 ∨ 6 ≤ e then d.scientific 101
      else d.plain)

end Binary64
end Signum
