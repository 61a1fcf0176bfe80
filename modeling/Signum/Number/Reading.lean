import Signum.Number.Binary64
import Signum.Text.Bytes
/- Reading numbers from text.

   `readInt64?` reads a decimal integer with an optional sign that fits 64
   bits, and `readAnyInt64?` one in a base that its lead tells. `Binary64.read?`
   reads a decimal or hexadecimal number, or the name of an infinity or of "not a
   number", and rounds it once. Text that is not a number, and a number too large
   for the format, are refused. -/
namespace Signum

/-- The sign at the start of a text, and the rest. -/
def splitSign : Bytes → Bool × Bytes
  | 43 :: rest => (false, rest)
  | 45 :: rest => (true, rest)
  | text => (false, text)

/-- A decimal integer with an optional sign that fits 64 bits. -/
def readInt64? (text : Bytes) : Option Int64 :=
  let (negative, ds) := splitSign text
  if ds.isEmpty || !ds.all Bytes.isDigit then none
  else
    let n := Bytes.toNat ds
    if negative then if n ≤ Nat.pow 2 63 then some (Int64.ofInt (-n)) else none
    else if n < Nat.pow 2 63 then some (Int64.ofInt n) else none

namespace Binary64

/-- Whether the two texts agree up to the case of ASCII letters; `name` is in
lower case. -/
def isNamed (text name : Bytes) : Bool := text.map Bytes.toLower == name

/-- The infinities and "not a number", by name. Only an infinity has a sign. -/
def readNamed? (text : Bytes) : Option Binary64 :=
  let (negative, rest) := splitSign text
  if isNamed rest "inf" || isNamed rest "infinity" then some (.infinite negative)
  else if isNamed text "nan" then some .nan
  else none

/-- Whether every underscore of a number (without its sign) stands between two
digits, `afterDigit` telling whether a digit came just before; a hexadecimal
number's lead counts as a digit. -/
def underscoresOk (isDigit : UInt8 → Bool) : (afterDigit : Bool) → Bytes → Bool
  | _, [] => true
  | afterDigit, 95 :: rest =>
    afterDigit && (match rest with | c :: _ => isDigit c | [] => false)
      && underscoresOk isDigit false rest
  | _, b :: rest => underscoresOk isDigit (isDigit b) rest

/-- Digits as they are read: how many come after the point, once one was seen. -/
structure Significand where
  value : Nat
  anyDigit : Bool
  places : Option Nat
  deriving Repr

/-- Reads digits, underscores and at most one point, and returns the rest. -/
def readSignificand (base : Nat) (isDigit : UInt8 → Bool) (acc : Significand) :
    Bytes → Significand × Bytes
  | [] => (acc, [])
  | b :: rest =>
    if b = 95 then readSignificand base isDigit acc rest
    else if b = 46 ∧ acc.places.isNone then
      readSignificand base isDigit { acc with places := some 0 } rest
    else if isDigit b then
      readSignificand base isDigit
        { value := acc.value * base + Bytes.hexValue b, anyDigit := true,
          places := acc.places.map (· + 1) } rest
    else (acc, b :: rest)

/-- The number the digits of an exponent stand for; further digits are ignored
once it is too large to matter. -/
def exponentValue (ds : Bytes) : Nat :=
  ds.foldl (fun e d => if d = 95 ∨ 10000 ≤ e then e else e * 10 + (d.toNat - 48)) 0

/-- Reads the exponent that ends a number: an optional sign and digits, the first
of which is no underscore. -/
def readExponent? (text : Bytes) : Option Int :=
  let (negative, ds) := splitSign text
  match ds with
  | d :: _ =>
    if Bytes.isDigit d && ds.all (fun b => Bytes.isDigit b || b == 95) then
      some (if negative then -(exponentValue ds : Int) else exponentValue ds)
    else none
  | [] => none

/-- The number nearest to `value * base ^ exponent`, unless it is too large. A
power so large or so small that the result is certain is not computed. -/
def scale? (negative : Bool) (base value : Nat) (exponent : Int) : Option Binary64 :=
  let size : Int := value.log2
  let width : Int := if base = 2 then 1 else 3
  if value = 0 then some (.finite negative 0)
  else if exponent > 0 ∧ size + exponent * width > 1100 then none
  else if exponent < 0 ∧ size + exponent * width < -1200 then some (.finite negative 0)
  else
    let r := match exponent with
      | .ofNat k => ofRatio negative (value * Nat.pow base k * Nat.pow 2 unitShift) 1
      | .negSucc k => ofRatio negative (value * Nat.pow 2 unitShift) (Nat.pow base (k + 1))
    match r with
    | .infinite _ => none
    | r => some r

/-- A decimal number. -/
def readDecimal? (negative : Bool) (text : Bytes) : Option Binary64 :=
  let (m, rest) := readSignificand 10 Bytes.isDigit ⟨0, false, none⟩ text
  let places : Int := m.places.getD 0
  if !m.anyDigit || !underscoresOk Bytes.isDigit false text then none
  else match rest with
    | [] => scale? negative 10 m.value (-places)
    | b :: rest =>
      if Bytes.toLower b = 101 then
        (readExponent? rest).bind fun e => scale? negative 10 m.value (e - places)
      else none

/-- A hexadecimal number, after its lead; it must have an exponent, which is of two. -/
def readHex? (negative : Bool) (text : Bytes) : Option Binary64 :=
  let (m, rest) := readSignificand 16 Bytes.isHexDigit ⟨0, false, none⟩ text
  let places : Int := m.places.getD 0
  if !m.anyDigit || !underscoresOk Bytes.isHexDigit true text then none
  else match rest with
    | b :: rest =>
      if Bytes.toLower b = 112 then
        (readExponent? rest).bind fun e => scale? negative 2 m.value (e - 4 * places)
      else none
    | [] => none

/-- A number in any of the accepted spellings. -/
def read? (text : Bytes) : Option Binary64 :=
  match readNamed? text with
  | some x => some x
  | none =>
    let (negative, rest) := splitSign text
    match rest with
    | 48 :: x :: c :: rest' =>
      if Bytes.toLower x = 120 then readHex? negative (c :: rest')
      else readDecimal? negative rest
    | _ => readDecimal? negative rest

end Binary64

/-- Whether the byte is a digit in a base up to sixteen. -/
def isDigitIn (base : Nat) (b : UInt8) : Bool := Bytes.isHexDigit b && Bytes.hexValue b < base

/-- The base of an unsigned integer, its digits, and whether something leads them:
`0b`, `0o`, `0x`, or a zero for the base eight. -/
def splitBase : Bytes → Nat × Bytes × Bool
  | 48 :: x :: d :: rest =>
    if Bytes.toLower x = 98 then (2, d :: rest, true)
    else if Bytes.toLower x = 111 then (8, d :: rest, true)
    else if Bytes.toLower x = 120 then (16, d :: rest, true)
    else (8, x :: d :: rest, true)
  | 48 :: rest => (8, rest, true)
  | text => (10, text, false)

/-- An integer in a base of its choice that fits 64 bits. Its digits may be set
apart by underscores. -/
def readAnyInt64? (text : Bytes) : Option Int64 :=
  let (negative, rest) := splitSign text
  let (base, digits, lead) := splitBase rest
  if rest.isEmpty || !digits.all (fun b => isDigitIn base b || b == 95)
      || !Binary64.underscoresOk (isDigitIn base) lead digits then none
  else
    let n := (digits.filter (· != 95)).foldl (fun n d => n * base + Bytes.hexValue d) 0
    if negative then if n ≤ Nat.pow 2 63 then some (Int64.ofInt (-n)) else none
    else if n < Nat.pow 2 63 then some (Int64.ofInt n) else none

end Signum
