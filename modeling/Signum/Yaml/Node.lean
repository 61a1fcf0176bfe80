import Signum.Number.Reading
/- Values of a YAML document.

   A scalar is text. When it is written plainly, its text may stand for nothing,
   a truth value or a number; when it is quoted it stands for itself. -/
namespace Signum.Yaml

/-- A value. The pairs of a mapping are in the order written. -/
inductive Node where
  | scalar (quoted : Bool) (text : Bytes)
  | sequence (items : List Node)
  | mapping (pairs : List (Node × Node))
  deriving Repr

/-- The value where nothing is written. -/
def Node.absent : Node := .scalar false []

/-- What a scalar stands for. -/
inductive Meaning where
  | null
  | bool (value : Bool)
  | int (value : Int)
  | float (value : Binary64)
  | text (value : Bytes)
  deriving Repr

/-- Whether the text is one of the given words. -/
def isOneOf (text : Bytes) (words : List String) : Bool :=
  words.any fun w => Bytes.ofString w == text

/-- The digits in a base, as a number; there has to be at least one. -/
def digits? (base : Nat) (text : Bytes) : Option Nat :=
  if text.isEmpty then none
  else text.foldl (fun acc b =>
    match acc with
    | none => none
    | some n =>
      if Bytes.isHexDigit b && Bytes.hexValue b < base then some (n * base + Bytes.hexValue b)
      else none) (some 0)

/-- The magnitude of an integer: hexadecimal after `0x`, octal after `0o` or `0`,
binary after `0b`, and decimal otherwise. -/
def magnitude? (text : Bytes) : Option Nat :=
  match text with
  | 48 :: x :: rest =>
    if x = 120 || x = 88 then digits? 16 rest
    else if x = 111 || x = 79 then digits? 8 rest
    else if x = 98 || x = 66 then digits? 2 rest
    else digits? 8 (x :: rest)
  | _ => digits? 10 text

/-- An integer that fits 64 bits, with or without a sign. Only without one it
may be as large as an unsigned number allows. -/
def integer? (text : Bytes) : Option Int :=
  let signed := text.head? = some 43 || text.head? = some 45
  let (negative, rest) := splitSign text
  match magnitude? rest with
  | none => none
  | some n =>
    if negative then if n ≤ Nat.pow 2 63 then some (-n) else none
    else if n < (if signed then Nat.pow 2 63 else Nat.pow 2 64) then some n else none

/-- Whether the text is a decimal number: digits with or without a point, then an
exponent or none. -/
def isDecimal (text : Bytes) : Bool :=
  let (_, start) := splitSign text
  let whole := start.takeWhile Bytes.isDigit
  let rest := start.drop whole.length
  let (fraction, rest) : Option Bytes × Bytes := match rest with
    | 46 :: more => (some (more.takeWhile Bytes.isDigit), more.dropWhile Bytes.isDigit)
    | _ => (none, rest)
  let wellFormed := !whole.isEmpty || !(fraction.getD []).isEmpty
  let exponent := match rest with
    | [] => true
    | e :: more =>
      let (_, ds) := splitSign more
      (e = 101 || e = 69) && !ds.isEmpty && ds.all Bytes.isDigit
  wellFormed && exponent

/-- What a number written plainly stands for. Underscores in it are ignored. -/
def numeral? (text : Bytes) : Option Meaning :=
  let plain := text.filter (· != 95)
  match integer? plain with
  | some i => some (.int i)
  | none => if isDecimal plain then (Binary64.read? plain).map .float else none

/-- What a plain scalar stands for. -/
def plainMeaning (text : Bytes) : Meaning :=
  if isOneOf text ["", "~", "null", "Null", "NULL"] then .null
  else if isOneOf text ["true", "True", "TRUE"] then .bool true
  else if isOneOf text ["false", "False", "FALSE"] then .bool false
  else if isOneOf text [".nan", ".NaN", ".NAN"] then .float .nan
  else if isOneOf text [".inf", ".Inf", ".INF", "+.inf", "+.Inf", "+.INF"] then
    .float (.infinite false)
  else if isOneOf text ["-.inf", "-.Inf", "-.INF"] then .float (.infinite true)
  else match text with
    | 46 :: _ => ((Binary64.read? text).map Meaning.float).getD (.text text)
    | b :: _ =>
      if Bytes.isDigit b || b = 43 || b = 45 then (numeral? text).getD (.text text)
      else .text text
    | [] => .null

/-- What a scalar stands for. -/
def meaning (quoted : Bool) (text : Bytes) : Meaning :=
  if quoted then .text text else plainMeaning text

/-- Whether a value is a plain scalar that stands for nothing. -/
def Node.isNull : Node → Bool
  | .scalar quoted text =>
    match meaning quoted text with
    | .null => true
    | _ => false
  | _ => false

end Signum.Yaml
