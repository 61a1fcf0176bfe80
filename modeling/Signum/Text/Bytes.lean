/- Text as a sequence of bytes.

   Sources, messages and files are sequences of bytes: a source need not be
   valid UTF-8, columns count bytes, and a comment keeps whatever bytes it
   holds. `Bytes` is that type, with the few operations on it the rest of the
   library needs. A string literal stands for its UTF-8 bytes. -/
namespace Signum

/-- Text: any sequence of bytes. -/
abbrev Bytes := List UInt8

namespace Bytes

/-- The UTF-8 bytes of a string. -/
def ofString (s : String) : Bytes := s.toUTF8.data.toList

instance : Coe String Bytes := ⟨ofString⟩

/-- The line feed, which ends a line. -/
def newline : UInt8 := 10

/-- Whether the byte is an ASCII decimal digit. -/
def isDigit (b : UInt8) : Bool := 48 ≤ b && b ≤ 57

/-- Whether the byte is an ASCII letter. -/
def isAlpha (b : UInt8) : Bool := (65 ≤ b && b ≤ 90) || (97 ≤ b && b ≤ 122)

/-- Whether the byte is an ASCII letter or digit. -/
def isAlphaNum (b : UInt8) : Bool := isAlpha b || isDigit b

/-- The ASCII lower-case form of a byte. -/
def toLower (b : UInt8) : UInt8 := if 65 ≤ b && b ≤ 90 then b + 32 else b

/-- The digit `d` as a byte, for `d < 10`. -/
def digit (d : Nat) : UInt8 := (48 + d).toUInt8

/-- The decimal digits of a number, most significant first, without leading zeros. -/
def ofNat (n : Nat) : Bytes :=
  if n < 10 then [digit n] else ofNat (n / 10) ++ [digit (n % 10)]
termination_by n
decreasing_by omega

/-- The decimal text of an integer, with a minus sign when it is negative. -/
def ofInt : Int → Bytes
  | .ofNat n => ofNat n
  | .negSucc n => 45 :: ofNat (n + 1)

/-- The hexadecimal digit `d` as a lower-case byte, for `d < 16`. -/
def hexDigit (d : Nat) : UInt8 := if d < 10 then digit d else (87 + d).toUInt8

/-- The low `width` hexadecimal digits of `n`, most significant first. -/
def hex : (width : Nat) → (n : Nat) → Bytes
  | 0, _ => []
  | w + 1, n => hex w (n / 16) ++ [hexDigit (n % 16)]

/-- Whether the byte is a hexadecimal digit in either case of letters. -/
def isHexDigit (b : UInt8) : Bool := isDigit b || (97 ≤ toLower b && toLower b ≤ 102)

/-- The value of a hexadecimal digit. -/
def hexValue (b : UInt8) : Nat := if isDigit b then b.toNat - 48 else (toLower b).toNat - 87

/-- The number a sequence of hexadecimal digits stands for. -/
def hexToNat (ds : Bytes) : Nat := ds.foldl (fun acc d => acc * 16 + hexValue d) 0

/-- The number a sequence of decimal digits stands for. -/
def toNat (ds : Bytes) : Nat := ds.foldl (fun acc d => acc * 10 + (d.toNat - 48)) 0

/-- What is left of `text` after `lead`, when it starts with it. -/
def dropPrefix? : (text lead : Bytes) → Option Bytes
  | text, [] => some text
  | [], _ :: _ => none
  | b :: text, c :: lead => if b = c then dropPrefix? text lead else none

/-- Whether `text` starts with `lead`. -/
def startsWith (text lead : Bytes) : Bool := (dropPrefix? text lead).isSome

/-- Drops `lead` from the start of `text`, when it is there. -/
def trimPrefix (text lead : Bytes) : Bytes := (dropPrefix? text lead).getD text

/-- Drops the bytes satisfying `p` from the end. -/
def dropRightWhile (p : UInt8 → Bool) (text : Bytes) : Bytes :=
  (text.reverse.dropWhile p).reverse

/-- The pieces of `text` between occurrences of the byte `sep`. -/
def splitOn (sep : UInt8) : Bytes → List Bytes
  | [] => [[]]
  | b :: rest =>
    if b = sep then [] :: splitOn sep rest
    else match splitOn sep rest with
      | piece :: pieces => (b :: piece) :: pieces
      | [] => [[b]]

/-- Joins pieces with `sep` between neighbours. -/
def join (sep : Bytes) : List Bytes → Bytes
  | [] => []
  | [x] => x
  | x :: y :: rest => x ++ sep ++ join sep (y :: rest)

/-- The text cut at the first occurrence of `sep`, which is in neither part. -/
def cut (sep : UInt8) : Bytes → Option (Bytes × Bytes)
  | [] => none
  | b :: rest =>
    if b = sep then some ([], rest)
    else (cut sep rest).map fun (l, r) => (b :: l, r)

/-- Whether `part` occurs in `text`. -/
def hasInfix (text part : Bytes) : Bool :=
  match text with
  | [] => part.isEmpty
  | _ :: rest => startsWith text part || hasInfix rest part

/-- The text `n` times over. -/
def times (text : Bytes) (n : Nat) : Bytes := (List.replicate n text).flatten

end Bytes
end Signum
