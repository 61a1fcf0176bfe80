import Signum.Text.Printable
/- Quoted text and quoted characters.

   A quoted text stands between double quotes and a quoted character between
   single ones. Printable code points stand for themselves, the common control
   characters have a letter, a byte that is not part of a well-formed encoding
   is written as `\xff`, and other code points by number. -/
namespace Signum.Bytes

/-- The letter that stands for a control character after a backslash. -/
def escapeLetter? : CodePoint → Option UInt8
  | 7 => some 97
  | 8 => some 98
  | 12 => some 102
  | 10 => some 110
  | 13 => some 114
  | 9 => some 116
  | 11 => some 118
  | _ => none

/-- One code point inside quotes made with the character `quote`. -/
def escape (quote : UInt8) (c : CodePoint) : Bytes :=
  if c = quote.toNat ∨ c = 92 then [92, c.toUInt8]
  else if CodePoint.isPrintable c then CodePoint.encode c
  else match escapeLetter? c with
    | some l => [92, l]
    | none =>
      if c < 32 ∨ c = 127 then [92, 120] ++ hex 2 c
      else if c < 0x10000 then [92, 117] ++ hex 4 c
      else [92, 85] ++ hex 8 c

/-- The text between double quotes. -/
def quoted (text : Bytes) : Bytes :=
  let piece : CodePoint × Bytes → Bytes := fun (c, bs) =>
    match bs with
    | [b] => if 0x80 ≤ b then [92, 120] ++ hex 2 b.toNat else escape 34 c
    | _ => escape 34 c
  34 :: ((CodePoint.split text).map piece).flatten ++ [34]

/-- The code point between single quotes. -/
def quotedChar (c : CodePoint) : Bytes := 39 :: escape 39 c ++ [39]

end Signum.Bytes
