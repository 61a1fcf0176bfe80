import Signum.Markdown.Entity
import Signum.Text.Punctuation
/- Characters in markdown text: blanks, escapes and character references.

   A backslash before ASCII punctuation stands for that character. A reference
   is a name or a number between `&` and `;`. -/
namespace Signum.Markdown

/-- Whether the byte is an ASCII blank, including the ends of lines. -/
def isSpace (b : UInt8) : Bool := b = 32 || (9 ≤ b && b ≤ 13)

/-- Whether a text holds nothing but blanks. -/
def isBlank (text : Bytes) : Bool := text.all isSpace

/-- Drops blanks from the start. -/
def trimLeft (text : Bytes) : Bytes := text.dropWhile isSpace

/-- Drops blanks from the end. -/
def trimRight (text : Bytes) : Bytes := text.dropRightWhile isSpace

/-- The code point a numeric reference stands for: the replacement character
for 0 and for numbers that are not code points. -/
def referred (n : Nat) : CodePoint :=
  if n = 0 ∨ (0xD800 ≤ n ∧ n ≤ 0xDFFF) ∨ 0x10FFFF < n then CodePoint.replacement else n

/-- The numeric reference after `&`: what it stands for, and how many bytes it
takes there. The number has at most seven decimal or six hexadecimal digits. -/
def numeric? (text : Bytes) : Option (Bytes × Nat) :=
  match text with
  | 35 :: x :: rest =>
    if x = 120 ∨ x = 88 then
      let digits := rest.takeWhile Bytes.isHexDigit
      if digits.isEmpty ∨ 6 < digits.length ∨ rest[digits.length]? ≠ some 59 then none
      else some (CodePoint.encode (referred (Bytes.hexToNat digits)), digits.length + 3)
    else
      let digits := (x :: rest).takeWhile Bytes.isDigit
      if digits.isEmpty ∨ 7 < digits.length ∨ (x :: rest)[digits.length]? ≠ some 59 then none
      else some (CodePoint.encode (referred (Bytes.toNat digits)), digits.length + 2)
  | _ => none

/-- The named reference after `&`: what it stands for, and how many bytes it
takes there. -/
def named? (text : Bytes) : Option (Bytes × Nat) :=
  let name := text.takeWhile Bytes.isAlphaNum
  if name.isEmpty ∨ text[name.length]? ≠ some 59 then none
  else (entity? name).map fun value => (value, name.length + 1)

/-- One step of reading text: either a byte that stands for itself, or what a
reference stands for. -/
inductive Character where
  | byte (b : UInt8)
  | reference (value : Bytes)
  deriving DecidableEq, Repr

/-- Text with its escapes and references resolved. -/
def characters (text : Bytes) : List Character :=
  match text with
  | [] => []
  | [b] => [.byte b]
  | b :: c :: rest =>
    if b = 92 ∧ Bytes.isPunct c then .byte c :: characters rest
    else if b = 38 then
      match (numeric? (c :: rest)).or (named? (c :: rest)) with
      | some (value, n) => .reference value :: characters ((c :: rest).drop n)
      | none => .byte b :: characters (c :: rest)
    else .byte b :: characters (c :: rest)
termination_by text.length
decreasing_by all_goals simp only [List.length_drop, List.length_cons]; omega

/-- Text without the backslashes of its escapes. -/
def unescape : Bytes → Bytes
  | b :: c :: rest =>
    if b = 92 ∧ Bytes.isPunct c then c :: unescape rest else b :: unescape (c :: rest)
  | text => text

/-- Text with the references that `find?` recognises replaced by what they stand
for. -/
def resolve (find? : Bytes → Option (Bytes × Nat)) (text : Bytes) : Bytes :=
  match text with
  | [] => []
  | b :: rest =>
    match if b = 38 then find? rest else none with
    | some (value, n) => value ++ resolve find? (rest.drop n)
    | none => b :: resolve find? rest
termination_by text.length
decreasing_by all_goals simp only [List.length_drop, List.length_cons]; omega

end Signum.Markdown
