import Signum.Text.Bytes
/- Code points in UTF-8 text.

   `decode` reads the first code point of some bytes together with its width.
   A byte that starts no well-formed encoding is read as the replacement
   character with width one, so every text has a reading and every byte is
   consumed once. `encode` writes a code point. -/
namespace Signum

/-- A code point as a number. -/
abbrev CodePoint := Nat

namespace CodePoint

/-- What an ill-formed byte is read as. -/
def replacement : CodePoint := 0xFFFD

/-- Whether the byte continues an encoding. -/
def isContinuation (b : UInt8) : Bool := 0x80 ≤ b && b ≤ 0xBF

/-- The payload of a continuation byte. -/
def payload (b : UInt8) : Nat := b.toNat % 64

/-- A two-byte encoding after the lead byte `a`. -/
def two? (a : UInt8) : Bytes → Option (CodePoint × Nat)
  | b :: _ =>
    if 0xC2 ≤ a && a ≤ 0xDF && isContinuation b then
      some ((a.toNat - 0xC0) * 64 + payload b, 2)
    else none
  | [] => none

/-- A three-byte encoding after the lead byte `a`. -/
def three? (a : UInt8) : Bytes → Option (CodePoint × Nat)
  | b :: c :: _ =>
    if 0xE0 ≤ a && a ≤ 0xEF && isContinuation b && isContinuation c
        && (a != 0xE0 || 0xA0 ≤ b) && (a != 0xED || b ≤ 0x9F) then
      some (((a.toNat - 0xE0) * 64 + payload b) * 64 + payload c, 3)
    else none
  | _ => none

/-- A four-byte encoding after the lead byte `a`. -/
def four? (a : UInt8) : Bytes → Option (CodePoint × Nat)
  | b :: c :: d :: _ =>
    if 0xF0 ≤ a && a ≤ 0xF4 && isContinuation b && isContinuation c && isContinuation d
        && (a != 0xF0 || 0x90 ≤ b) && (a != 0xF4 || b ≤ 0x8F) then
      some ((((a.toNat - 0xF0) * 64 + payload b) * 64 + payload c) * 64 + payload d, 4)
    else none
  | _ => none

/-- The first code point and its width in bytes; the width is 0 at the end of
the text and 1 for an ill-formed byte. Overlong forms, surrogates and numbers
above `0x10FFFF` are ill-formed. -/
def decode : Bytes → CodePoint × Nat
  | [] => (replacement, 0)
  | a :: rest =>
    if a < 0x80 then (a.toNat, 1)
    else match two? a rest with
      | some r => r
      | none => match three? a rest with
        | some r => r
        | none => (four? a rest).getD (replacement, 1)

/-- The UTF-8 bytes of a code point; surrogates and numbers out of range are
written as the replacement character. -/
def encode (c : CodePoint) : Bytes :=
  if c < 0x80 then [c.toUInt8]
  else if c < 0x800 then [(0xC0 + c / 64).toUInt8, (0x80 + c % 64).toUInt8]
  else if (0xD800 ≤ c ∧ c ≤ 0xDFFF) ∨ 0x10FFFF < c then [0xEF, 0xBF, 0xBD]
  else if c < 0x10000 then
    [(0xE0 + c / 4096).toUInt8, (0x80 + c / 64 % 64).toUInt8, (0x80 + c % 64).toUInt8]
  else
    [(0xF0 + c / 262144).toUInt8, (0x80 + c / 4096 % 64).toUInt8,
      (0x80 + c / 64 % 64).toUInt8, (0x80 + c % 64).toUInt8]

/-- The width of an encoding is two to four and within the text. -/
theorem two?_width {a : UInt8} {rest : Bytes} {r : CodePoint × Nat} (h : two? a rest = some r) :
    r.2 = 2 ∧ 1 ≤ rest.length := by
  unfold two? at h
  repeat' split at h
  all_goals simp_all
  subst h
  rfl

theorem three?_width {a : UInt8} {rest : Bytes} {r : CodePoint × Nat} (h : three? a rest = some r) :
    r.2 = 3 ∧ 2 ≤ rest.length := by
  unfold three? at h
  repeat' split at h
  all_goals simp_all
  subst h
  rfl

theorem four?_width {a : UInt8} {rest : Bytes} {r : CodePoint × Nat} (h : four? a rest = some r) :
    r.2 = 4 ∧ 3 ≤ rest.length := by
  unfold four? at h
  repeat' split at h
  all_goals simp_all
  subst h
  rfl

/-- A code point takes at least one byte and at most what there is. -/
theorem decode_width {a : UInt8} {rest : Bytes} :
    1 ≤ (decode (a :: rest)).2 ∧ (decode (a :: rest)).2 ≤ rest.length + 1 := by
  simp only [decode]
  split
  · simp
  · split
    · have := two?_width ‹_›; omega
    · split
      · have := three?_width ‹_›; omega
      · cases h : four? a rest with
        | none => simp
        | some r => have := four?_width h; simp only [Option.getD_some]; omega

/-- The code points of a text, each with the bytes it was read from. -/
def split (text : Bytes) : List (CodePoint × Bytes) :=
  match text with
  | [] => []
  | a :: rest =>
    let (c, w) := decode (a :: rest)
    (c, (a :: rest).take w) :: split (rest.drop (w - 1))
termination_by text.length
decreasing_by simp only [List.length_drop, List.length_cons]; omega

/-- Whether the text is well-formed UTF-8. -/
def wellFormed (text : Bytes) : Bool :=
  (split text).all fun (c, bs) => !(c == replacement && bs.length == 1)

/-- Whether the number lies in one of the ranges, which are in increasing order. -/
def inRanges : List (Nat × Nat) → CodePoint → Bool
  | [], _ => false
  | (lo, hi) :: rest, c => if c < lo then false else if c ≤ hi then true else inRanges rest c

end CodePoint
end Signum
