import Signum.Text.CodePoint
/- White space, and the words it separates. -/
namespace Signum.CodePoint

/-- Whether the code point is white space in any script. -/
def isBlank (c : CodePoint) : Bool :=
  inRanges [(9, 13), (32, 32), (0x85, 0x85), (0xA0, 0xA0), (0x1680, 0x1680), (0x2000, 0x200A),
    (0x2028, 0x2029), (0x202F, 0x202F), (0x205F, 0x205F), (0x3000, 0x3000)] c

end Signum.CodePoint

namespace Signum.Bytes

/-- Drops white space from both ends. -/
def trim (text : Bytes) : Bytes :=
  let points := CodePoint.split text
  let blank : CodePoint × Bytes → Bool := fun p => CodePoint.isBlank p.1
  (((points.dropWhile blank).reverse.dropWhile blank).reverse.map Prod.snd).flatten

/-- Cuts the text before its first white space; `taken` holds, in reverse, the
bytes already taken. -/
def takeWord (taken : Bytes) : Bytes → Bytes × Bytes
  | [] => (taken.reverse, [])
  | a :: rest =>
    let (c, w) := CodePoint.decode (a :: rest)
    if CodePoint.isBlank c then (taken.reverse, a :: rest)
    else takeWord ((a :: rest.take (w - 1)).reverse ++ taken) (rest.drop (w - 1))
termination_by text => text.length
decreasing_by simp only [List.length_drop, List.length_cons]; omega

/-- Drops white space from the start. -/
def dropBlanks : Bytes → Bytes
  | [] => []
  | a :: rest =>
    let (c, w) := CodePoint.decode (a :: rest)
    if CodePoint.isBlank c then dropBlanks (rest.drop (w - 1)) else a :: rest
termination_by text => text.length
decreasing_by simp only [List.length_drop, List.length_cons]; omega

/-- The first word of a text, a longest run of code points that are not white
space, and what follows it. -/
def nextWord? (text : Bytes) : Option (Bytes × Bytes) :=
  match dropBlanks text with
  | [] => none
  | rest => some (takeWord [] rest)

end Signum.Bytes
