import Signum.Markdown.Emphasis
import Signum.Markdown.Mention
import Signum.Markdown.Tag
import Signum.Markdown.Target
/- Reading the text of a paragraph or heading as inline content.

   The text is read from left to right. A character that may start something
   else than text is tried there; when it starts nothing, it is text. Links are
   put together when their closing bracket is met, emphasis at the end. -/
namespace Signum.Markdown

/-- How far reading has come. `pieces` and `pending`, the text not yet made a
piece, are kept with the last first, as is `behind`, all the text read. `last` is
the byte before on the same line, since the last piece that is not text, and
`escaped` tells whether a backslash precedes. -/
structure Scan where
  pieces : List Piece
  pending : Bytes
  last : Option UInt8
  escaped : Bool
  behind : Bytes

/-- Where reading starts. -/
def Scan.start : Scan := ⟨[], [], none, false, []⟩

/-- The pieces with the pending text. -/
def Scan.flushed (s : Scan) : List Piece :=
  if s.pending.isEmpty then s.pieces else Piece.addText s.pending.reverse s.pieces

/-- The code point before the next character; a line feed at the start. -/
def Scan.before (s : Scan) : CodePoint :=
  match s.behind with
  | [] => 10
  | behind =>
    let n := (behind.takeWhile CodePoint.isContinuation).length
    (CodePoint.decode (behind.take (n + 1)).reverse).1

/-- The end of a line at the start of a text: how the line ends, whether blanks
before it are kept, and how many bytes it takes after its first. A backslash
breaks the line unless another one precedes it. -/
def lineEnd? (last : Option UInt8) : Bytes → Option (LineEnd × Bool × Nat)
  | 10 :: _ => some (.soft, false, 0)
  | 92 :: 10 :: _ => if last = some 92 then none else some (.hard, true, 1)
  | 92 :: 13 :: 10 :: _ => if last = some 92 then none else some (.hard, true, 2)
  | 32 :: 32 :: 10 :: _ => some (.hard, false, 2)
  | 32 :: 32 :: 13 :: 10 :: _ => some (.hard, false, 3)
  | _ => none

/-- How much text stands before the next run of exactly `n` backticks. -/
def beforeTicks? (n : Nat) (text : Bytes) : Option Nat :=
  match text with
  | [] => none
  | b :: rest =>
    if b = 96 then
      let m := (rest.takeWhile (· == 96)).length
      if m + 1 = n then some 0 else (beforeTicks? n (rest.drop m)).map (· + (m + 1))
    else (beforeTicks? n rest).map (· + 1)
termination_by text.length
decreasing_by all_goals simp only [List.length_drop, List.length_cons]; omega

/-- The content of a code span: one blank is dropped from either end when both
have one and something else is between them. -/
def spanContent (text : Bytes) : Bytes :=
  let isGap : UInt8 → Bool := fun b => b = 32 || b = 10
  if !isBlank text && isGap (text.headD 0) && isGap (text.getLastD 0) then
    (text.drop 1).dropLast
  else text

mutual

/-- Whether there is a link in an inline. -/
def Inline.hasLink : Inline → Bool
  | .link _ _ => true
  | .emphasis _ content | .image _ content => Inline.haveLink content
  | _ => false

/-- Whether there is a link in a sequence of inlines. -/
def Inline.haveLink : List Inline → Bool
  | [] => false
  | i :: rest => Inline.hasLink i || Inline.haveLink rest

end

/-- Whether there is a link among the pieces. -/
def hasLink (pieces : List Piece) : Bool :=
  pieces.any fun
    | .done i => i.hasLink
    | _ => false

/-- The last opening bracket among pieces given the last first: the pieces after
it in order, whether it opens an image, the text after it, and the pieces before
it. -/
def lastBracket? (inner : List Piece) :
    List Piece → Option (List Piece × Bool × Bytes × List Piece)
  | [] => none
  | .bracket image after :: left => some (inner, image, after, left)
  | p :: left => lastBracket? (p :: inner) left

/-- The target of a link whose text, `label`, has just ended, and what follows:
in parentheses, by the label in brackets, or by its own text. Brackets with an
unknown label make it no link. -/
def linkTarget? (definitions : Definitions) (label rest : Bytes) : Option (Target × Bytes) :=
  let short : Option (Target × Bytes) := (definitions.find? label).map (·, rest)
  match rest with
  | 40 :: text => (inlineTarget? text).or short
  | 91 :: text =>
    match enclosed? 91 93 text with
    | some (name, left) =>
      (definitions.find? (if isBlank name then label else name)).map (·, left)
    | none => short
  | _ => short

/-- Reads a closing bracket, given the pieces before it and the text after it:
the pieces after it, and what follows when it ends a link. -/
def closeBracket (definitions : Definitions) (pieces : List Piece) (rest : Bytes) :
    List Piece × Option Bytes :=
  match lastBracket? [] pieces with
  | none => (pieces, none)
  | some (inner, image, after, left) =>
    let label := after.take (after.length - (rest.length + 1))
    let target? := if !image && hasLink inner then none else linkTarget? definitions label rest
    match target? with
    | some (target, following) =>
      let content := emphasise inner
      let node : Inline := if image then .image target content else .link target content
      (.done node :: left, some following)
    | none => (inner.reverse ++ Piece.addText (bracketText image) left, none)

/-- Reads the character `c` before the text `rest` where it may start something
else than text: the pieces after it, and what follows when it does. -/
def special (definitions : Definitions) (pieces : List Piece) (before : CodePoint) (c : UInt8)
    (rest : Bytes) : List Piece × Option Bytes :=
  let add (p : Piece) (following : Bytes) : List Piece × Option Bytes :=
    (p :: pieces, some following)
  if c = 96 then
    let more := (rest.takeWhile (· == 96)).length
    let text := rest.drop more
    match beforeTicks? (more + 1) text with
    | some n => add (.done (.code (spanContent (text.take n)))) (text.drop (n + more + 1))
    | none => add (.done (.text (List.replicate (more + 1) 96) .none)) text
  else if c = 91 then add (.bracket false rest) rest
  else if c = 33 then
    match rest with
    | 91 :: after => add (.bracket true after) after
    | _ => (pieces, none)
  else if c = 93 then closeBracket definitions pieces rest
  else if c = 60 then
    match Address.address? rest with
    | some (email, raw, following) => add (.done (.address email raw)) following
    | none =>
      match Tag.markup? rest with
      | some following => add (.done .markup) following
      | none => (pieces, none)
  else if c = 64 then
    let line := rest.takeWhile (· != Bytes.newline)
    let n := Mention.nameLength line
    if n = 0 then (pieces, none) else add (.done (.mention (rest.take n))) (rest.drop n)
  else
    let more := (rest.takeWhile (· == c)).length
    let following := rest.drop more
    let after := match following with
      | [] => 32
      | _ => (CodePoint.decode following).1
    add (.run (Run.between c (more + 1) before after)) following

/-- Whether the character may start something else than text. -/
def isSpecial (c : UInt8) : Bool :=
  c = 96 || c = 33 || c = 91 || c = 93 || c = 60 || c = 64 || c = 42 || c = 95

/-- The reading after one more character of text. -/
def Scan.text (s : Scan) (c : UInt8) : Scan :=
  { s with pending := c :: s.pending, last := some c, escaped := c = 92 && !s.escaped,
           behind := c :: s.behind }

/-- Reads a text to its end. -/
def scan (definitions : Definitions) (s : Scan) (text : Bytes) : List Piece :=
  match text with
  | [] =>
    if s.pending.isEmpty then s.pieces
    else .done (.text (trimRight s.pending.reverse) .none) :: s.pieces
  | c :: rest =>
    match lineEnd? s.last (c :: rest) with
    | some (ending, keep, n) =>
      let raw := s.pending.reverse
      let run := Inline.text (if keep then raw else trimRight raw) ending
      let behind := ((c :: rest).take (n + 1)).reverse ++ s.behind
      scan definitions
        { s with pieces := .done run :: s.pieces, pending := [], last := none, behind }
        (rest.drop n)
    | none =>
      if isSpecial c && (!s.escaped || s.last.isNone) then
        match special definitions s.flushed s.before c rest with
        | (pieces, some following) =>
          let n := rest.length - following.length
          let behind := (c :: rest.take n).reverse ++ s.behind
          scan definitions { pieces, pending := [], last := none, escaped := s.escaped, behind }
            (rest.drop n)
        | (pieces, none) =>
          scan definitions ({ s with pieces, pending := [], escaped := false }.text c) rest
      else scan definitions (s.text c) rest
termination_by text.length
decreasing_by all_goals simp only [List.length_drop, List.length_cons]; omega

/-- The inline content of a text. -/
def inlines (definitions : Definitions) (text : Bytes) : List Inline :=
  emphasise (scan definitions .start text).reverse

end Signum.Markdown
