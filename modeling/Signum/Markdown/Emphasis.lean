import Signum.Markdown.Tree
import Signum.Text.Blank
import Signum.Text.Punctuation
/- Emphasis from runs of asterisks and underscores.

   Reading a text leaves pieces: finished inlines, runs of one of the two marks,
   and opening brackets that no link has used. What stands on either side of a
   run decides whether it can open or close emphasis. Each run that can close is
   paired with the nearest run to its left that can open, two marks at a time for
   strong emphasis and one otherwise; marks left over are text. -/
namespace Signum.Markdown

/-- A run of one of the marks. `size` is the length it was written with, and
`count` the marks not used yet. -/
structure Run where
  mark : UInt8
  size : Nat
  count : Nat
  opens : Bool
  closes : Bool
  deriving DecidableEq, Repr

/-- The unused marks of a run as text. -/
def Run.text (r : Run) : Bytes := List.replicate r.count r.mark

/-- A run between two code points. A run opens when what follows is not blank,
and is not punctuation unless what precedes is blank or punctuation; closing is
the same from the other side. An underscore inside a word does neither. -/
def Run.between (mark : UInt8) (size : Nat) (before after : CodePoint) : Run :=
  let blankBefore := CodePoint.isBlank before
  let blankAfter := CodePoint.isBlank after
  let punctBefore := CodePoint.isPunctuation before
  let punctAfter := CodePoint.isPunctuation after
  let left := !blankAfter && (!punctAfter || blankBefore || punctBefore)
  let right := !blankBefore && (!punctBefore || blankAfter || punctAfter)
  if mark = 95 then
    { mark, size, count := size, opens := left && (!right || punctBefore),
      closes := right && (!left || punctAfter) }
  else { mark, size, count := size, opens := left, closes := right }

/-- How many marks an opener and a closer give to one emphasis. When one of them
could do both, their sizes must not add to a multiple of three unless both are
multiples of three. -/
def Run.share (opener closer : Run) : Nat :=
  if (opener.closes || closer.opens) && (opener.size + closer.size) % 3 = 0
      && closer.size % 3 != 0 then 0
  else if 2 ≤ opener.count && 2 ≤ closer.count then 2
  else 1

/-- What reading a text leaves. A bracket keeps the text after it, from which
the label of a link is cut. -/
inductive Piece where
  | done (i : Inline)
  | run (r : Run)
  | bracket (image : Bool) (after : Bytes)
  deriving Repr

/-- An opening bracket as text. -/
def bracketText (image : Bool) : Bytes := if image then "![" else "["

/-- Puts text after pieces, given the last first; it continues a run of text
that has not reached the end of its line. -/
def Piece.addText (text : Bytes) : List Piece → List Piece
  | .done (.text raw .none) :: left => .done (.text (raw ++ text) .none) :: left
  | pieces => .done (.text text .none) :: pieces

/-- The pieces as inlines: unused runs and brackets are text. A run continues
the text just before it. -/
def settle : List Piece → List Inline
  | [] => []
  | .done (.text raw .none) :: .run r :: rest => .text (raw ++ r.text) .none :: settle rest
  | .done i :: rest => i :: settle rest
  | .run r :: rest => .text r.text .none :: settle rest
  | .bracket image _ :: rest => .text (bracketText image) .none :: settle rest

/-- The nearest run that can open for a closer: the pieces after it in order, the
run, the pieces before it with the last first, and the marks to use. -/
def opener? (closer : Run) (inner : List Piece) :
    List Piece → Option (List Piece × Run × List Piece × Nat)
  | [] => none
  | .run r :: left =>
    if r.opens && r.mark == closer.mark && 0 < r.share closer then
      some (inner, r, left, r.share closer)
    else opener? closer (.run r :: inner) left
  | p :: left => opener? closer (p :: inner) left

/-- Whether some run could open for the closer but for the rule of three. -/
def blocked (closer : Run) (pieces : List Piece) : Bool :=
  pieces.any fun
    | .run r => r.opens && r.mark == closer.mark
    | _ => false

/-- Pairs a closing run with the pieces before it, given the last first, as often
as its marks last; `fuel` bounds how often that can be. -/
def pairRun : (fuel : Nat) → (before : List Piece) → (closer : Run) → List Piece
  | 0, before, _ => before
  | fuel + 1, before, closer =>
    match opener? closer [] before with
    | some (inner, opener, left, used) =>
      let node := Piece.done (.emphasis (used == 2) (settle inner))
      let rest := { opener with count := opener.count - used }
      let before := node :: (if rest.count = 0 then left else .run rest :: left)
      let closer := { closer with count := closer.count - used }
      if closer.count = 0 then before else pairRun fuel before closer
    | none =>
      if closer.opens || blocked closer before then .run closer :: before
      else Piece.addText closer.text before

/-- Pairs the runs of a sequence of pieces from left to right. -/
def pairRuns (pieces : List Piece) : List Piece :=
  (pieces.foldl (fun before p =>
    match p with
    | .run r => if r.closes then pairRun r.count before r else .run r :: before
    | p => p :: before) []).reverse

/-- The inlines made by a sequence of pieces. -/
def emphasise (pieces : List Piece) : List Inline := settle (pairRuns pieces)

end Signum.Markdown
