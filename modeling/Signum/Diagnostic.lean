import Signum.Failure
import Signum.Text.Cluster
/- Showing a problem against the source it points into.

   A diagnostic names the file, the row and the column, the kind and the message,
   and shows the line with a caret under the place. Columns shown to people count
   grapheme clusters from one, however texts are cut into them; a tab in the line
   stays a tab above the caret, so that the caret lines up however tabs are
   displayed. -/
namespace Signum

/-- A problem at a place, which need not lie in any source. -/
structure Diagnostic where
  kind : ErrorKind
  row : Int
  column : Int
  message : Bytes
  deriving DecidableEq, Repr

/-- A failure as a diagnostic, at the start of its span. -/
def Failure.diagnostic (f : Failure) : Diagnostic :=
  ⟨f.kind, f.span.start.row, f.span.start.column, f.message⟩

namespace Diagnostic

/-- The message after a colon, when there is one. -/
def messageTail (message : Bytes) : Bytes :=
  if message.isEmpty then [] else ": " ++ message

/-- The place counted from one in bytes, the kind and the message. -/
def text (d : Diagnostic) : Bytes :=
  Bytes.ofInt (d.row + 1) ++ ":" ++ Bytes.ofInt (d.column + 1) ++ ": " ++ d.kind.text
    ++ messageTail d.message

/-- A byte column of a line as a column counted in clusters from one, given how the line is cut into
clusters. -/
def shownColumnBy (clusters : Bytes → List Bytes) (line : Bytes) (byteColumn : Nat) : Nat :=
  (clusters (line.take byteColumn)).length + 1

def shownColumn (line : Bytes) (byteColumn : Nat) : Nat :=
  shownColumnBy Cluster.clusters line byteColumn

/-- The line of a source with the given number, without its carriage returns. -/
def sourceLine? (source : Bytes) (row : Int) : Option Bytes :=
  if row < 0 then none
  else ((source.splitOn Bytes.newline)[row.toNat]?).map (Bytes.dropRightWhile (· == 13))

/-- What stands before the caret: a tab or a space for each cluster that starts
before the byte column, the first of them starting at `start`. -/
def caretIndent (byteColumn : Int) : (start : Nat) → List Bytes → Bytes
  | _, [] => []
  | start, c :: rest =>
    if byteColumn ≤ start then []
    else (if c = [9] then 9 else 32) :: caretIndent byteColumn (start + c.length) rest

/-- The line with the caret. -/
def caretLineBy (clusters : Bytes → List Bytes) (line : Bytes) (byteColumn : Int) : Bytes :=
  caretIndent byteColumn 0 (clusters line) ++ "^"

/-- The diagnostic for a reader, given how a line is cut into clusters. -/
def renderBy (clusters : Bytes → List Bytes) (file source : Bytes) (d : Diagnostic) : Bytes :=
  let line := sourceLine? source d.row
  let shown : Int := match line with
    | some l => shownColumnBy clusters l d.column.toNat
    | none => d.column + 1
  file ++ ":" ++ Bytes.ofInt (d.row + 1) ++ ":" ++ Bytes.ofInt shown ++ ": " ++ d.kind.text
    ++ messageTail d.message ++
    (match line with
    | some l => "\n" ++ l ++ "\n" ++ caretLineBy clusters l d.column
    | none => [])

/-- The diagnostic with the clusters that a reader takes for characters. -/
def render (file source : Bytes) (d : Diagnostic) : Bytes :=
  d.renderBy Cluster.clusters file source

end Diagnostic
end Signum
