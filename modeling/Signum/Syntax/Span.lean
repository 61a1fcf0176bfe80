import Signum.Text.Bytes
/- Places in a source. -/
namespace Signum

/-- A zero-based row, and a column in bytes. -/
structure Point where
  row : Nat
  column : Nat
  deriving DecidableEq, Repr

/-- From where to where something stands in a source. -/
structure Span where
  start : Point
  stop : Point
  deriving DecidableEq, Repr

namespace Point

def origin : Point := ⟨0, 0⟩

/-- The place one byte further. -/
def step (p : Point) (b : UInt8) : Point :=
  if b = Bytes.newline then ⟨p.row + 1, 0⟩ else ⟨p.row, p.column + 1⟩

/-- The place after some text. -/
def after (p : Point) (text : Bytes) : Point := text.foldl step p

end Point

namespace Span

/-- From the start of one span to the end of another. -/
def upTo (s t : Span) : Span := ⟨s.start, t.stop⟩

/-- The start of a span, counted from one. -/
def text (s : Span) : Bytes :=
  Bytes.ofNat (s.start.row + 1) ++ ":" ++ Bytes.ofNat (s.start.column + 1)

end Span
end Signum
