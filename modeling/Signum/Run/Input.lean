import Signum.Number.Reading
import Signum.Text.Blank
/- The input of a running program: words, taken one at a time. -/
namespace Signum

/-- What is left of the input. -/
structure Input where
  text : Bytes
  deriving DecidableEq, Repr

namespace Input

/-- Words of this many bytes or more cannot be read. -/
def wordLimit : Nat := 65536

/-- The next word, which is used up. A word too long ends the input. -/
def word (i : Input) : Option Bytes × Input :=
  match i.text.nextWord? with
  | some (w, rest) => if w.length < wordLimit then (some w, ⟨rest⟩) else (none, ⟨[]⟩)
  | none => (none, ⟨[]⟩)

/-- The next word as an integer. A word that is none is used up all the same. -/
def readInt (i : Input) : Option Int64 × Input :=
  let (w, rest) := i.word
  (w.bind readInt64?, rest)

/-- The next word as a float. A word that is none is used up all the same. -/
def readFloat (i : Input) : Option Binary64 × Input :=
  let (w, rest) := i.word
  (w.bind Binary64.read?, rest)

end Input
end Signum
