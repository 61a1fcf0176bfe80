import Signum.Text.Bytes
/- Text built line by line at a depth of indentation. -/
namespace Signum

/-- A text under construction. Lines start with `level` copies of `unit`. -/
structure Outline where
  level : Int
  unit : Bytes
  text : Bytes
  deriving DecidableEq, Repr

namespace Outline

/-- An empty text indented by `unit`, or by a tab when that is empty. -/
def start (unit : Bytes) (level : Int) : Outline :=
  ⟨level, if unit.isEmpty then [9] else unit, []⟩

/-- What is said of a line below the outermost level. -/
def negativeLevel : Bytes := "strings: negative Repeat count"

/-- Writes text on the current line. -/
def more (o : Outline) (text : Bytes) : Outline := { o with text := o.text ++ text }

/-- Ends the current line. -/
def endLine (o : Outline) : Outline := o.more "\n"

/-- Starts an indented line; at a negative level there is none. -/
def startLine (o : Outline) (text : Bytes) : Except Bytes Outline :=
  if o.level < 0 then .error negativeLevel
  else .ok (o.more (o.unit.times o.level.toNat ++ text))

/-- Writes an indented line. -/
def line (o : Outline) (text : Bytes) : Except Bytes Outline := (o.startLine text).map endLine

/-- The outline one level deeper. -/
def deeper (o : Outline) : Outline := { o with level := o.level + 1 }

/-- The outline one level less deep. -/
def shallower (o : Outline) : Outline := { o with level := o.level - 1 }

/-- Writes an indented line and indents what follows. -/
def lineIn (o : Outline) (text : Bytes) : Except Bytes Outline := (o.line text).map deeper

/-- Writes a line one level less deep. -/
def lineOut (o : Outline) (text : Bytes) : Except Bytes Outline := o.shallower.line text

end Outline
end Signum
