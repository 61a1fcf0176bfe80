import Signum.Report.Basic
import Signum.Syntax.Format
import Signum.Text.Blank
/- A report as markdown. -/
namespace Signum.Report

/-- A line of text. -/
def lineOf (text : Bytes) : Bytes := text ++ [Bytes.newline]

/-- Text between backticks. -/
def codeText (text : Bytes) : Bytes := "`" ++ text ++ "`"

/-- A line and an empty one after it. -/
def spaced (text : Bytes) : Bytes := lineOf text ++ lineOf []

/-- A section with its heading; nothing when it has no lines. -/
def sectionText (title : Bytes) (lines : List Bytes) : Bytes :=
  if lines.isEmpty then [] else spaced ("## " ++ title) ++ lines.flatten ++ lineOf []

/-- A printed atom as a list item. -/
def printedLine (p : Printed) : Bytes :=
  lineOf ("- " ++ p.span.text ++ " " ++ codeText ("print " ++ p.value.format) ++ ": "
    ++ p.atom.name)

/-- A verdict as a list item. -/
def branchLine (b : BranchVerdict) : Bytes :=
  lineOf ("- " ++ b.span.text ++ " " ++ codeText ("if (" ++ b.cond.format ++ ")") ++ ": "
    ++ b.verdict.describe)

/-- A round as an item of an inner list. -/
def roundLine (r : LoopRound) : Bytes :=
  lineOf ("  - round " ++ Bytes.ofNat r.number ++ ": " ++ r.verdict.describe
    ++ (if r.stable then (", stable" : Bytes) else []))

/-- The rounds of a loop as a list in a list item. -/
def loopLines (l : LoopEntry) : Bytes :=
  lineOf ("- " ++ l.span.text ++ " " ++ codeText ("while (" ++ l.cond.format ++ ")"))
    ++ l.rounds.flatMap roundLine

/-- A variable as a row of a table. -/
def variableLine (v : ReportedVariable) : Bytes :=
  lineOf ("| " ++ v.declared.name ++ " | " ++ v.declared.type.name ++ " | " ++ v.declared.span.text
    ++ " | " ++ v.finalText ++ " |")

/-- The report as markdown. -/
def markdown (r : Report) : Bytes :=
  let comment := Bytes.trim r.program.documentation
  spaced ("# " ++ r.name)
    ++ (if comment.isEmpty then [] else spaced comment)
    ++ (match r.failure with
      | some f => spaced ("**Analysis stopped:** " ++ f.kind.text ++ " at " ++ f.span.text)
      | none => [])
    ++ sectionText "Output" (r.recording.prints.map printedLine)
    ++ sectionText "Branches" (r.recording.branches.map branchLine)
    ++ sectionText "Loops" (r.recording.loops.map loopLines)
    ++ spaced "## Variables"
    ++ lineOf "| Name | Type | Declared | Sign |" ++ lineOf "| --- | --- | --- | --- |"
    ++ r.variables.flatMap variableLine

end Signum.Report
