import Signum.Report.Basic
import Signum.Syntax.Format
/- A report as an HTML page.

   Mentions of variables in the documentation link to the rows of the table of
   variables. The page refers to a style sheet that stands beside it. -/
namespace Signum.Report

/-- The style sheet of the pages. -/
def styleSheet : Bytes :=
  "body \x7b
\tfont-family: sans-serif;
\tmargin: 0 auto;
\tmax-width: 50rem;
\tpadding: 1rem;
\x7d

code \x7b
\tfont-family: monospace;
\x7d

table \x7b
\tborder-collapse: collapse;
\twidth: 100%;
\x7d

th, td \x7b
\tborder-bottom: 1px solid #ccc;
\tpadding: 0.25rem 0.5rem;
\ttext-align: left;
\x7d

.failure \x7b
\tcolor: #b00020;
\x7d

.stable \x7b
\tfont-weight: bold;
\x7d

.unknown-var \x7b
\ttext-decoration: underline wavy #b00020;
\x7d
"

/-- A byte in HTML, quotes included. -/
def escapeByte (b : UInt8) : Bytes :=
  if b = 34 then "&#34;" else if b = 39 then "&#39;" else Markdown.escapeByte b

/-- Text in HTML, quotes included. -/
def escape (text : Bytes) : Bytes := text.flatMap escapeByte

/-- Text in the title of a page. -/
def escapeTitle (text : Bytes) : Bytes :=
  text.flatMap fun b =>
    if b = 0 then CodePoint.encode CodePoint.replacement
    else if b = 43 then "&#43;" else escapeByte b

/-- The anchor of a variable's row. -/
def anchor (name : Bytes) : Bytes := "var-" ++ name

/-- Links the names of declared variables to their rows. -/
def resolver (r : Report) : Markdown.Resolver := fun name =>
  .ok (if r.variables.any (·.declared.name == name) then "#" ++ anchor name else [])

/-- A section of the page; nothing when it has no entries. -/
def sectionHtml (title opening closing : Bytes) (entries : List Bytes) : Bytes :=
  if entries.isEmpty then []
  else "<h2>" ++ title ++ "</h2>" ++ opening ++ entries.flatten ++ closing

/-- An entry with a remark on a piece of code at a place. -/
def entryHtml (code : Bytes) (span : Span) (remark : Bytes) : Bytes :=
  "<dt><code>" ++ escape code ++ "</code> at " ++ span.text ++ "</dt><dd>" ++ remark ++ "</dd>"

/-- A printed atom. -/
def printedHtml (p : Printed) : Bytes := entryHtml ("print " ++ p.value.format) p.span p.atom.name

/-- A verdict on a branch. -/
def branchHtml (b : BranchVerdict) : Bytes :=
  entryHtml ("if (" ++ b.cond.format ++ ")") b.span b.verdict.describe

/-- A round of a loop. -/
def roundHtml (round : LoopRound) : Bytes :=
  (if round.stable then ("<li class=\"stable\">" : Bytes) else "<li>")
    ++ round.verdict.describe ++ "</li>"

/-- The rounds of a loop. -/
def loopHtml (l : LoopEntry) : Bytes :=
  "<h4><code>" ++ escape ("while (" ++ l.cond.format ++ ")") ++ "</code> at " ++ l.span.text
    ++ "</h4><ol>" ++ l.rounds.flatMap roundHtml ++ "</ol>"

/-- The row of a variable, with what the documentation says of it. -/
def variableHtml (r : Report) (v : ReportedVariable) : Except Markdown.HtmlFault Bytes := do
  let name := v.declared.name
  let about ← match r.documentation.variables.lookup name with
    | some passage => passage.html r.resolver
    | none => .ok []
  return "<tr id=\"" ++ anchor name ++ "\"><td><code>" ++ name ++ "</code></td><td>"
    ++ v.declared.type.name ++ "</td><td>" ++ v.declared.span.text ++ "</td><td>" ++ v.finalText
    ++ "</td><td>" ++ about ++ "</td></tr>"

/-- The failure that stopped the analysis. -/
def failureHtml : Option Failure → Bytes
  | some f =>
    "<p class=\"failure\">Analysis stopped: " ++ f.kind.text ++ " at " ++ f.span.text ++ "</p>"
  | none => []

/-- The content of the page. -/
def content (r : Report) : Except Markdown.HtmlFault Bytes := do
  let summary ← match r.documentation.summary with
    | some inlines => (Markdown.Block.paragraph inlines).html r.resolver true
    | none => .ok []
  let discussion ← r.documentation.discussion.mapM (·.html r.resolver true)
  let expected : List Bytes ← match r.documentation.expects with
    | some passage => (passage.html r.resolver).map fun text => [text]
    | none => .ok []
  let rows ← r.variables.mapM r.variableHtml
  return "<h1>" ++ escape r.name ++ "</h1>" ++ summary ++ failureHtml r.failure
    ++ sectionHtml "Discussion" [] [] discussion ++ sectionHtml "Expected" [] [] expected
    ++ sectionHtml "Output" "<dl>" "</dl>" (r.recording.prints.map printedHtml)
    ++ sectionHtml "Branches" "<dl>" "</dl>" (r.recording.branches.map branchHtml)
    ++ sectionHtml "Loops" [] [] (r.recording.loops.map loopHtml)
    ++ "<h2>Variables</h2><table><tr><th>Name</th><th>Type</th><th>Declared</th><th>Sign</th>"
    ++ "<th></th></tr>" ++ rows.flatten ++ "</table>"

/-- The page. -/
def page (r : Report) : Except Markdown.HtmlFault Bytes := do
  let main ← r.content
  return "<!DOCTYPE html>
<html>
<head>
\t<meta charset=\"utf-8\">
\t<title>" ++ escapeTitle r.name ++ "</title>
\t<link rel=\"stylesheet\" href=\"main.css\">
</head>
<body>
\t<main>
\t\t" ++ main ++ "
\t</main>
</body>
</html>
"

end Signum.Report
