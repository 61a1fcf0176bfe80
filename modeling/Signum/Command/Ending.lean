import Signum.Diagnostic
import Signum.Report.Basic
import Signum.Run.Interpreter
import Signum.Workspace.Basic
import Signum.Workspace.LogLevel
/- How a command ends. -/
namespace Signum.Command

/-- How a command ends. -/
inductive Ending where
  | done
  /-- With an exit code and what is to be said. -/
  | failed (code : Int) (message : Bytes)
  /-- Because something made no sense, which may have words for it. -/
  | fault (message : Option Bytes)
  /-- After as many steps as it was given. -/
  | unfinished
  deriving DecidableEq, Repr

namespace Ending

/-- A failure that has no kind. -/
def plain (message : Bytes) : Ending := .failed 1 message

/-- The failure of a program: it is shown in the source, and the code is that of its
kind. -/
def ofFailure (path source : Bytes) (f : Failure) : Ending :=
  .failed f.kind.code (f.diagnostic.render path source)

/-- A program that was not loaded. -/
def ofRejection : Rejection → Ending
  | .unreadable path problem =>
    plain ("failed to load program at " ++ path ++ ": " ++ problem.text)
  | .unparsed _ path source failure => ofFailure path source failure
  | .unchecked found failure => ofFailure found.path found.source failure

/-- An analysis that stopped early. A divisor is only said to be zero possibly. -/
def ofAnalysis (p : LoadedProgram) : Analysis.Halt → Ending
  | .failed kind span =>
    ofFailure p.path p.source
      ⟨kind, span, if kind = .divisionByZero then "divisor may be zero" else []⟩
  | .fault f => .fault (some f.message)

/-- A run that stopped early. -/
def ofRun (p : LoadedProgram) : Run.Halt → Ending
  | .failed kind span => ofFailure p.path p.source ⟨kind, span, []⟩
  | .fault f => .fault (some f.message)
  | .unfinished => .unfinished

/-- A report that was not built. -/
def ofReport : ReportFault → Ending
  | .documentation => .fault none
  | .analysis f => .fault (some f.message)

end Ending

/-- How a command ended, and from which level on it logs, once that was set. -/
structure Outcome where
  level : Option LogLevel
  ending : Ending
  deriving DecidableEq, Repr

end Signum.Command
