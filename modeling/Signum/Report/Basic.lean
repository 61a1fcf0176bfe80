import Signum.Check.Checker
import Signum.Documentation
import Signum.Report.Recording
/- The report on a program: its documentation, what the analysis observed, and
   the sign of each variable at the end. -/
namespace Signum

/-- A variable with the sign its value has at the end, when it is a global one
that has a value then. -/
structure ReportedVariable where
  declared : Variable
  final : Option Atom
  deriving DecidableEq, Repr

/-- The sign at the end in words. -/
def ReportedVariable.finalText (v : ReportedVariable) : Bytes :=
  match v.final with
  | some atom => atom.name
  | none => if 0 < v.declared.depth then "out of scope" else "unbound"

/-- A report. The failure is there when the analysis stopped early. -/
structure Report where
  name : Bytes
  program : Program
  documentation : Documentation
  recording : Recording
  output : Bytes
  «variables» : List ReportedVariable
  failure : Option Failure

/-- Why there is no report. -/
inductive ReportFault where
  /-- The comment at the top cannot be split. -/
  | documentation
  | analysis (fault : Analysis.Fault)
  deriving DecidableEq, Repr

namespace Report

/-- The variables with their signs in the final environment. -/
def finals (declared : List Variable) (env : Environment) : List ReportedVariable :=
  let bound := env.bound
  declared.map fun v => ⟨v, if v.depth = 0 then bound.lookup v.name else none⟩

/-- The report on a checked program with the given variables. -/
def build (config : Analysis.Config) (name : Bytes) (program : Program)
    (declared : List Variable) : Except ReportFault Report :=
  match Documentation.ofComment? program.documentation with
  | none => .error .documentation
  | some documentation =>
    let (result, state) := Analysis.run config program
    let report (failure : Option Failure) : Report :=
      { name, program, documentation, recording := .ofEvents state.trace.toList,
        output := state.output, «variables» := finals declared state.env, failure }
    match result with
    | .ok () => .ok (report none)
    | .error (.failed kind span) => .ok (report (some ⟨kind, span, []⟩))
    | .error (.fault f) => .error (.analysis f)

end Report
end Signum
