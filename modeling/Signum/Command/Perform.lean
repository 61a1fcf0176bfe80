import Signum.Command.Ending
import Signum.Command.Host
import Signum.Command.Invocation
import Signum.Output.Dump
import Signum.Report.Page
import Signum.Report.Summary
import Signum.Syntax.Format
/- Carrying out what a command line asks for.

   First the log is set up as the manifest and the flags say, then the programs are
   loaded, all of them before the task starts, and then the task is done on each. -/
namespace Signum

/-- The files of a report in a folder, in the order they are written: its summary
and its page, which may not be possible. -/
def Report.files (folder : Bytes) (r : Report) : List (Bytes × Except Markdown.HtmlFault Bytes) :=
  let place := Path.join folder (Path.stem r.name)
  [(place ++ ".md", .ok r.markdown), (place ++ ".html", r.page)]

namespace Command

variable {m : Type → Type} [Monad m]

/-- A step of a command, which may end it. -/
abbrev Step (m : Type → Type) := ExceptT Ending m

/-- Ends the command where a file cannot be used. -/
def orEnd (said : FileFault → Bytes) (act : m (Option FileFault)) : Step m Unit := do
  match ← act with
  | some fault => throw (.plain (said fault))
  | none => pure ()

/-- The manifest of the workspace, and the level that it or a flag sets for the log. -/
def setUpLog (host : Host m) (asked : Invocation) : Step m LogLevel := do
  match ← (Manifest.load host.read asked.workspace : m _) with
  | .error fault => throw (.plain fault.text)
  | .ok manifest =>
    match LogLevel.ofName (asked.logLevel.getD manifest.log.level) with
    | .error message => throw (.plain message)
    | .ok level => pure level

/-- The settings for analyses, and the programs that the command is about. -/
def loadPrograms (host : Host m) (asked : Invocation) :
    Step m (AnalysisSettings × List LoadedProgram) := do
  match ← (Workspace.load host.read asked.workspace : m _) with
  | .error fault => throw (.plain fault.text)
  | .ok workspace =>
    let listed :=
      if asked.files.isEmpty then workspace.listings else asked.files.map fun p => (p, p)
    let (programs, rejection) ← (LoadedProgram.loadAll host.read listed : m _)
    match rejection with
    | some r => throw (.ofRejection r)
    | none =>
      if programs.isEmpty then
        throw (.plain ("no program given and none listed in " ++ Manifest.fileName))
      else pure (workspace.manifest.analysis, programs)

/-- Prints what the programs print over signs, up to the first that fails. Of
several programs, each is announced. -/
def analyzeAll (host : Host m) (config : Analysis.Config) (several : Bool) :
    List LoadedProgram → Step m Unit
  | [] => pure ()
  | p :: rest => do
    if several then host.print ("# " ++ p.name ++ "\n")
    let (result, state) := Analysis.run config p.program
    host.print state.output
    match result with
    | .error halt => throw (.ofAnalysis p halt)
    | .ok () => analyzeAll host config several rest

/-- Runs the programs, up to the first that fails. Each reads on where the one
before stopped. -/
def runAll (host : Host m) (fuel : Nat) : Input → List LoadedProgram → Step m Unit
  | _, [] => pure ()
  | input, p :: rest => do
    let (result, state) := Run.run fuel p.program input
    host.print state.output
    match result with
    | .error halt => throw (.ofRun p halt)
    | .ok () => runAll host fuel state.input rest

/-- Tells that the programs passed the check. -/
def checkAll (host : Host m) (programs : List LoadedProgram) : Step m Unit :=
  programs.forM fun p =>
    host.print (p.path ++ ": ok, " ++ Bytes.ofNat p.context.variables.size ++ " variables\n")

/-- Prints the programs in their canonical form, or writes that to their files. -/
def formatAll (host : Host m) (inPlace : Bool) (programs : List LoadedProgram) : Step m Unit :=
  programs.forM fun p =>
    if inPlace then
      orEnd (fun fault => "failed to write " ++ p.path ++ ": " ++ fault.text)
        (host.write p.path p.program.format)
    else host.print p.program.format

/-- Prints the trees of the programs. -/
def dumpAll (host : Host m) (programs : List LoadedProgram) : Step m Unit :=
  programs.forM fun p => host.print (Dump.render p.program p.context)

/-- Writes files, up to the first that cannot be written or has no content. -/
def writeFiles (host : Host m) (name : Bytes) :
    List (Bytes × Except Markdown.HtmlFault Bytes) → Step m Unit
  | [] => pure ()
  | (path, .ok content) :: rest => do
    orEnd FileFault.text (host.write path content)
    writeFiles host name rest
  | (_, .error fault) :: _ =>
    throw (match fault.message? with
      | some said => .plain ("failed to render report for " ++ name ++ ": " ++ said)
      | none => .fault none)

/-- Writes reports to a folder. All are written as far as they can be, and the
first that cannot be ends the command. -/
def writeReports (host : Host m) (folder : Bytes) : List Report → m (Except Ending Unit)
  | [] => pure (.ok ())
  | r :: rest => do
    let ended ← (writeFiles host r.name (r.files folder)).run
    let later ← writeReports host folder rest
    pure (match ended with
      | .error ending => .error ending
      | .ok () => later)

/-- Builds reports on the programs and writes them to a folder, with the style
sheet of their pages. -/
def reportAll (host : Host m) (config : Analysis.Config) (folder : Bytes)
    (programs : List LoadedProgram) : Step m Unit := do
  orEnd FileFault.text (host.makeFolders folder)
  orEnd FileFault.text (host.write (Path.join folder "main.css") Report.styleSheet)
  match programs.mapM fun p =>
      Report.build config p.name p.program p.context.variables.toList with
  | .error fault => throw (.ofReport fault)
  | .ok reports => ExceptT.mk (writeReports host folder reports)

/-- Does the task on the programs. A run follows each loop for `fuel` rounds. -/
def Task.perform (host : Host m) (fuel : Nat) (settings : AnalysisSettings)
    (programs : List LoadedProgram) : Task → Step m Unit
  | .analyze limit =>
    let settings := match limit with
      | some n => { settings with maxIterations := n }
      | none => settings
    analyzeAll host settings.config (1 < programs.length) programs
  | .run => do runAll host fuel ⟨← host.input⟩ programs
  | .check quiet => if quiet then pure () else checkAll host programs
  | .format inPlace => formatAll host inPlace programs
  | .dump => dumpAll host programs
  | .report folder => reportAll host settings.config folder programs

/-- Carries out a command with the given arguments. -/
def perform (host : Host m) (fuel : Nat) (arguments : List Bytes) : m Outcome := do
  match Invocation.ofArguments arguments with
  | .error fault => pure ⟨none, .plain fault.text⟩
  | .ok asked =>
    match ← (setUpLog host asked).run with
    | .error ending => pure ⟨none, ending⟩
    | .ok level =>
      let ended ← ExceptT.run do
        let (settings, programs) ← loadPrograms host asked
        asked.task.perform host fuel settings programs
      pure ⟨some level, match ended with
        | .error ending => ending
        | .ok () => .done⟩

end Command
end Signum
