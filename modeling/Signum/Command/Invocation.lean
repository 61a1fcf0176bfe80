import Signum.Command.Flags
/- What a command line asks for. -/
namespace Signum.Command

/-- A task, with its settings. -/
inductive Task where
  /-- Prints the signs of what the programs print. A limit here goes before that of
  the workspace. -/
  | analyze (maxIterations : Option Int)
  /-- Runs the programs on numbers. -/
  | run
  /-- Tells that the programs pass the check. -/
  | check (quiet : Bool)
  /-- Prints the programs in their canonical form, or puts that in their place. -/
  | format (inPlace : Bool)
  /-- Prints the trees of the programs. -/
  | dump
  /-- Writes reports on the programs to a folder. -/
  | report (folder : Bytes)
  deriving DecidableEq, Repr

/-- What a command line asks for. Without files, the programs are those of the
workspace. -/
structure Invocation where
  workspace : Bytes
  logLevel : Option Bytes
  task : Task
  files : List Bytes
  deriving DecidableEq, Repr

/-- The folder of the workspace. -/
def workspaceFlag : Flag := ⟨"workspace", [Bytes.ofString "w"], .text⟩

/-- The flags before the name of a task. -/
def commonFlags : List Flag :=
  [⟨"log-level", [], .text⟩, ⟨"dev-log", [], .switch⟩, workspaceFlag]

/-- The names of the tasks, with the flags that come after them and the task that
the flags' values make. -/
def tasks : List (Bytes × List Flag × (FlagValues → Task)) := [
  (Bytes.ofString "analyze", [⟨"max-iterations", [], .number⟩, workspaceFlag],
    fun values => .analyze (values.number? "max-iterations")),
  (Bytes.ofString "run", [workspaceFlag], fun _ => .run),
  (Bytes.ofString "check", [⟨"quiet", [Bytes.ofString "q"], .switch⟩, workspaceFlag],
    fun values => .check (values.isOn "quiet")),
  (Bytes.ofString "fmt", [⟨"in-place", [Bytes.ofString "i"], .switch⟩, workspaceFlag],
    fun values => .format (values.isOn "in-place")),
  (Bytes.ofString "dump", [workspaceFlag], fun _ => .dump),
  (Bytes.ofString "report", [⟨"outdir", [Bytes.ofString "o"], .text⟩, workspaceFlag],
    fun values => .report ((values.text? "outdir").getD "report"))]

/-- What the arguments of a command ask for. The task is analysis unless the first
argument names another, and of two workspaces the one named after the task counts. -/
def Invocation.ofArguments (arguments : List Bytes) : Except UsageFault Invocation := do
  let (common, rest) ← readFlags commonFlags [] arguments
  let outer := (common.text? "workspace").getD []
  let logLevel := common.text? "log-level"
  match rest with
  | [] => pure ⟨outer, logLevel, .analyze none, []⟩
  | name :: after =>
    match tasks.lookup name with
    | none => pure ⟨outer, logLevel, .analyze none, rest⟩
    | some (flags, task) => do
      let (values, files) ← readFlags flags [] after
      pure ⟨(values.text? "workspace").getD outer, logLevel, task values, files⟩

end Signum.Command
