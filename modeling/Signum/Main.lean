import Signum.Command.Perform
/- The command line program: commands with the system for their host. -/
namespace Signum

/-- A path as the system takes it. -/
def systemPath (path : Bytes) : String := (String.fromUTF8? ⟨path.toArray⟩).getD ""

/-- What the system has against a file. -/
def fileCause : IO.Error → FileCause
  | .noFileOrDirectory .. => .missing
  | .inappropriateType _ code _ => if code = 21 then .isFolder else .notFolder
  | .alreadyExists .. => .exists
  | .invalidArgument .. => .invalid
  | e => .other (Bytes.ofString (toString e))

/-- Everything that is left of a stream, after what was taken from it. -/
partial def readRest (stream : IO.FS.Stream) (taken : ByteArray) : IO ByteArray := do
  let more ← stream.read 65536
  if more.isEmpty then return taken else readRest stream (taken ++ more)

/-- The system as a host. -/
def systemHost : Command.Host IO where
  read path := do
    try
      return .ok (← IO.FS.readBinFile (systemPath path)).data.toList
    catch e =>
      let cause := fileCause e
      return .error ⟨if cause = .isFolder then .read else .open, path, cause⟩
  write path content := do
    try
      IO.FS.writeBinFile (systemPath path) ⟨content.toArray⟩
      return none
    catch e => return some ⟨.open, path, fileCause e⟩
  makeFolders path := do
    try
      IO.FS.createDirAll (systemPath path)
      return none
    catch e =>
      let cause := fileCause e
      return some ⟨.makeFolder, path, if cause = .exists then .notFolder else cause⟩
  print text := do (← IO.getStdout).write ⟨text.toArray⟩
  input := do return (← readRest (← IO.getStdin) .empty).data.toList

/-- Says how a command ended, where there is something to say. -/
def sayEnding (ending : Command.Ending) : IO UInt32 := do
  let say (text : Bytes) : IO Unit := do (← IO.getStderr).write ⟨(text ++ "\n").toArray⟩
  match ending with
  | .done => return 0
  | .failed code message =>
    say message
    return code.toNat.toUInt32
  | .fault message =>
    say (message.getD "fault")
    return 2
  | .unfinished =>
    say "unfinished"
    return 2

end Signum

/-- Carries out the command with the given arguments. -/
def main (arguments : List String) : IO UInt32 := do
  let outcome ← Signum.Command.perform Signum.systemHost (Nat.pow 2 62)
    (arguments.map Signum.Bytes.ofString)
  Signum.sayEnding outcome.ending
