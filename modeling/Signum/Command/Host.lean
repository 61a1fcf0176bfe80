import Signum.Workspace.Files
/- What a command needs from where it runs: files, an input and an output.

   Commands are written over any host. A session is one that is a value: the files,
   the input and all that was printed. -/
namespace Signum.Command

/-- What a command can do where it runs. -/
structure Host (m : Type → Type) where
  read : Bytes → m (Except FileFault Bytes)
  write : (path content : Bytes) → m (Option FileFault)
  /-- Makes a folder and those it is in, where they are not there. -/
  makeFolders : Bytes → m (Option FileFault)
  print : Bytes → m Unit
  /-- Everything that can be read from the input. -/
  input : m Bytes

/-- A host as a value. -/
structure Session where
  files : FileStore
  input : Bytes
  printed : Bytes := []

/-- The host that changes a session. -/
def Session.host : Host (StateM Session) where
  read path := do return (← get).files.read path
  write path content := do
    match (← get).files.write path content with
    | .ok files =>
      modify fun s => { s with files }
      return none
    | .error fault => return some fault
  makeFolders path := do
    let (fault, files) := (← get).files.makeFolders path
    modify fun s => { s with files }
    return fault
  print text := modify fun s => { s with printed := s.printed ++ text }
  input := do return (← get).input

end Signum.Command
