import Signum.Check.Checker
import Signum.Syntax.Parser
import Signum.Workspace.Files
import Signum.Workspace.Manifest
/- Loading a workspace and the programs in it.

   A workspace is a folder, with a manifest in it or without. Loading a program is
   reading, parsing and checking it, and programs are loaded one after the other up
   to the first that is not right. How files are read is left open. -/
namespace Signum

/-- A program that was checked, with the file it is from. -/
structure LoadedProgram where
  name : Bytes
  path : Bytes
  source : Bytes
  program : Program
  context : Context

/-- Why a program could not be loaded. -/
inductive Rejection where
  | unreadable (path : Bytes) (fault : FileFault)
  | unparsed (name path source : Bytes) (failure : Failure)
  /-- The check did not pass; it left the context when it stopped. -/
  | unchecked (found : LoadedProgram) (failure : Failure)

/-- Reads a file by its path, in some way. -/
abbrev Reading (m : Type → Type) := Bytes → m (Except FileFault Bytes)

/-- The program in the source. -/
def LoadedProgram.ofSource (name path source : Bytes) : Except Rejection LoadedProgram :=
  match Program.parse source with
  | .error failure => .error (.unparsed name path source failure)
  | .ok program =>
    match program.check with
    | (.ok (), context) => .ok ⟨name, path, source, program, context⟩
    | (.error failure, context) =>
      .error (.unchecked ⟨name, path, source, program, context⟩ failure)

/-- The program in the file at a path. -/
def LoadedProgram.load {m : Type → Type} [Monad m] (read : Reading m) (name path : Bytes) :
    m (Except Rejection LoadedProgram) := do
  match ← read path with
  | .error fault => pure (.error (.unreadable path fault))
  | .ok source => pure (LoadedProgram.ofSource name path source)

/-- The programs in files, given by name and path, up to the first that is
rejected. -/
def LoadedProgram.loadAll {m : Type → Type} [Monad m] (read : Reading m) :
    List (Bytes × Bytes) → m (List LoadedProgram × Option Rejection)
  | [] => pure ([], none)
  | (name, path) :: rest => do
    match ← LoadedProgram.load read name path with
    | .error rejection => pure ([], some rejection)
    | .ok program =>
      let (programs, rejection) ← LoadedProgram.loadAll read rest
      pure (program :: programs, rejection)

/-- Why a workspace has no manifest that can be used. -/
inductive WorkspaceFault where
  | unreadable (fault : FileFault)
  | manifest (fault : Manifest.Fault)
  deriving DecidableEq, Repr

/-- A fault in words. -/
def WorkspaceFault.text : WorkspaceFault → Bytes
  | .unreadable fault => "failed to load " ++ Manifest.fileName ++ ": " ++ fault.text
  | .manifest fault => fault.text

/-- The manifest in a folder; where there is none, the defaults. -/
def Manifest.load {m : Type → Type} [Monad m] (read : Reading m) (folder : Bytes) :
    m (Except WorkspaceFault Manifest) := do
  match ← read (Path.join folder Manifest.fileName) with
  | .error fault =>
    pure (if fault.cause = .missing then .ok {} else .error (.unreadable fault))
  | .ok text => pure ((Manifest.parse text).mapError .manifest)

/-- A folder and its manifest. -/
structure Workspace where
  folder : Bytes
  manifest : Manifest
  deriving DecidableEq, Repr

namespace Workspace

/-- The workspace in a folder. Without a path it is the folder that is worked in. -/
def load {m : Type → Type} [Monad m] (read : Reading m) (folder : Bytes) :
    m (Except WorkspaceFault Workspace) := do
  let folder : Bytes := if folder.isEmpty then "." else folder
  pure ((← Manifest.load read folder).map fun manifest => ⟨folder, manifest⟩)

/-- The names and paths of the programs in a workspace. Sources are found from its
folder. -/
def listings (w : Workspace) : List (Bytes × Bytes) :=
  w.manifest.programs.map fun p =>
    (p.name, if Path.isAbsolute p.source then p.source else Path.join w.folder p.source)

/-- Loads the programs of a workspace. -/
def programs {m : Type → Type} [Monad m] (read : Reading m) (w : Workspace) :
    m (List LoadedProgram × Option Rejection) :=
  LoadedProgram.loadAll read w.listings

end Workspace
end Signum
