import Signum.Workspace.Path
/- Files and folders, found by their paths.

   A store keeps everything by its place, which is the names from the root down.
   A path is followed name by name from the folder that is worked in, or from the
   root, and every place on the way has to be a folder. -/
namespace Signum

/-- Why something cannot be done with a path. -/
inductive FileCause where
  | missing
  | notFolder
  | isFolder
  | exists
  | invalid
  /-- A cause that only the system at hand knows, in its words. -/
  | other (text : Bytes)
  deriving DecidableEq, Repr

/-- A cause in words. -/
def FileCause.text : FileCause → Bytes
  | .missing => "no such file or directory"
  | .notFolder => "not a directory"
  | .isFolder => "is a directory"
  | .exists => "file exists"
  | .invalid => "invalid argument"
  | .other text => text

/-- What is done with a path. -/
inductive FileAction where
  | open
  | read
  | makeFolder
  deriving DecidableEq, Repr

/-- An action in words. -/
def FileAction.text : FileAction → Bytes
  | .open => "open"
  | .read => "read"
  | .makeFolder => "mkdir"

/-- An action on a path that failed. -/
structure FileFault where
  action : FileAction
  path : Bytes
  cause : FileCause
  deriving DecidableEq, Repr

/-- The action, the path and the cause. -/
def FileFault.text (f : FileFault) : Bytes :=
  f.action.text ++ " " ++ f.path ++ ": " ++ f.cause.text

/-- What is at a place. -/
inductive Entry where
  | file (content : Bytes)
  | folder
  deriving DecidableEq, Repr

/-- Names from the root down. -/
abbrev Place := List Bytes

/-- Everything there is but the root, and the place of the folder that paths start
from. -/
structure FileStore where
  entries : List (Place × Entry)
  working : Place
  deriving Repr

namespace FileStore

/-- What is at a place. -/
def entryAt? (s : FileStore) (p : Place) : Option Entry :=
  if p.isEmpty then some .folder else s.entries.lookup p

/-- The place a name leads to from a folder. -/
def follow (folder : Place) (name : Bytes) : Place :=
  if name.isEmpty || name == Bytes.ofString "." then folder
  else if name == Path.above then folder.dropLast
  else folder ++ [name]

/-- The place that names lead to, of which only the last may not be there. -/
def walk (s : FileStore) : (folder : Place) → List Bytes → Except FileCause Place
  | place, [] => .ok place
  | place, name :: rest =>
    match s.entryAt? place with
    | none => .error .missing
    | some (.file _) => .error .notFolder
    | some .folder => s.walk (follow place name) rest

/-- The place of a path. -/
def placeOf (s : FileStore) (path : Bytes) : Except FileCause Place :=
  if path.contains 0 then .error .invalid
  else if path.isEmpty then .error .missing
  else s.walk (if Path.isAbsolute path then [] else s.working) (path.splitOn Path.slash)

/-- What a path leads to. -/
def find (s : FileStore) (path : Bytes) : Except FileCause Entry := do
  match s.entryAt? (← s.placeOf path) with
  | some entry => .ok entry
  | none => .error .missing

/-- The content of a file. -/
def read (s : FileStore) (path : Bytes) : Except FileFault Bytes :=
  match s.find path with
  | .error cause => .error ⟨.open, path, cause⟩
  | .ok .folder => .error ⟨.read, path, .isFolder⟩
  | .ok (.file content) => .ok content

/-- Puts something at a place, in the stead of what is there. -/
def put (s : FileStore) (p : Place) (entry : Entry) : FileStore :=
  if s.entries.any (·.1 == p) then
    { s with entries := s.entries.map fun e => if e.1 == p then (p, entry) else e }
  else { s with entries := s.entries ++ [(p, entry)] }

/-- Writes a file, which need not be there yet. -/
def write (s : FileStore) (path content : Bytes) : Except FileFault FileStore :=
  match s.placeOf path with
  | .error cause => .error ⟨.open, path, cause⟩
  | .ok place =>
    if s.entryAt? place = some .folder then .error ⟨.open, path, .isFolder⟩
    else .ok (s.put place (.file content))

/-- Makes a folder where there is nothing. -/
def makeFolder (s : FileStore) (path : Bytes) : Except FileFault FileStore :=
  let trimmed := Path.trimSlashes path
  match s.placeOf (if trimmed.isEmpty then path else trimmed) with
  | .error cause => .error ⟨.makeFolder, path, cause⟩
  | .ok place =>
    if (s.entryAt? place).isSome then .error ⟨.makeFolder, path, .exists⟩
    else .ok (s.put place .folder)

/-- Makes a folder and those it is in, where they are not there; what was made
stays when a further one cannot be. -/
def makeFolders (s : FileStore) (path : Bytes) : Option FileFault × FileStore :=
  match s.find path with
  | .ok .folder => (none, s)
  | .ok (.file _) => (some ⟨.makeFolder, path, .notFolder⟩, s)
  | .error _ =>
    let (fault, s) := match Path.parent? path with
      | some folder => if folder.length < path.length then s.makeFolders folder else (none, s)
      | none => (none, s)
    match fault with
    | some f => (some f, s)
    | none =>
      match s.makeFolder path with
      | .ok made => (none, made)
      | .error f => (if s.find path matches .ok .folder then none else some f, s)
termination_by path.length

/-- A store with the given files in the folder that is worked in, and in the
folders that their paths name. A path that ends with a slash is a folder. -/
def ofFiles (working : Place) (files : List (Bytes × Bytes)) : FileStore :=
  let folders (s : FileStore) (p : Place) : FileStore :=
    (List.range (p.length + 1)).foldl (fun s n =>
      if (s.entryAt? (p.take n)).isSome then s else s.put (p.take n) .folder) s
  let start := folders ⟨[], working⟩ working
  files.foldl (fun s (path, content) =>
    let names := working ++ path.splitOn Path.slash
    let s := folders s names.dropLast
    if names.getLast? = some [] then s else s.put names (.file content)) start

/-- The files that are in the folder that is worked in, by their paths from there. -/
def files (s : FileStore) : List (Bytes × Bytes) :=
  s.entries.filterMap fun (place, entry) =>
    match entry with
    | .file content =>
      if s.working.isPrefixOf place then
        some (Bytes.join [Path.slash] (place.drop s.working.length), content)
      else none
    | .folder => none

/-- The files that are not in an earlier store, or are different there, ordered by
their paths. -/
def changedSince (s earlier : FileStore) : List (Bytes × Bytes) :=
  let before := earlier.files
  (s.files.filter fun (path, content) => before.lookup path != some content).mergeSort
    fun a b => a.1 ≤ b.1

end FileStore
end Signum
