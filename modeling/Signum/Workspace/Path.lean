import Signum.Text.Bytes
/- Paths of files: names with slashes between them. -/
namespace Signum.Path

/-- The byte between the names of a path. -/
def slash : UInt8 := 47

/-- The name of the folder that a folder is in. -/
def above : Bytes := ".."

/-- Whether a path starts at the root. -/
def isAbsolute (path : Bytes) : Bool := path.head? = some slash

/-- The names left of a path, the last first in `kept`, when the ones that go
nowhere or up are worked off. Above the root there is only the root. -/
def reduce (rooted : Bool) : (kept : List Bytes) → List Bytes → List Bytes
  | kept, [] => kept.reverse
  | kept, name :: rest =>
    if name.isEmpty || name == Bytes.ofString "." then reduce rooted kept rest
    else if name == above then
      match kept with
      | last :: before =>
        if last == above then reduce rooted (above :: kept) rest else reduce rooted before rest
      | [] => reduce rooted (if rooted then [] else [above]) rest
    else reduce rooted (name :: kept) rest

/-- The shortest path to the same place; a path to the place itself is a dot. -/
def clean (path : Bytes) : Bytes :=
  let names := reduce (isAbsolute path) [] (path.splitOn slash)
  if isAbsolute path then slash :: Bytes.join [slash] names
  else if names.isEmpty then "."
  else Bytes.join [slash] names

/-- The path of a place inside a folder, in its shortest form. -/
def join (folder path : Bytes) : Bytes :=
  match [folder, path].filter (!·.isEmpty) with
  | [] => []
  | parts => clean (Bytes.join [slash] parts)

/-- A path without the slashes at its end. -/
def trimSlashes (path : Bytes) : Bytes := path.dropRightWhile (· == slash)

/-- What follows the last slash. -/
def afterSlash (path : Bytes) : Bytes := (path.reverse.takeWhile (· != slash)).reverse

/-- The last name of a path; a dot when there is none. -/
def base (path : Bytes) : Bytes :=
  if path.isEmpty then "."
  else if (trimSlashes path).isEmpty then [slash]
  else afterSlash (trimSlashes path)

/-- What the last name of a path ends with, from its last dot on. -/
def extension (path : Bytes) : Bytes :=
  let name := afterSlash path
  let tail := (name.reverse.takeWhile (· != 46)).reverse
  if tail.length < name.length then 46 :: tail else []

/-- The last name of a path without its extension. -/
def stem (path : Bytes) : Bytes :=
  let name := base path
  match Bytes.dropPrefix? name.reverse (extension path).reverse with
  | some rest => rest.reverse
  | none => name

/-- The path of the folder that a path is in, when the path names one. -/
def parent? (path : Bytes) : Option Bytes :=
  let whole := trimSlashes path
  let folder := whole.take (whole.length - (afterSlash whole).length)
  if 1 < folder.length then some folder.dropLast else none

end Signum.Path
