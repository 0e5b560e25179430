import ShaderGraft.Word

/-!
Files by path. Paths are relative to a working directory; `.` and `..` mean what they usually do, and
nothing is known of the directories above besides that they exist.
-/

namespace ShaderGraft

/-- What keeps a path from naming a file. -/
inductive FileFault where
  | noEntry
  | notDirectory
  | isDirectory
  | nameTooLong
  | badPath
  | denied
deriving DecidableEq, Repr

def FileFault.message : FileFault → String
  | .noEntry => "no such file or directory"
  | .notDirectory => "not a directory"
  | .isDirectory => "is a directory"
  | .nameTooLong => "file name too long"
  | .badPath => "invalid argument"
  | .denied => "permission denied"

/-- A use of a file that failed. -/
structure FileError where
  action : String
  path : Bytes
  fault : FileFault
deriving DecidableEq, Repr

def FileError.message (e : FileError) : Bytes :=
  utf8 (e.action ++ " ") ++ e.path ++ utf8 (": " ++ e.fault.message)

/-- The names on the way from the working directory. The way up is `..`, and the root is `/`. -/
abbrev Location := List Bytes

namespace Location

/-- The name that stands for the same directory. -/
def here : Bytes := [46]

/-- The name that stands for the directory above. -/
def up : Bytes := [46, 46]

/-- The name of the root, which no path can spell otherwise. -/
def root : Bytes := [47]

/-- The directory above. -/
def parent (loc : Location) : Location :=
  match loc.getLast? with
  | none => [up]
  | some name => if name == root then loc else if name == up then loc ++ [up] else loc.dropLast

/-- The parts of a path between its slashes. -/
def segments : Bytes → List Bytes
  | [] => [[]]
  | b :: rest =>
    if b == 47 then [] :: segments rest
    else match segments rest with
      | [] => [[b]]
      | s :: more => (b :: s) :: more

/-- The names in a path. -/
def names (path : Bytes) : List Bytes :=
  (segments path).filter (! ·.isEmpty)

end Location

/-- The longest name. -/
def maxNameLength : Nat := 255

/-- The longest path is shorter than this. -/
def maxPathLength : Nat := 4096

/-- A working directory with the files in it and below it. -/
structure Directory where
  files : List (Location × Bytes) := []

namespace Directory

open Location

/-- The directory with the given files. -/
def ofFiles (files : List (Bytes × Bytes)) : Directory :=
  { files := files.map fun (path, contents) => (names path, contents) }

/-- Whether a directory is at a location. -/
def isDirectory (d : Directory) (loc : Location) : Bool :=
  loc.all (fun name => name == up || name == root) ||
    d.files.any fun (file, _) => loc.isPrefixOf file && loc != file

/-- The directory with a name in another one. -/
def enter (d : Directory) (loc : Location) (name : Bytes) : Except FileFault Location :=
  if name == here then .ok loc
  else if name == up then .ok loc.parent
  else if maxNameLength < name.length then .error .nameTooLong
  else if d.isDirectory (loc ++ [name]) then .ok (loc ++ [name])
  else if (d.files.lookup (loc ++ [name])).isSome then .error .notDirectory
  else .error .noEntry

/-- Where a path leads: to a directory, or to a name in one. -/
inductive Target where
  | directory
  | entry (loc : Location) (name : Bytes) (slash : Bool)

/-- Follows a path up to its last name. -/
def follow (d : Directory) (path : Bytes) : Except FileFault Target := do
  if path.contains 0 then throw .badPath
  if path.isEmpty then throw .noEntry
  if maxPathLength ≤ path.length then throw .nameTooLong
  let start : Location := if path.head? == some 47 then [root] else []
  match (names path).getLast? with
  | none => return .directory
  | some last =>
    let loc ← (names path).dropLast.foldlM d.enter start
    if last == here || last == up then return .directory
    return .entry loc last (path.getLast? == some 47)

/-- The contents of the file that a path leads to. A directory can be opened but not read. -/
def read (d : Directory) (path : Bytes) : Except FileError Bytes :=
  match d.follow path with
  | .error fault => .error ⟨"open", path, fault⟩
  | .ok .directory => .error ⟨"read", path, .isDirectory⟩
  | .ok (.entry loc name slash) =>
    if maxNameLength < name.length then .error ⟨"open", path, .nameTooLong⟩
    else if d.isDirectory (loc ++ [name]) then .error ⟨"read", path, .isDirectory⟩
    else match d.files.lookup (loc ++ [name]) with
      | none => .error ⟨"open", path, .noEntry⟩
      | some contents => if slash then .error ⟨"open", path, .notDirectory⟩ else .ok contents

/-- Writes the file that a path leads to. Only its directory must be there before. -/
def write (d : Directory) (path contents : Bytes) : Except FileError Directory :=
  match d.follow path with
  | .error fault => .error ⟨"open", path, fault⟩
  | .ok .directory => .error ⟨"open", path, .isDirectory⟩
  | .ok (.entry loc name slash) =>
    if slash then .error ⟨"open", path, .isDirectory⟩
    else if maxNameLength < name.length then .error ⟨"open", path, .nameTooLong⟩
    else if d.isDirectory (loc ++ [name]) then .error ⟨"open", path, .isDirectory⟩
    else .ok { files := (loc ++ [name], contents) :: d.files }

end Directory

end ShaderGraft
