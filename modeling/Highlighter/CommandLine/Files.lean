import Highlighter.Error

/-! # Files

    What the command line can see of a file system.  A `Disk` holds the
    files below a directory; a path is followed from that directory name
    by name, and fails where a name is unknown or stands for a file while
    the path goes on. -/

namespace Highlighter.CommandLine

/-- How files are seen. -/
structure Files where
  /-- The names in a directory. -/
  names : String → Except FileError (List String)
  /-- The text of a file. -/
  content : String → Except FileError String

/-- The names of a path; an empty one stands for a repeated slash. -/
def pathNames (path : String) : List String := path.splitOn "/"

/-- Files with the names that lead to them. -/
abbrev Disk := List (List String × String)

/-- What a path leads to. -/
inductive Item where
  | file (content : String)
  | directory (path : List String)

namespace Disk

/-- What stands under a name in a directory. -/
def child (disk : Disk) (directory : List String) (name : String) : Except FileError Item :=
  let path := directory ++ [name]
  match disk.find? (·.1 == path) with
  | some (_, content) => .ok (.file content)
  | none =>
      if disk.any fun f => path.isPrefixOf f.1 then .ok (.directory path) else .error .notFound

/-- Follows the names of a path. -/
def follow (disk : Disk) : Item → List String → Except FileError Item
  | item, [] => .ok item
  | .file _, _ :: _ => .error .notADirectory
  | .directory path, name :: names =>
      if name = "" ∨ name = "." then disk.follow (.directory path) names
      else if name = ".." then
        if path.isEmpty then .error .notFound else disk.follow (.directory path.dropLast) names
      else
        match disk.child path name with
        | .ok item => disk.follow item names
        | .error e => .error e

/-- What a path leads to.  Paths from the root lead nowhere. -/
def find (disk : Disk) (path : String) : Except FileError Item :=
  if path.startsWith "/" then .error .notFound
  else disk.follow (.directory []) (pathNames path)

/-- The names in a directory, each once. -/
def namesIn (disk : Disk) (directory : List String) : List String :=
  (disk.filterMap fun f =>
    if directory.isPrefixOf f.1 then (f.1.drop directory.length).head? else none).eraseDups

/-- The disk as it is seen. -/
def files (disk : Disk) : Files where
  names path := do
    match ← disk.find path with
    | .directory directory => .ok (disk.namesIn directory)
    | .file _ => .error .notADirectory
  content path := do
    match ← disk.find path with
    | .file content => .ok content
    | .directory _ => .error .isADirectory

end Disk

/-- The extension of a file name: what follows the last point, unless the
    name begins with that point. -/
def extensionOf? (name : String) : Option String :=
  let reversed := name.toList.reverse
  match reversed.dropWhile (· != '.') with
  | '.' :: _ :: _ => some (String.ofList (reversed.takeWhile (· != '.')).reverse)
  | _ => none

/-- The extension of the last name of a path. -/
def extension? (path : String) : Option String :=
  match ((pathNames path).filter fun n => n ≠ "" ∧ n ≠ ".").getLast? with
  | none => none
  | some name => if name = ".." then none else extensionOf? name

end Highlighter.CommandLine
