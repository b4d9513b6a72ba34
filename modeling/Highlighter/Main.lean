import Highlighter.CommandLine.Basic

/-! # The program

    Reads what the arguments name, runs, and writes what the run has
    left. -/

namespace Highlighter

open CommandLine

/-- What reading a file has led to. -/
def readContent (path : String) : IO (Except FileError String) := do
  let entry : IO.FS.DirEntry := ⟨path, "."⟩
  if ← entry.path.isDir then return .error .isADirectory
  try return .ok (← IO.FS.readFile path)
  catch _ => return .error .notFound

/-- What listing a directory has led to. -/
def readNames (path : String) : IO (Except FileError (List String)) := do
  let entry : IO.FS.DirEntry := ⟨path, "."⟩
  try
    let entries ← entry.path.readDir
    return .ok (entries.toList.map (·.fileName))
  catch _ =>
    let isFile := match ← readContent path with
      | .ok _ => true
      | .error _ => false
    return .error (if isFile then .notADirectory else .notFound)

/-- What a table of results says of a path. -/
def recorded {α : Type} (results : List (String × Except FileError α)) (path : String) :
    Except FileError α :=
  (results.lookup path).getD (.error .notFound)

/-- The grammar files in a directory, with what reading them has led to. -/
def readGrammarFiles (directory : String) (names : Except FileError (List String)) :
    IO (List (String × Except FileError String)) :=
  match names with
  | .error _ => pure []
  | .ok names =>
      (names.filter isGrammarFile).mapM fun name => do
        let path := directory ++ "/" ++ name
        return (path, ← readContent path)

/-- The files that a run may look at. -/
def readFiles (o : Options) : IO Files := do
  let directories ← o.directories.mapM fun directory => do
    return (directory, ← readNames directory)
  let grammars ← directories.mapM fun d => readGrammarFiles d.1 d.2
  let file ← o.file.toList.mapM fun path => do
    return (path, ← readContent path)
  return { names := recorded directories, content := recorded (file ++ grammars.flatten) }

end Highlighter

open Highlighter Highlighter.CommandLine in
/-- Runs the program. -/
def main (args : List String) : IO UInt32 := do
  let outcome ←
    match Request.ofArguments? args with
    | none => pure { code := 2, stderr := "error: invalid arguments\n" }
    | some .about => pure { code := 0 }
    | some (.highlight o) => do
        let files ← readFiles o
        let stdin ← match o.file with
          | some _ => pure ""
          | none => (← IO.getStdin).readToEnd
        pure (runWith files stdin o)
  IO.eprint outcome.stderr
  IO.print outcome.stdout
  return UInt32.ofNat outcome.code
