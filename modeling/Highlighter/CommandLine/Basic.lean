import Highlighter.Builtin.Basic
import Highlighter.CommandLine.Files
import Highlighter.CommandLine.Options
import Highlighter.Fragment.Encoding

/-! # The command line

    Highlights a file, or the standard input, with the builtin languages
    and those of the grammar files in given directories.  A run is a
    function of the arguments, the input and the files. -/

namespace Highlighter.CommandLine

/-- What a run leaves behind. -/
structure Outcome where
  code : Nat
  stdout : String := ""
  stderr : String := ""
deriving DecidableEq, Repr

/-- What makes a run fail. -/
inductive Failure where
  /-- A file or directory that was named cannot be used. -/
  | file (e : FileError)
  | highlighting (e : Error)

/-- The failure with its parts. -/
def Failure.detail : Failure → String
  | .file e => e.detail
  | .highlighting e => e.detail

/-- Whether the failure is one of the program and not of its input. -/
def Failure.isFatal : Failure → Bool
  | .highlighting (.tokenizing (.brokenRegex _ _)) => false
  | .highlighting (.tokenizing _) => true
  | _ => false

/-- Whether a file in a directory of grammars is one. -/
def isGrammarFile (name : String) : Bool := extensionOf? name == some "json"

/-- Adds the languages of grammar files in order. -/
def loadFiles (files : Files) (directory : String) :
    List String → Registry → Except Failure Registry
  | [], r => .ok r
  | name :: names, r =>
      match r.loadFile (files.content (directory ++ "/" ++ name)) with
      | (.ok _, r) => loadFiles files directory names r
      | (.error e, _) => .error (.highlighting e)

/-- Adds the languages of the grammar files in directories. -/
def loadDirectories (files : Files) : List String → Registry → Except Failure Registry
  | [], r => .ok r
  | directory :: directories, r =>
      match files.names directory with
      | .error e => .error (.file e)
      | .ok names =>
          match loadFiles files directory ((sorted names).filter isGrammarFile) r with
          | .error e => .error e
          | .ok r => loadDirectories files directories r

/-- The registry of a run. -/
def registry (files : Files) (o : Options) : Except Failure Registry := do
  let r ← Registry.builtin.mapError Failure.highlighting
  loadDirectories files o.directories r

/-- A line for every language that is missing. -/
def warnings (r : Registry) : String :=
  String.join (r.catalog.missing.map fun name =>
    "warning: grammar '" ++ name ++ "' is referenced but was never loaded\n")

/-- A text to highlight. -/
def code (files : Files) (stdin : String) (o : Options) : Except Failure String :=
  match o.file with
  | none => .ok stdin
  | some path =>
      match files.content path with
      | .ok content => .ok content
      | .error e => .error (.file e)

/-- The language to highlight with: the one asked for, that of the file, or
    the plain one. -/
def language (o : Options) : String :=
  (o.language.or (o.file.bind extension?)).getD plainName

/-- The text as HTML. -/
def htmlText (r : Registry) (o : Options) (code : String) : Except Error String :=
  r.highlight (language o) code true

/-- The tokens of the text. -/
def tokenText (r : Registry) (o : Options) (code : String) : Except Error String := do
  let id ← r.grammarFor (language o) false
  match r.tokenize id code with
  | .ok fs => .ok (String.ofList (Fragment.encodeAll fs).pretty)
  | .error fault => .error (.tokenizing fault)

/-- What is written for a text. -/
def output (r : Registry) (o : Options) (code : String) : Except Failure String :=
  let text := match o.format.getD .html with
    | .html => htmlText r o code
    | .tokens => tokenText r o code
  match text with
  | .ok text => .ok (text ++ "\n")
  | .error e => .error (.highlighting e)

/-- What is written with a registry. -/
def written (files : Files) (stdin : String) (o : Options) (r : Registry) : Except Failure String :=
  if o.list then .ok (String.join (r.catalog.languages.map (· ++ "\n")))
  else do
    let text ← code files stdin o
    output r o text

/-- The outcome of what was written after warnings. -/
def outcome (warnings : String) : Except Failure String → Outcome
  | .ok stdout => ⟨0, stdout, warnings⟩
  | .error e =>
      if e.isFatal then ⟨101, "", warnings⟩
      else ⟨1, "", warnings ++ "Error: " ++ e.detail ++ "\n"⟩

/-- Runs with what the registry has come to. -/
def runFrom (files : Files) (stdin : String) (o : Options) : Except Failure Registry → Outcome
  | .ok r => outcome (warnings r) (written files stdin o r)
  | .error e => outcome "" (.error e)

/-- Runs with options. -/
def runWith (files : Files) (stdin : String) (o : Options) : Outcome :=
  runFrom files stdin o (registry files o)

/-- Runs with arguments.  Faults in these are told apart by the code 2.
    What is said of them, and of the program itself, is left out. -/
def run (files : Files) (stdin : String) (args : List String) : Outcome :=
  match Request.ofArguments? args with
  | some (.highlight o) => runWith files stdin o
  | some .about => { code := 0 }
  | none => { code := 2 }

end Highlighter.CommandLine
