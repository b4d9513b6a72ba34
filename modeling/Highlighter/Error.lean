import Highlighter.Json.Failure
import Highlighter.Tokenizer.Scan

/-! # Errors

    What can go wrong in loading grammars and highlighting with them, by
    its cause.  `message` words it for users, `show` gives it with its
    parts for the command line. -/

namespace Highlighter

/-- What the system says about a file. -/
inductive FileError where
  | notFound
  | notADirectory
  | isADirectory
deriving DecidableEq, Repr

namespace FileError

/-- The number of the system's error. -/
def code : FileError → Nat
  | .notFound => 2
  | .notADirectory => 20
  | .isADirectory => 21

/-- The name of the error. -/
def kind : FileError → String
  | .notFound => "NotFound"
  | .notADirectory => "NotADirectory"
  | .isADirectory => "IsADirectory"

/-- The words of the error. -/
def words : FileError → String
  | .notFound => "No such file or directory"
  | .notADirectory => "Not a directory"
  | .isADirectory => "Is a directory"

/-- The error as a text. -/
def message (e : FileError) : String :=
  e.words ++ " (os error " ++ toString e.code ++ ")"

/-- The error with its parts. -/
def detail (e : FileError) : String :=
  "Os \x7b code: " ++ toString e.code ++ ", kind: " ++ e.kind ++ ", message: " ++
    Text.quoted e.words ++ " \x7d"

end FileError

/-- Why a document cannot be read. -/
inductive DocumentError where
  /-- Its text is at fault. -/
  | text (e : Json.Error)
  /-- The file gives no text. -/
  | unreadable (e : FileError)

/-- The error as a text. -/
def DocumentError.message : DocumentError → String
  | .text e => e.message
  | .unreadable e => e.message

/-- The error with its parts. -/
def DocumentError.detail : DocumentError → String
  | .text e =>
      "Error(" ++ Text.quoted e.cause.message ++ ", line: " ++ toString e.position.line ++
        ", column: " ++ toString e.position.column ++ ")"
  | .unreadable e => "Error(" ++ Text.quoted e.message ++ ", line: 0, column: 0)"

/-- Whatever can go wrong. -/
inductive Error where
  /-- A grammar file cannot be opened. -/
  | file (e : FileError)
  /-- A grammar document cannot be read. -/
  | document (e : DocumentError)
  /-- A pattern of a grammar document cannot be read. -/
  | invalidPattern (regex : Regex) (e : Regex.SyntaxError)
  /-- There is no language of a name. -/
  | grammarNotFound (name : String)
  /-- There is no hook of a name. -/
  | unknownHook (name : String)
  /-- A text cannot be tokenized. -/
  | tokenizing (fault : Tokenizer.Fault)

namespace Error

/-- What is said of a pattern that cannot be read. -/
def patternText (regex : Regex) (e : Regex.SyntaxError) : String :=
  "regex compilation error: " ++ regex.toString ++ ": " ++ e.describe

/-- What is said of a fault in tokenizing. -/
def faultText : Tokenizer.Fault → String
  | .brokenRegex regex e => patternText regex e
  | .gaveUp regex => "too many dead ends: " ++ regex.toString
  | .noSuchGrammar id => "there is no grammar " ++ toString id
  | .splitCharacter => "a token begins inside a character"
  | .overfull => "there are more fragments than bytes"
  | .endless => "tokens nest without end"

/-- The error in words. -/
def message : Error → String
  | .file e => "I/O error: " ++ e.message
  | .document e => "JSON parsing error: " ++ e.message
  | .invalidPattern regex e =>
      "invalid pattern '" ++ regex.toString ++ "': " ++ patternText regex e
  | .grammarNotFound name => "grammar '" ++ name ++ "' not found"
  | .unknownHook name => "unknown hook '" ++ name ++ "'"
  | .tokenizing fault => faultText fault

/-- What the error comes from, in words, when it comes from outside. -/
def source? : Error → Option String
  | .file e => some e.message
  | .document e => some e.message
  | _ => none

/-- The error with its parts. -/
def detail : Error → String
  | .file e => "Io(" ++ e.detail ++ ")"
  | .document e => "Json(" ++ e.detail ++ ")"
  | .invalidPattern regex e =>
      "InvalidRegex \x7b pattern: " ++ Text.quoted regex.toString ++ ", reason: " ++
        Text.quoted (patternText regex e) ++ " \x7d"
  | .grammarNotFound name => "GrammarNotFound(" ++ Text.quoted name ++ ")"
  | .unknownHook name => "UnknownHook(" ++ Text.quoted name ++ ")"
  | .tokenizing (.brokenRegex regex e) =>
      "TokenizeRegex(" ++ Text.quoted (regex.toString ++ ": " ++ e.describe) ++ ")"
  | .tokenizing fault => faultText fault

end Error

end Highlighter
