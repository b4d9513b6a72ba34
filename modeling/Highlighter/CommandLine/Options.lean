/-! # Options of the command line

    What the arguments ask for.  An option takes its value from the same
    argument or from the next one, unless that looks like an option; two
    dashes end the options.  Only directories of grammars may be given
    more than once.  Where help or the version is asked for, what comes
    behind does not matter any more. -/

namespace Highlighter.CommandLine

/-- What is written out. -/
inductive Format where
  | html
  | tokens
deriving DecidableEq, Repr

/-- The format of a name. -/
def Format.ofString? : String → Option Format
  | "html" => some .html
  | "tokens" => some .tokens
  | _ => none

/-- How to highlight what. -/
structure Options where
  language : Option String := none
  /-- Directories of grammar files. -/
  directories : List String := []
  format : Option Format := none
  /-- Whether to list the languages only. -/
  list : Bool := false
  /-- The file to highlight, in place of the standard input. -/
  file : Option String := none
deriving DecidableEq, Repr

/-- The options that take a value. -/
inductive Key where
  | language
  | directories
  | format
deriving DecidableEq, Repr

/-- The option of a letter. -/
def Key.ofLetter? : Char → Option Key
  | 'l' => some .language
  | 'g' => some .directories
  | 'f' => some .format
  | _ => none

/-- The option of a word. -/
def Key.ofWord? : String → Option Key
  | "lang" => some .language
  | "grammars" => some .directories
  | "format" => some .format
  | _ => none

namespace Options

/-- Gives an option a value. -/
def set? (o : Options) (key : Key) (value : String) : Option Options :=
  match key with
  | .language => if o.language.isSome then none else some { o with language := some value }
  | .directories =>
      if value.isEmpty then none else some { o with directories := o.directories ++ [value] }
  | .format =>
      if o.format.isSome then none
      else (Format.ofString? value).map fun f => { o with format := some f }

/-- Names the file to highlight. -/
def setFile? (o : Options) (value : String) : Option Options :=
  if value.isEmpty || o.file.isSome then none else some { o with file := some value }

/-- Asks for the list of languages. -/
def setList? (o : Options) : Option Options :=
  if o.list then none else some { o with list := true }

end Options

/-- What the arguments ask for. -/
inductive Request where
  | highlight (o : Options)
  /-- The version of the program, or help on how to use it. -/
  | about
deriving DecidableEq, Repr

/-- An argument by its form. -/
inductive Argument where
  /-- An option and the value in the same argument, if there is one. -/
  | option (key : Key) (value : Option String)
  | list
  | about
  /-- The end of the options. -/
  | dashes
  | plain (value : String)
  | unknown
deriving DecidableEq, Repr

/-- The form of an argument. -/
def Argument.ofString (s : String) : Argument :=
  match s.toList with
  | ['-', '-'] => .dashes
  | '-' :: '-' :: word =>
      let name := String.ofList (word.takeWhile (· != '='))
      let value := match word.dropWhile (· != '=') with
        | _ :: value => some (String.ofList value)
        | [] => none
      match Key.ofWord? name, value with
      | some key, value => .option key value
      | none, none =>
          if name = "list" then .list
          else if name = "help" || name = "version" then .about
          else .unknown
      | none, some _ => .unknown
  | ['-'] => .plain s
  | '-' :: letter :: rest =>
      match Key.ofLetter? letter, rest with
      | some key, [] => .option key none
      | some key, '=' :: value => .option key (some (String.ofList value))
      | some key, value => .option key (some (String.ofList value))
      | none, _ => if letter = 'h' || letter = 'V' then .about else .unknown
  | _ => .plain s

/-- Reads arguments that are no options. -/
def readPlain (o : Options) : List String → Option Request
  | [] => some (.highlight o)
  | s :: args => (o.setFile? s).bind fun o => readPlain o args

/-- Reads arguments, unless there is a fault in them. -/
def readArguments (o : Options) : List String → Option Request
  | [] => some (.highlight o)
  | s :: args =>
      match Argument.ofString s with
      | .option key (some value) => (o.set? key value).bind fun o => readArguments o args
      | .option key none =>
          match args with
          | [] => none
          | value :: args =>
              match Argument.ofString value with
              | .plain value => (o.set? key value).bind fun o => readArguments o args
              | _ => none
      | .list => o.setList?.bind fun o => readArguments o args
      | .about => some .about
      | .dashes => readPlain o args
      | .plain value => (o.setFile? value).bind fun o => readArguments o args
      | .unknown => none

/-- What the arguments ask for. -/
def Request.ofArguments? (args : List String) : Option Request := readArguments {} args

end Highlighter.CommandLine
