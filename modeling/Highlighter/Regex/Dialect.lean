import Highlighter.Regex.Flags

/-! # The syntax of regex literals

    Sources are written as in regex literals, which the engine reads
    differently in a few places: a bracket inside a class would open a
    class within it, `[^]` is any character and `[]` none, shorthands and
    word boundaries know ASCII only, and without the `m` flag a dollar is
    the very end of the text.  `expand` spells these out and copies
    everything else. -/

namespace Highlighter.Regex.Dialect

/-- Word characters, as members of a class. -/
def word : List Char := "a-zA-Z0-9_".toList

/-- Digits, as members of a class. -/
def digit : List Char := "0-9".toList

/-- A class of these members, or of all other characters. -/
def bracket (negated : Bool) (members : List Char) : List Char :=
  '[' :: (if negated then ['^'] else []) ++ members ++ [']']

/-- An assertion about the word character in front or behind. -/
def look (head : String) : List Char :=
  head.toList ++ bracket false word ++ [')']

/-- A word character on exactly one side. -/
def wordBoundary : List Char :=
  "(?:".toList ++ look "(?<=" ++ look "(?!" ++ '|' :: look "(?<!" ++ look "(?=" ++ [')']

/-- A word character on both sides or on none. -/
def noWordBoundary : List Char :=
  "(?:".toList ++ look "(?<=" ++ look "(?=" ++ '|' :: look "(?<!" ++ look "(?!" ++ [')']

/-- What an escaped character becomes. -/
def escape (inClass : Bool) (c : Char) : List Char :=
  match c with
  | 'w' => if inClass then word else bracket false word
  | 'd' => if inClass then digit else bracket false digit
  | 'W' => bracket true word
  | 'D' => bracket true digit
  | 'b' => if inClass then ['\\', 'b'] else wordBoundary
  | 'B' => if inClass then ['\\', 'B'] else noWordBoundary
  | c => ['\\', c]

/-- Expands from a place that is inside a class or outside. -/
def expandFrom (flags : Flags) : (inClass : Bool) → List Char → List Char
  | _, [] => []
  | _, ['\\'] => ['\\']
  | inClass, '\\' :: c :: cs => escape inClass c ++ expandFrom flags inClass cs
  | true, ']' :: cs => ']' :: expandFrom flags false cs
  | true, '[' :: cs => '\\' :: '[' :: expandFrom flags true cs
  | true, c :: cs => c :: expandFrom flags true cs
  | false, '$' :: cs =>
      (if flags.multiline then ['$'] else ['\\', 'z']) ++ expandFrom flags false cs
  | false, '[' :: '^' :: ']' :: cs => "[\\s\\S]".toList ++ expandFrom flags false cs
  | false, '[' :: ']' :: cs => "(?!)".toList ++ expandFrom flags false cs
  | false, '[' :: '^' :: cs => '[' :: '^' :: expandFrom flags true cs
  | false, '[' :: cs => '[' :: expandFrom flags true cs
  | false, c :: cs => c :: expandFrom flags false cs

/-- The source as the engine reads it. -/
def expand (flags : Flags) (source : List Char) : List Char :=
  expandFrom flags false source

end Highlighter.Regex.Dialect
