import Highlighter.Json.Text

/-! # Writing JSON

    The compact form has no blanks.  The pretty form puts each element and
    member on a line of its own, two blanks further in than the value they
    belong to. -/

namespace Highlighter.Json

mutual

/-- A value without blanks. -/
def compact : Json → List Char
  | .null => ['n', 'u', 'l', 'l']
  | .bool true => ['t', 'r', 'u', 'e']
  | .bool false => ['f', 'a', 'l', 's', 'e']
  | .number n => n.text.toList
  | .string s => writeString s
  | .array vs => '[' :: compactElements vs ++ [']']
  | .object ms => '{' :: compactMembers ms ++ ['}']

/-- Elements with commas between them. -/
def compactElements : List Json → List Char
  | [] => []
  | [v] => v.compact
  | v :: w :: vs => v.compact ++ ',' :: compactElements (w :: vs)

/-- Members with commas between them. -/
def compactMembers : List (String × Json) → List Char
  | [] => []
  | [(name, v)] => writeString name ++ ':' :: v.compact
  | (name, v) :: m :: ms => writeString name ++ ':' :: v.compact ++ ',' :: compactMembers (m :: ms)

end

/-- A new line, so many levels in. -/
def newline (level : Nat) : List Char := '\n' :: List.replicate (2 * level) ' '

mutual

/-- A value over several lines, which stands so many levels in. -/
def prettyAt (level : Nat) : Json → List Char
  | .null => ['n', 'u', 'l', 'l']
  | .bool true => ['t', 'r', 'u', 'e']
  | .bool false => ['f', 'a', 'l', 's', 'e']
  | .number n => n.text.toList
  | .string s => writeString s
  | .array [] => ['[', ']']
  | .array (v :: vs) => '[' :: prettyElements (level + 1) (v :: vs) ++ newline level ++ [']']
  | .object [] => ['{', '}']
  | .object (m :: ms) => '{' :: prettyMembers (level + 1) (m :: ms) ++ newline level ++ ['}']

/-- Elements, each on a line of its own. -/
def prettyElements (level : Nat) : List Json → List Char
  | [] => []
  | [v] => newline level ++ prettyAt level v
  | v :: w :: vs => newline level ++ prettyAt level v ++ ',' :: prettyElements level (w :: vs)

/-- Members, each on a line of its own. -/
def prettyMembers (level : Nat) : List (String × Json) → List Char
  | [] => []
  | [(name, v)] => newline level ++ writeString name ++ ':' :: ' ' :: prettyAt level v
  | (name, v) :: m :: ms =>
      newline level ++ writeString name ++ ':' :: ' ' :: prettyAt level v ++
        ',' :: prettyMembers level (m :: ms)

end

/-- A value over several lines. -/
def pretty (v : Json) : List Char := prettyAt 0 v

end Highlighter.Json
