import Highlighter.Regex.Reader.Name
import Highlighter.Regex.Reader.Option

/-! # Reading patterns

    A pattern is read from left to right into a tree.  A closing
    parenthesis turns the innermost open group into one piece of the next.
    Every step takes a character, so the reader ends.

    Properties of characters, text segments, calls of groups, conditions,
    absent groups and callouts are refused as unsupported.

    An option that stands alone, as in `a(?i)b|c`, opens a frame of its
    own that lasts to the end of the group around it. -/

namespace Highlighter.Regex.Reader

-- ── Escapes ──────────────────────────────────────────────────────────────

/-- The highest number of a group. -/
def maxGroup : Nat := 1000

/-- The number of a group that an escape refers to, and what follows it. -/
def backNumber? (r : Reader) (cs : List Char) : Option (Nat × List Char) :=
  match cs with
  | '0' :: _ => none
  | _ =>
      match Escape.number? cs with
      | (some n, rest) => if n ≤ maxGroup ∧ (n ≤ r.groups ∨ n ≤ 9) then some (n, rest) else none
      | (none, _) => none

/-- The escape for a byte in front, if it is one. -/
def escapedByte? (r : Reader) (cs : List Char) :
    Except SyntaxError (Option (Nat × List Char)) := do
  match ← Radix.hexadecimal.escapedByte? cs with
  | some b => .ok (some b)
  | none => if (r.backNumber? (cs.drop 1)).isSome then .ok none else Radix.octal.escapedByte? cs

/-- Adds the character whose first byte stands in front. -/
def pushBytes (r : Reader) (radix : Radix) (cs : List Char) :
    Except SyntaxError (Reader × List Char) := do
  let (b, rest) ← radix.byte cs
  let (n?, rest) ← Escape.characterOfBytes r.escapedByte? b rest
  .ok (n?.elim (r.push (.set .none)) r.pushCode, rest)

/-- Adds code points one by one. -/
def pushItems (r : Reader) : List Radix.CodeItem → Except SyntaxError Reader
  | [] => .ok r
  | .dash :: items => r.pushItems items
  | .code n :: items => do
      Radix.checkCode n
      (r.pushCode n).pushItems items

/-- Adds the code points between braces; without any, the letter in front
    of the brace stands for itself. -/
def pushBraced (r : Reader) (radix : Radix) (letter : Char) (cs : List Char) :
    Except SyntaxError (Reader × List Char) := do
  match ← radix.codes? false false cs with
  | some (items, rest) => .ok (← r.pushItems items, rest)
  | none => .ok (r.pushPlain letter, '{' :: cs)

/-- Adds the character of an escape that has no other meaning. -/
def pushEscaped (r : Reader) (c : Char) (cs : List Char) :
    Except SyntaxError (Reader × List Char) := do
  let (n, rest) ← Escape.value (c :: cs)
  .ok (if n = c.toNat then r.pushPlain c else r.pushCode n, rest)

/-- Whether an escape is for a property of characters, for a call of a group,
    or for a place that depends on more than the text around it; none of
    these is read. -/
def isUnsupported (c : Char) (cs : List Char) : Bool :=
  match c with
  | 'p' | 'P' => cs.head? == some '{'
  | 'g' => cs.head? == some '<' || cs.head? == some '\''
  | 'K' | 'G' | 'X' | 'y' | 'Y' => true
  | _ => false

/-- Reads on behind a backslash. -/
def escape (r : Reader) : List Char → Except SyntaxError (Reader × List Char)
  | [] => .error .danglingEscape
  | 'A' :: cs => .ok (r.push (.anchor .start), cs)
  | 'z' :: cs => .ok (r.push (.anchor .finish), cs)
  | 'Z' :: cs => .ok (r.push (.anchor .beforeLastNewline), cs)
  | 'O' :: cs => .ok (r.push (.dot true), cs)
  | 'N' :: cs => .ok (r.push (.dot false), cs)
  | 'R' :: cs => .ok (r.push .lineBreak, cs)
  | 'k' :: '<' :: cs => r.pushReference '>' cs
  | 'k' :: '\'' :: cs => r.pushReference '\'' cs
  | ['u'] => .ok (r.pushPlain 'u', [])
  | 'u' :: cs => do
      let (n, rest) ← Escape.fourDigits cs
      .ok (r.pushCode n, rest)
  | ['x'] => .ok (r.pushPlain 'x', [])
  | 'x' :: '{' :: cs => r.pushBraced .hexadecimal 'x' cs
  | 'x' :: cs => r.pushBytes .hexadecimal cs
  | 'o' :: '{' :: cs => r.pushBraced .octal 'o' cs
  | c :: cs =>
      match Escape.set? r.modes.asciiSpace c with
      | some s => .ok (r.push (.set s), cs)
      | none =>
          match r.backNumber? (c :: cs) with
          | some (n, rest) => .ok (r.pushAgain [n] none, rest)
          | none =>
              if (Escape.octal? c).isSome then r.pushBytes .octal (c :: cs)
              else if isUnsupported c cs then .error .unsupported
              else r.pushEscaped c cs

-- ── Groups ───────────────────────────────────────────────────────────────

/-- What follows the comment in a pattern, behind its closing parenthesis. -/
def afterComment : List Char → Except SyntaxError (List Char)
  | [] => .error .unfinishedGroup
  | ')' :: cs => .ok cs
  | '\\' :: _ :: cs => afterComment cs
  | _ :: cs => afterComment cs

/-- Opens a capturing group. -/
def enterCapture (r : Reader) : Except SyntaxError Reader :=
  { r with groups := r.groups + 1 }.enter (.capture (r.groups + 1)) r.modes

/-- Opens a capturing group that has a name. -/
def enterNamed (r : Reader) (close : Char) (cs : List Char) :
    Except SyntaxError (Reader × List Char) := do
  let (name, rest) ← newName close cs
  let named := { r with names := r.names ++ [(name, r.groups + 1)] }
  .ok (← named.enterCapture, rest)

/-- Opens a group without options of its own. -/
def enterKind (r : Reader) (kind : GroupKind) (cs : List Char) :
    Except SyntaxError (Reader × List Char) := do
  .ok (← r.enter kind r.modes, cs)

/-- Reads on behind an opening parenthesis. -/
def openGroup (r : Reader) : List Char → Except SyntaxError (Reader × List Char)
  | '?' :: cs =>
      match cs with
      | [] => .error .unfinishedGroup
      | '#' :: cs => do .ok (r, ← afterComment cs)
      | ':' :: cs => r.enterKind .plain cs
      | '=' :: cs => r.enterKind (.ahead false) cs
      | '!' :: cs => r.enterKind (.ahead true) cs
      | '>' :: cs => r.enterKind .atomic cs
      | '<' :: '=' :: cs => r.enterKind (.behind false) cs
      | '<' :: '!' :: cs => r.enterKind (.behind true) cs
      | ['<'] => .error .unmatchedOpen
      | '<' :: cs => r.enterNamed '>' cs
      | '\'' :: cs => r.enterNamed '\'' cs
      | ')' :: _ => .error .unknownOption
      | '~' :: _ => .error .unsupported
      | '(' :: _ => .error .unsupported
      | '{' :: _ => .error .unsupported
      | cs => r.enterOptions cs
  | '*' :: _ => .error .unsupported
  | cs => do .ok (← r.enterCapture, cs)

/-- Adds a class, from behind its opening bracket. -/
def pushClass (r : Reader) (cs : List Char) : Except SyntaxError (Reader × List Char) := do
  let setting := { asciiSpace := r.modes.asciiSpace, room := maxDepth - r.depth }
  let (cls, rest) ← CharClass.read setting cs
  .ok (r.push (.ofClass r.casing cls), rest)

-- ── Steps ────────────────────────────────────────────────────────────────

/-- Whether a character is skipped where blanks are. -/
def isBlank (c : Char) : Bool :=
  c == ' ' || c == '\t' || c == '\n' || c == '\r' || c == '\x0c'

/-- Reads on behind the character `c`. -/
def step (r : Reader) (c : Char) (cs : List Char) : Except SyntaxError (Reader × List Char) :=
  if r.modes.extended && isBlank c then .ok (r, cs)
  else if r.modes.extended && c == '#' then .ok (r, (cs.dropWhile (· != '\n')).drop 1)
  else match c with
  | '\\' => r.escape cs
  | '(' => r.openGroup cs
  | ')' =>
      match r.leave r.outer with
      | some r => .ok (r, cs)
      | none => .error .unmatchedClose
  | '|' => .ok (r.nextChoice, cs)
  | '[' => r.pushClass cs
  | '.' => .ok (r.push (.dot r.modes.dotAll), cs)
  | '^' => .ok (r.push (.anchor (if r.modes.singleLine then .start else .lineStart)), cs)
  | '$' => .ok (r.push (.anchor (if r.modes.singleLine then .beforeLastNewline else .lineEnd)), cs)
  | c => do
      match ← Quantifier.read? (c :: cs) with
      | some (q, rest) => .ok (← r.quantify q, rest)
      | none => .ok (r.pushPlain c, cs)

/-- Reads on to the end of the pattern. -/
def readOn : (fuel : Nat) → Reader → List Char → Except SyntaxError (Tree × Reader)
  | _, r, [] => do .ok (← r.finish r.outer, r)
  | 0, _, _ => .error .tooDeep
  | fuel + 1, r, c :: cs => do
      let (r, rest) ← r.step c cs
      readOn fuel r rest

/-- What a pattern says: its tree, the number of its groups, and whether
    it asks for the longest match. -/
structure Reading where
  tree : Tree
  groups : Nat
  longest : Bool

/-- Reads a pattern. -/
def read (modes : Modes) (cs : List Char) : Except SyntaxError Reading := do
  let start : Reader := { frame := { kind := .whole, around := modes }, modes }
  let (tree, r) ← start.readOn cs.length cs
  r.checkWhole tree
  .ok { tree, groups := r.groups, longest := r.longest }

end Highlighter.Regex.Reader
