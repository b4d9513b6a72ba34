import Highlighter.Json.Value
import Highlighter.Text.Bytes
import Highlighter.Text.Quoted

/-! # Failures of reading JSON

    Why a text cannot be read, and where.  A failure remembers what was not
    consumed yet; the position follows from that.  Texts from files are
    read a byte ahead, so a byte looked at counts there even where it does
    not in a text at hand. -/

namespace Highlighter.Json

/-- What stands in place of an expected value. -/
inductive Found where
  | null
  | bool (b : Bool)
  | number (n : Number)
  | string (s : String)
  | sequence
  | map

/-- What was found, in words. -/
def Found.describe : Found → String
  | .null => "null"
  | .bool b => "boolean `" ++ (if b then "true" else "false") ++ "`"
  | .number (.integer n) => "integer `" ++ Number.text (.integer n) ++ "`"
  | .number (.real x) => "floating point `" ++ Number.text (.real x) ++ "`"
  | .string s => "string " ++ Text.quoted s
  | .sequence => "sequence"
  | .map => "map"

/-- Why a text cannot be read. -/
inductive Cause where
  | endOfList
  | endOfObject
  | endOfString
  | endOfValue
  | expectedColon
  | expectedListCommaOrEnd
  | expectedObjectCommaOrEnd
  | expectedIdent
  | expectedValue
  | invalidEscape
  | invalidNumber
  | numberOutOfRange
  | loneSurrogate
  | unfinishedSurrogatePair
  | keyMustBeString
  | trailingComma
  | trailingCharacters
  | controlCharacter
  | tooDeep
  /-- A field without which nothing can be made of an object. -/
  | missingField (name : String)
  | duplicateField (name : String)
  | invalidType (found : Found) (expected : String)
  | invalidLength (length : Nat) (expected : String)
  /-- A value of none of the forms of a type. -/
  | noVariant (type : String)

/-- The text of a cause. -/
def Cause.message : Cause → String
  | .endOfList => "EOF while parsing a list"
  | .endOfObject => "EOF while parsing an object"
  | .endOfString => "EOF while parsing a string"
  | .endOfValue => "EOF while parsing a value"
  | .expectedColon => "expected `:`"
  | .expectedListCommaOrEnd => "expected `,` or `]`"
  | .expectedObjectCommaOrEnd => "expected `,` or `\x7d`"
  | .expectedIdent => "expected ident"
  | .expectedValue => "expected value"
  | .invalidEscape => "invalid escape"
  | .invalidNumber => "invalid number"
  | .numberOutOfRange => "number out of range"
  | .loneSurrogate => "lone leading surrogate in hex escape"
  | .unfinishedSurrogatePair => "unexpected end of hex escape"
  | .keyMustBeString => "key must be a string"
  | .trailingComma => "trailing comma"
  | .trailingCharacters => "trailing characters"
  | .controlCharacter => "control character (\\u0000-\\u001F) found while parsing a string"
  | .tooDeep => "recursion limit exceeded"
  | .missingField name => "missing field `" ++ name ++ "`"
  | .duplicateField name => "duplicate field `" ++ name ++ "`"
  | .invalidType found expected =>
      "invalid type: " ++ found.describe ++ ", expected " ++ expected
  | .invalidLength length expected =>
      "invalid length " ++ toString length ++ ", expected " ++ expected
  | .noVariant type => "data did not match any variant of untagged enum " ++ type

/-- A cause and how far reading had come. -/
structure Failure where
  cause : Cause
  /-- What had not been consumed. -/
  rest : List Char
  /-- How many bytes of that count as read. -/
  seen : Nat := 0
  /-- Whether one more byte counts when the text comes from a file. -/
  ahead : Bool := false

/-- A failure over the next byte, which counts as read. -/
def Failure.peek (cause : Cause) (rest : List Char) : Failure := { cause, rest, seen := 1 }

-- ── Positions ────────────────────────────────────────────────────────────

/-- A line, from one on, and the number of bytes read on it. -/
structure Position where
  line : Nat
  column : Nat
deriving DecidableEq, Repr

/-- The position before a text. -/
def Position.start : Position := ⟨1, 0⟩

/-- The position behind one more character. -/
def Position.next (p : Position) (c : Char) : Position :=
  if c = '\n' then ⟨p.line + 1, 0⟩ else { p with column := p.column + c.utf8Size }

/-- The position behind so many more bytes of a text, or behind the text. -/
def Position.advance (p : Position) : Nat → List Char → Position
  | 0, _ => p
  | _, [] => p
  | n + 1, c :: cs =>
      if c.utf8Size ≤ n + 1 then (p.next c).advance (n + 1 - c.utf8Size) cs
      else { p with column := p.column + (n + 1) }

/-- Where a text comes from. -/
inductive Medium where
  | memory
  | file
deriving DecidableEq, Repr

/-- A cause and its place in the text. -/
structure Error where
  cause : Cause
  position : Position

/-- The error for a failure to read a text. -/
def Failure.toError (f : Failure) (medium : Medium) (text : List Char) : Error :=
  let seen := if f.ahead && medium = .file then f.seen + 1 else f.seen
  let consumed := Text.byteLength text - Text.byteLength f.rest
  ⟨f.cause, Position.start.advance (consumed + seen) text⟩

/-- The error as a text. -/
def Error.message (e : Error) : String :=
  e.cause.message ++ " at line " ++ toString e.position.line ++ " column " ++
    toString e.position.column

end Highlighter.Json
