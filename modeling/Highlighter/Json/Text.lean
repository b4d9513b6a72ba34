import Highlighter.Json.Failure

/-! # JSON strings

    How a text is written between quotes and read back.  Reading takes the
    escapes of the format, with pairs of surrogates for the characters
    beyond four hexadecimal digits; writing escapes only what has to be. -/

namespace Highlighter.Json

-- ── Reading ──────────────────────────────────────────────────────────────

/-- The value of a hexadecimal digit. -/
def hexDigit? (c : Char) : Option Nat :=
  if '0' ≤ c ∧ c ≤ '9' then some (c.toNat - '0'.toNat)
  else if 'a' ≤ c ∧ c ≤ 'f' then some (c.toNat - 'a'.toNat + 10)
  else if 'A' ≤ c ∧ c ≤ 'F' then some (c.toNat - 'A'.toNat + 10)
  else none

/-- The number written by four hexadecimal digits. -/
def hex4? (a b c d : Char) : Option Nat := do
  let a ← hexDigit? a
  let b ← hexDigit? b
  let c ← hexDigit? c
  let d ← hexDigit? d
  some (((a * 16 + b) * 16 + c) * 16 + d)

/-- Fails over the four bytes that should have been hexadecimal digits. -/
def badHex (cs : List Char) : Failure :=
  if Text.byteLength cs < 4 then { cause := .endOfString, rest := [] }
  else { cause := .invalidEscape, rest := cs, seen := 4 }

/-- Reads four hexadecimal digits. -/
def hex4 (cs : List Char) : Except Failure (Nat × List Char) :=
  match cs with
  | a :: b :: c :: d :: rest =>
      match hex4? a b c d with
      | some n => .ok (n, rest)
      | none => .error (badHex cs)
  | cs => .error (badHex cs)

/-- Whether a number is the first one of a surrogate pair. -/
def isLeading (n : Nat) : Bool := 0xD800 ≤ n && n ≤ 0xDBFF

/-- Whether a number is the second one of a surrogate pair. -/
def isTrailing (n : Nat) : Bool := 0xDC00 ≤ n && n ≤ 0xDFFF

/-- The character of a surrogate pair. -/
def ofSurrogates (leading trailing : Nat) : Char :=
  Char.ofNat (0x10000 + (leading - 0xD800) * 0x400 + (trailing - 0xDC00))

/-- Reads the second half of a surrogate pair. -/
def trailing (leading : Nat) : List Char → Except Failure (Char × List Char)
  | '\\' :: 'u' :: cs => do
      let (n, cs) ← hex4 cs
      if isTrailing n then .ok (ofSurrogates leading n, cs)
      else .error { cause := .loneSurrogate, rest := cs }
  | '\\' :: c :: cs => .error (.peek .unfinishedSurrogatePair (c :: cs))
  | ['\\'] => .error { cause := .endOfString, rest := [] }
  | c :: cs => .error (.peek .unfinishedSurrogatePair (c :: cs))
  | [] => .error { cause := .endOfString, rest := [] }

/-- Reads what follows `\u`. -/
def readUnicode (cs : List Char) : Except Failure (Char × List Char) := do
  let (n, cs) ← hex4 cs
  if isTrailing n then .error { cause := .loneSurrogate, rest := cs }
  else if isLeading n then trailing n cs
  else .ok (Char.ofNat n, cs)

/-- The character of an escape by a letter. -/
def letterEscape? (c : Char) : Option Char :=
  match c with
  | '"' => some '"'
  | '\\' => some '\\'
  | '/' => some '/'
  | 'b' => some '\x08'
  | 'f' => some '\x0c'
  | 'n' => some '\n'
  | 'r' => some '\r'
  | 't' => some '\t'
  | _ => none

/-- Reads the character of an escape, behind the backslash. -/
def readEscape : List Char → Except Failure (Char × List Char)
  | [] => .error { cause := .endOfString, rest := [] }
  | 'u' :: cs => readUnicode cs
  | c :: cs =>
      match letterEscape? c with
      | some d => .ok (d, cs)
      | none => .error (.peek .invalidEscape (c :: cs))

/-- Reads the characters up to the closing quote; each step takes one at
    least, so their number is the fuel. -/
def readChars : (fuel : Nat) → List Char → Except Failure (List Char × List Char)
  | 0, cs => .error { cause := .endOfString, rest := cs }
  | _ + 1, [] => .error { cause := .endOfString, rest := [] }
  | fuel + 1, c :: cs =>
      if c = '"' then .ok ([], cs)
      else if c = '\\' then do
        let (d, cs) ← readEscape cs
        let (s, cs) ← readChars fuel cs
        .ok (d :: s, cs)
      else if c.toNat < 0x20 then .error (.peek .controlCharacter (c :: cs))
      else do
        let (s, cs) ← readChars fuel cs
        .ok (c :: s, cs)

/-- Reads a string behind its opening quote. -/
def readString (cs : List Char) : Except Failure (String × List Char) := do
  let (s, cs) ← readChars (cs.length + 1) cs
  .ok (String.ofList s, cs)

/-- Passes over an escape whatever it stands for. -/
def skipEscape : List Char → Except Failure (List Char)
  | 'u' :: cs => do
      let (_, cs) ← hex4 cs
      .ok cs
  | cs => do
      let (_, cs) ← readEscape cs
      .ok cs

/-- Passes over the characters up to the closing quote. -/
def skipChars : (fuel : Nat) → List Char → Except Failure (List Char)
  | 0, cs => .error { cause := .endOfString, rest := cs }
  | _ + 1, [] => .error { cause := .endOfString, rest := [] }
  | fuel + 1, c :: cs =>
      if c = '"' then .ok cs
      else if c = '\\' then do
        let cs ← skipEscape cs
        skipChars fuel cs
      else if c.toNat < 0x20 then
        .error { cause := .controlCharacter, rest := c :: cs, ahead := true }
      else skipChars fuel cs

/-- Passes over a string behind its opening quote. -/
def skipString (cs : List Char) : Except Failure (List Char) := skipChars (cs.length + 1) cs

-- ── Writing ──────────────────────────────────────────────────────────────

/-- A hexadecimal digit. -/
def hexDigit (n : Nat) : Char := Nat.digitChar (n % 16)

/-- A character as it is written between quotes. -/
def writeChar (c : Char) : List Char :=
  match c with
  | '"' => ['\\', '"']
  | '\\' => ['\\', '\\']
  | '\x08' => ['\\', 'b']
  | '\x0c' => ['\\', 'f']
  | '\n' => ['\\', 'n']
  | '\r' => ['\\', 'r']
  | '\t' => ['\\', 't']
  | c =>
      if c.toNat < 0x20 then ['\\', 'u', '0', '0', hexDigit (c.toNat / 16), hexDigit c.toNat]
      else [c]

/-- A string in quotes. -/
def writeString (s : String) : List Char :=
  '"' :: s.toList.flatMap writeChar ++ ['"']

end Highlighter.Json
