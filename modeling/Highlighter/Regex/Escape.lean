import Highlighter.Regex.CharSet
import Highlighter.Regex.SyntaxError

/-! # Escapes that stand for characters

    Code points in hexadecimal and octal, bytes of one character written
    one by one, and the letters for control characters.  A reader takes the
    characters after the escape's letter and returns what is left. -/

namespace Highlighter.Regex

namespace Escape

/-- The value of a decimal digit. -/
def decimal? (c : Char) : Option Nat :=
  if '0' ≤ c ∧ c ≤ '9' then some (c.toNat - '0'.toNat) else none

/-- The value of an octal digit. -/
def octal? (c : Char) : Option Nat :=
  if '0' ≤ c ∧ c ≤ '7' then some (c.toNat - '0'.toNat) else none

/-- The value of a hexadecimal digit, in either case. -/
def hexadecimal? (c : Char) : Option Nat :=
  if '0' ≤ c ∧ c ≤ '9' then some (c.toNat - '0'.toNat)
  else if 'a' ≤ c ∧ c ≤ 'f' then some (c.toNat - 'a'.toNat + 10)
  else if 'A' ≤ c ∧ c ≤ 'F' then some (c.toNat - 'A'.toNat + 10)
  else none

/-- At most `limit` digits from the front: how many there were, their
    value after `acc`, and the rest. -/
def digits (value? : Char → Option Nat) (base : Nat) :
    (limit : Nat) → (acc : Nat) → List Char → Nat × Nat × List Char
  | 0, acc, cs => (0, acc, cs)
  | _ + 1, acc, [] => (0, acc, [])
  | limit + 1, acc, c :: cs =>
      match value? c with
      | none => (0, acc, c :: cs)
      | some d =>
          let (n, v, rest) := digits value? base limit (acc * base + d) cs
          (n + 1, v, rest)

/-- All the decimal digits in front, if there are any. -/
def number? (cs : List Char) : Option Nat × List Char :=
  match digits decimal? 10 cs.length 0 cs with
  | (0, _, rest) => (none, rest)
  | (_, v, rest) => (some v, rest)

/-- Exactly four hexadecimal digits. -/
def fourDigits (cs : List Char) : Except SyntaxError (Nat × List Char) :=
  match digits hexadecimal? 16 4 0 cs with
  | (4, v, rest) => .ok (v, rest)
  | _ => .error .invalidCodePoint

end Escape

/-- The number base of a code point or a byte. -/
inductive Radix where
  | hexadecimal
  | octal
deriving DecidableEq, Repr

namespace Radix

/-- The value of a digit. -/
def digit? : Radix → Char → Option Nat
  | .hexadecimal => Escape.hexadecimal?
  | .octal => Escape.octal?

/-- The number base. -/
def base : Radix → Nat
  | .hexadecimal => 16
  | .octal => 8

/-- The most digits of a code point. -/
def codeDigits : Radix → Nat
  | .hexadecimal => 8
  | .octal => 11

/-- The most digits of a byte. -/
def byteDigits : Radix → Nat
  | .hexadecimal => 2
  | .octal => 3

-- ── Code points ──────────────────────────────────────────────────────────

/-- The highest number that a code point is written as. -/
def maxCode : Nat := 0xFFFFFFFF

/-- The number in front, if there is a digit. -/
def code? (radix : Radix) (cs : List Char) : Except SyntaxError (Option (Nat × List Char)) :=
  match Escape.digits radix.digit? radix.base radix.codeDigits 0 cs with
  | (0, _, _) => .ok none
  | (_, v, rest) => if v ≤ maxCode then .ok (some (v, rest)) else .error .numberTooBig

/-- What stands between the braces of code points. -/
inductive CodeItem where
  | code (n : Nat)
  /-- The dash of a range. -/
  | dash
deriving DecidableEq, Repr

/-- What a dash would do between the braces of code points. -/
inductive DashPlace where
  /-- It starts a range. -/
  | open
  /-- It would be a second one. -/
  | inRange
  /-- It follows a whole range. -/
  | closed
deriving DecidableEq, Repr

/-- Whether a character keeps code points apart. -/
def isDivider (c : Char) : Bool := c == ' ' || c == '\n'

/-- The code points after the first one, up to the closing brace.  Ranges
    of them exist in a class only.  `afterDigit` says that a number has
    just been read.  Every round takes a character, so the length of the
    text suffices as fuel. -/
def codesAfter (radix : Radix) (inClass : Bool) :
    (fuel : Nat) → (place : DashPlace) → (afterDigit : Bool) → List Char →
    Except SyntaxError (List CodeItem × List Char)
  | 0, _, _, _ => .error .invalidCodePoint
  | fuel + 1, place, afterDigit, cs => do
      match cs.dropWhile isDivider with
      | [] => .error .invalidCodePoint
      | '}' :: rest => if place = .inRange then .error .invalidCodePoint else .ok ([], rest)
      | c :: rest =>
          if c = '-' ∧ inClass then
            if place ≠ .open ∨ rest.isEmpty then .error .invalidCodePoint
            else do
              let (items, rest) ← codesAfter radix inClass fuel .inRange false rest
              .ok (.dash :: items, rest)
          else if afterDigit ∧ cs.head?.any (!isDivider ·) then
            .error (if (radix.digit? c).isSome then .codePointTooLong else .invalidCodePoint)
          else do
            match ← radix.code? (c :: rest) with
            | none => .error .invalidCodePoint
            | some (n, rest) =>
                let place := if place = .inRange then .closed else .open
                let (items, rest) ← codesAfter radix inClass fuel place true rest
                .ok (.code n :: items, rest)

/-- Code points between braces, from behind the opening one; nothing if
    there is no digit.  `inRange` says that a range in a class waits for
    its end. -/
def codes? (radix : Radix) (inClass inRange : Bool) (cs : List Char) :
    Except SyntaxError (Option (List CodeItem × List Char)) := do
  match ← radix.code? cs with
  | none => .ok none
  | some (_, []) => .error .invalidCodePoint
  | some (n, '}' :: rest) => .ok (some ([.code n], rest))
  | some (n, c :: rest) =>
      if (radix.digit? c).isSome then .error .codePointTooLong
      else do
        let place := if inRange then .closed else .open
        let (items, rest) ← radix.codesAfter inClass cs.length place false (c :: rest)
        if items.isEmpty then .error .invalidCodePoint
        else .ok (some (.code n :: items, rest))

/-- Whether a number stands for one of the two bytes that occur in no
    text. -/
def standsForByte (n : Nat) : Bool := n == maxCode - 1 || n == maxCode

/-- Refuses numbers that are no code points and stand for no byte. -/
def checkCode (n : Nat) : Except SyntaxError Unit :=
  if n ≤ 0x10FFFF || standsForByte n then .ok () else .error .codePointTooBig

-- ── Bytes ────────────────────────────────────────────────────────────────

/-- One byte, without what introduces it. -/
def byte (radix : Radix) (cs : List Char) : Except SyntaxError (Nat × List Char) :=
  let (_, v, rest) := Escape.digits radix.digit? radix.base radix.byteDigits 0 cs
  if v < 256 then .ok (v, rest) else .error .numberTooBig

/-- The escape for a byte in front, if it is one. -/
def escapedByte? (radix : Radix) : List Char → Except SyntaxError (Option (Nat × List Char))
  | ['\\'] => .error .danglingEscape
  | '\\' :: 'x' :: cs =>
      if radix = .hexadecimal ∧ !cs.isEmpty ∧ cs.head? ≠ some '{' then some <$> radix.byte cs
      else .ok none
  | '\\' :: c :: cs =>
      if radix = .octal ∧ (Escape.octal? c).isSome then some <$> radix.byte (c :: cs)
      else .ok none
  | _ => .ok none

end Radix

namespace Escape

/-- How many bytes a character has that starts with this one. -/
def byteCount (first : Nat) : Nat :=
  if first < 0xC0 then 1
  else if first < 0xE0 then 2
  else if first < 0xF0 then 3
  else if first < 0xF8 then 4
  else 1

/-- Whether a byte continues a character. -/
def isContinuation (b : Nat) : Bool := 0x80 ≤ b && b < 0xC0

/-- `count` more bytes, of which `next?` gives the first one. -/
def moreBytes (next? : List Char → Except SyntaxError (Option (Nat × List Char))) :
    (count : Nat) → List Char → Except SyntaxError (List Nat × List Char)
  | 0, cs => .ok ([], cs)
  | count + 1, cs => do
      match ← next? cs with
      | none => .error .truncatedCharacter
      | some (b, rest) =>
          let (bs, rest) ← moreBytes next? count rest
          .ok (b :: bs, rest)

/-- The code point that some bytes are the parts of, if it is one that is
    written with as many bytes. -/
def codeOfBytes? (first : Nat) (more : List Nat) : Option Nat :=
  let lead := first - (match more.length with
    | 0 => 0
    | 1 => 0xC0
    | 2 => 0xE0
    | _ => 0xF0)
  let n := more.foldl (fun acc b => acc * 64 + (b - 0x80)) lead
  if n.isValidChar ∧ (Char.ofNat n).utf8Size = more.length + 1 then some n else none

/-- The character whose first byte has been read; none if no character is
    written with these bytes. -/
def characterOfBytes (next? : List Char → Except SyntaxError (Option (Nat × List Char)))
    (first : Nat) (cs : List Char) : Except SyntaxError (Option Nat × List Char) := do
  let (more, rest) ← moreBytes next? (byteCount first - 1) cs
  if isContinuation first || !more.all isContinuation then .error .invalidCodePoint
  else .ok (codeOfBytes? first more, rest)

-- ── Letters ──────────────────────────────────────────────────────────────

/-- The control character an escaped letter stands for. -/
def control? : Char → Option Char
  | 'n' => some '\n'
  | 't' => some '\t'
  | 'r' => some '\r'
  | 'f' => some '\x0c'
  | 'a' => some '\x07'
  | 'b' => some '\x08'
  | 'e' => some '\x1b'
  | 'v' => some '\x0b'
  | _ => none

/-- The control character of a key. -/
def controlOf (n : Nat) : Nat := n / 128 % 2 * 128 + n % 32

/-- The code of a key that is pressed together with the meta key. -/
def metaOf (n : Nat) : Nat := 128 + n % 128

/-- The code of an escaped character, with keys for control characters and
    meta keys. -/
def value : List Char → Except SyntaxError (Nat × List Char)
  | [] => .error .danglingEscape
  | ['M'] => .error .unfinishedMeta
  | ['M', '-'] => .error .unfinishedMeta
  | 'M' :: '-' :: '\\' :: cs => do
      let (n, rest) ← value cs
      .ok (metaOf n, rest)
  | 'M' :: '-' :: c :: cs => .ok (metaOf c.toNat, cs)
  | 'M' :: _ :: _ => .error .invalidMeta
  | ['C'] => .error .unfinishedControl
  | ['C', '-'] => .error .unfinishedControl
  | 'C' :: '-' :: '?' :: cs => .ok (0x7F, cs)
  | 'C' :: '-' :: '\\' :: cs => do
      let (n, rest) ← value cs
      .ok (controlOf n, rest)
  | 'C' :: '-' :: c :: cs => .ok (controlOf c.toNat, cs)
  | 'C' :: _ :: _ => .error .invalidControl
  | ['c'] => .error .unfinishedControl
  | 'c' :: '?' :: cs => .ok (0x7F, cs)
  | 'c' :: '\\' :: cs => do
      let (n, rest) ← value cs
      .ok (controlOf n, rest)
  | 'c' :: c :: cs => .ok (controlOf c.toNat, cs)
  | c :: cs => .ok (((control? c).getD c).toNat, cs)

/-- The set of characters an escaped letter stands for, with or without
    the white space beyond ASCII. -/
def set? (asciiSpace : Bool) : Char → Option CharSet
  | 's' => some (if asciiSpace then .asciiSpace else .space)
  | 'S' => some (.compl (if asciiSpace then .asciiSpace else .space))
  | 'h' => some .hexDigit
  | 'H' => some (.compl .hexDigit)
  | _ => none

end Escape

end Highlighter.Regex
