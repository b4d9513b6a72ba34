import Highlighter.Regex.MatchState
import Highlighter.Text.Bytes

/-! # Back-references

    A back-reference matches what a group has matched, character by
    character.  Two characters that are the same but for their case can
    differ in length, and a reference never looks at more bytes than the
    group has matched; so a character can be cut at the end. -/

namespace Highlighter.Regex

/-- The folding under which characters are compared. -/
def Casing.fold (casing : Casing) (c : Char) : List Char :=
  match casing with
  | .exact => [c]
  | .any => Text.CaseFold.fold c
  | .anyAscii => [c.toLower]

/-- The code that the first `room` bytes of a longer character read as. -/
def codeOfFront (c : Char) (room : Nat) : Nat :=
  let n := c.toNat
  match c.utf8Size, room with
  | 4, 3 => n / 0x40
  | 4, 2 => 0x400 + n / 0x1000
  | 3, 2 => n / 0x40
  | 4, _ => 0xF0 + n / 0x40000
  | 3, _ => 0xE0 + n / 0x1000
  | _, _ => 0xC0 + n / 0x40

/-- The folding of a character of which `room` bytes are within reach.  A
    character that is cut folds as its front does, and if its front is no
    letter with two cases it is left as it is. -/
def Casing.foldWithin (casing : Casing) (room : Nat) (c : Char) : List Char :=
  if c.utf8Size = 1 ∨ c.utf8Size ≤ room then casing.fold c
  else
    let front := Char.ofNat (codeOfFront c room)
    if casing.fold front = [front] then [c] else casing.fold front

/-- Whether a character repeats another one, with `room` bytes within reach. -/
def Casing.repeats (casing : Casing) (room : Nat) (c d : Char) : Bool :=
  match casing with
  | .exact => c == d
  | _ => casing.fold c == casing.foldWithin room d

/-- Where another occurrence of the `count` characters from `start` on
    ends, when it begins at `here`, with `room` bytes within reach. -/
def Casing.repeatEnd? (casing : Casing) (text : Haystack) :
    (count start here room : Nat) → Option Nat
  | 0, _, here, _ => some here
  | count + 1, start, here, room =>
      match text[start]?, text[here]? with
      | some c, some d =>
          if casing.repeats room c d then
            casing.repeatEnd? text count (start + 1) (here + 1) (room - d.utf8Size)
          else none
      | _, _ => none

/-- The bytes of the `count` characters from a position on. -/
def bytesFrom (text : Haystack) : (count pos : Nat) → Nat
  | 0, _ => 0
  | count + 1, pos => (text[pos]?.elim 0 Char.utf8Size) + bytesFrom text count (pos + 1)

namespace MatchState

/-- Whether so many bytes are left. -/
def hasRoom (text : Haystack) (s : MatchState) (bytes : Nat) : Bool :=
  bytes ≤ bytesFrom text (Nat.min bytes (s.limit - s.pos)) s.pos

/-- The state behind another occurrence of a stretch of the text, within
    `room` bytes. -/
def repeat? (text : Haystack) (casing : Casing) (s : MatchState) (start stop room : Nat) :
    Option MatchState :=
  (casing.repeatEnd? text (stop - start) start s.pos room).map fun pos => { s with pos }

/-- The state behind another occurrence of what the first of some groups
    has matched that took part and does occur.  One that has matched more
    than is left ends the search. -/
def again? (text : Haystack) (lasting : Marks) (casing : Casing) (s : MatchState) :
    (groups : List Nat) → Option MatchState
  | [] => none
  | group :: groups =>
      match s.span? lasting group with
      | some (start, stop) =>
          let bytes := bytesFrom text (stop - start) start
          let found :=
            match s.repeat? text casing start stop bytes with
            | some s' => some s'
            | none => s.again? text lasting casing groups
          found.filter fun _ => s.hasRoom text bytes
      | none => s.again? text lasting casing groups

/-- The state behind another occurrence of what a reference points at: the
    group that stands last in the pattern, or the last span of any of its
    groups if the reference names a level. -/
def refer? (text : Haystack) (lasting : Marks) (s : MatchState) (r : Reference) :
    Option MatchState :=
  match r.level with
  | none => s.again? text lasting r.casing r.groups.reverse
  | some _ =>
      match lastSpan? r.groups none s.trail with
      | some (start, stop) =>
          let s' := { s with limit := text.size }
          if s'.hasRoom text (bytesFrom text (stop - start) start) then
            (s'.repeat? text r.casing start stop (4 * text.size)).map fun found =>
              { found with limit := s.limit }
          else none
      | none => none

end MatchState

end Highlighter.Regex
