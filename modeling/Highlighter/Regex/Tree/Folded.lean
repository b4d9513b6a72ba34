import Highlighter.Regex.CharClass
import Highlighter.Regex.Tree

/-! # Characters in either case

    Matching without regard to case compares foldings, and a folding can
    be longer than what it folds: a sharp s matches two s and two s match
    a sharp s.  A text is cut into `segments`, the longest foldings first,
    and each segment becomes a tree of its own; a class becomes a choice
    between one character and its longer foldings.

    In a lookbehind, where the number of characters to step over has to be
    known, only single characters of a text stand for each other. -/

namespace Highlighter.Regex

open Text (CaseFold.fold CaseFold.foldOne CaseFold.isExpansion CaseFold.variants)

/-- The foldings of the parts of a text.  A part is three characters or
    two, when their foldings are what some other character folds to, and a
    single character otherwise. -/
def segments : List Char → List (List Char)
  | [] => []
  | [a] => [CaseFold.fold a]
  | [a, b] =>
      let pair := [CaseFold.foldOne a, CaseFold.foldOne b]
      if CaseFold.isExpansion pair then [pair]
      else CaseFold.fold a :: segments [b]
  | a :: b :: c :: rest =>
      let pair := [CaseFold.foldOne a, CaseFold.foldOne b]
      if CaseFold.isExpansion (pair ++ [CaseFold.foldOne c]) then
        (pair ++ [CaseFold.foldOne c]) :: segments rest
      else if CaseFold.isExpansion pair then pair :: segments (c :: rest)
      else CaseFold.fold a :: segments (b :: c :: rest)

namespace CharSet

/-- The characters that differ from `c` in case at most, among ASCII. -/
def asciiCases (c : Char) : CharSet :=
  if c.isAlpha then .union (.single c.toLower) (.single c.toUpper) else .single c

/-- The members of a set and the letters of ASCII that differ from one in
    case only. -/
def anyAsciiCase (s : CharSet) : CharSet :=
  ("abcdefghijklmnopqrstuvwxyz".toList.filter fun c => s.mem c || s.mem c.toUpper).foldr
    (fun c found => .union (asciiCases c) found) s

/-- The foldings of several characters that some member of a set has.  All
    characters of such a folding are listed with it, so the members in
    other cases add none. -/
def expansions (s : CharSet) : List (List Char) :=
  (Text.CaseFold.expansions.filter fun e => e.2.any fun n => s.mem (Char.ofNat n)).map
    fun e => e.1.map Char.ofNat

end CharSet

namespace Tree

/-- Matches one character with a given folding; a character without case
    is a text. -/
def foldedOne (key : List Char) : Tree :=
  match CaseFold.variants key with
  | [c] => .text .exact [c]
  | _ => .set (.folding key)

/-- Matches whatever has the given folding: one character, or one for
    each character of the folding. -/
def folded : List Char → Tree
  | [c] => foldedOne [c]
  | key => .alt [.set (.folding key), .seq (key.map fun c => foldedOne [c])]

/-- Matches a letter of ASCII in either case, and any other character as
    it is. -/
def asciiFolded (c : Char) : Tree :=
  if c.isAlpha then .set (.asciiCases c) else .text .exact [c]

/-- Trees in a row; none at all match the empty text. -/
def inARow (ts : List Tree) : Tree :=
  match joinTexts ts with
  | [] => .empty
  | [t] => t
  | ts => .seq ts

/-- A text with its case spelled out. -/
def spelled (lookbehind : Bool) (casing : Casing) (cs : List Char) : Tree :=
  match casing with
  | .exact => .text .exact cs
  | .anyAscii => inARow (cs.map asciiFolded)
  | .any =>
      if lookbehind then inARow (cs.map fun c => foldedOne (CaseFold.fold c))
      else inARow ((segments cs).map folded)

/-- Matches one character of a class.  In either case, a class that is
    not negated also matches the longer foldings of its members. -/
def ofClass (casing : Casing) (c : CharClass) : Tree :=
  match casing with
  | .exact => .set c.toSet
  | .anyAscii => .set { c with members := c.members.anyAsciiCase }.toSet
  | .any =>
      let one := Tree.set { c with members := .anyCase c.members }.toSet
      if c.negated then one
      else choice (one :: (CharSet.expansions c.members).map fun key =>
        .seq (key.map fun c => .set (.folding [c])))

end Tree

end Highlighter.Regex
