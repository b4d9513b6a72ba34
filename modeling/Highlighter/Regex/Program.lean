import Highlighter.Regex.Matching
import Highlighter.Text.Bytes

/-! # Programs and their matches

    A pattern that was read is a `Program`.  `matchAt` gives its match at
    a position, `search` the first one from a position on.  A match is
    given up when the ways that were tried at its position come to too many
    dead ends, and with it the search. -/

namespace Highlighter.Regex

/-- A pattern that was read. -/
structure Program where
  expr : Expr
  groups : Nat
  /-- Whether the longest match is wanted instead of the first. -/
  longest : Bool := false
deriving DecidableEq, Repr

/-- A match, by characters. -/
structure Match where
  start : Nat
  stop : Nat
  /-- Where the first group matched, if it has taken part. -/
  first : Option (Nat × Nat)
deriving DecidableEq, Repr

/-- That a match was given up. -/
structure GaveUp where
deriving DecidableEq, Repr

/-- A search for the match at a position of a text or behind it. -/
abbrev Search := Haystack → Nat → Except GaveUp (Option Match)

namespace Program

/-- Where a match from `pos` leads that ends at `least` or later, and the
    lasting marks of its groups. -/
def run (p : Program) (text : Haystack) (pos least : Nat) :
    Except GaveUp (Option (MatchState × Marks)) :=
  let ended : MatchState → Attempt Tally := fun s => if least ≤ s.pos then .done s else .fail
  match p.expr.matcher text (.start p.groups text.size pos) ended { marks := .none p.groups } with
  | (some s, tally) => .ok (some (s, tally.marks))
  | (none, tally) => if Ledger.isOpen tally then .ok none else .error ⟨⟩

/-- The longest match from `pos` after one with this end, in `count`
    attempts at most. -/
def extend (p : Program) (text : Haystack) (pos : Nat) :
    (count : Nat) → MatchState × Marks → Except GaveUp (MatchState × Marks)
  | 0, found => .ok found
  | count + 1, found =>
      match p.run text pos (found.1.pos + 1) with
      | .ok (some found) => p.extend text pos count found
      | .ok none => .ok found
      | .error e => .error e

/-- The match at a position. -/
def matchAt (p : Program) (text : Haystack) (pos : Nat) : Except GaveUp (Option Match) := do
  match ← p.run text pos 0 with
  | none => .ok none
  | some found => do
      let (s, lasting) ← if p.longest then p.extend text pos text.size found else .ok found
      .ok (some ⟨pos, s.pos, s.span? lasting 1⟩)

/-- The first match at one of `count` positions from `pos` on. -/
def searchIn (p : Program) (text : Haystack) :
    (count pos : Nat) → Except GaveUp (Option Match)
  | 0, _ => .ok none
  | count + 1, pos =>
      match p.matchAt text pos with
      | .ok (some m) => .ok (some m)
      | .ok none => p.searchIn text count (pos + 1)
      | .error e => .error e

/-- The longer of two matches, the earlier one if they are alike. -/
def longer (text : Haystack) (a b : Match) : Match :=
  let size := fun m : Match => Text.byteLength (text.extract m.start m.stop).toList
  if size a < size b then b else a

/-- The longest match at one of `count` positions from `pos` on. -/
def searchLongestIn (p : Program) (text : Haystack) :
    (count pos : Nat) → Except GaveUp (Option Match)
  | 0, _ => .ok none
  | count + 1, pos => do
      let here ← p.matchAt text pos
      let later ← p.searchLongestIn text count (pos + 1)
      match here, later with
      | some a, some b => .ok (some (longer text a b))
      | some a, none => .ok (some a)
      | none, found => .ok found

/-- The match that is wanted out of those at `pos` or later. -/
def search (p : Program) : Search := fun text pos =>
  if p.longest then p.searchLongestIn text (text.size + 1 - pos) pos
  else p.searchIn text (text.size + 1 - pos) pos

end Program

end Highlighter.Regex
