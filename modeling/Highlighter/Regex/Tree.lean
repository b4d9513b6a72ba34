import Highlighter.Regex.Anchor
import Highlighter.Regex.CharSet

/-! # Patterns as trees

    What a pattern says, with every spelling resolved but nothing decided
    yet about how it is matched: texts are whole, quantifiers and
    lookbehinds stand as they were written.

    A sequence and a choice hold all their parts in one list.  How they
    nest is kept, for a plain group in front of a sequence stays a part of
    its own, while one that follows is taken apart into the sequence. -/

namespace Highlighter.Regex

/-- Which characters count as the same. -/
inductive Casing where
  /-- No two of them. -/
  | exact
  /-- Those that differ in case only. -/
  | any
  /-- The letters of ASCII that differ in case only. -/
  | anyAscii
deriving DecidableEq, Repr

/-- A back-reference. -/
structure Reference where
  /-- The groups it stands for, the first one in the pattern first. -/
  groups : List Nat
  casing : Casing := .exact
  /-- At which nesting level of the groups, if it says so. -/
  level : Option Int := none
  /-- It stands inside of one of its groups. -/
  within : Bool := false
deriving DecidableEq, Repr

/-- Where a lookbehind may start. -/
inductive Reach where
  /-- This many characters back. -/
  | exactly (n : Nat)
  /-- At least `min` characters back, and at most `max` if there is a bound. -/
  | between (min : Nat) (max : Option Nat)
deriving DecidableEq, Repr

/-- What a pattern says. -/
inductive Tree where
  /-- A text, none at all if there are no characters. -/
  | text (casing : Casing) (cs : List Char)
  /-- One character out of a set. -/
  | set (s : CharSet)
  /-- Any character, a line end only if `newline`. -/
  | dot (newline : Bool)
  | seq (ts : List Tree)
  /-- The alternatives, an earlier one preferred. -/
  | alt (ts : List Tree)
  /-- Between `min` and `max` times, as often as possible when `greedy`. -/
  | loop (min : Nat) (max : Option Nat) (greedy : Bool) (body : Tree)
  | capture (index : Nat) (body : Tree)
  /-- A group under options of its own. -/
  | scope (body : Tree)
  /-- A group of which the first match is kept. -/
  | atomic (body : Tree)
  /-- A line end of any kind, of which a pair is kept together. -/
  | lineBreak
  | ahead (negated : Bool) (body : Tree)
  | behind (negated : Bool) (reach : Reach) (body : Tree)
  | anchor (a : Anchor)
  | again (r : Reference)

namespace Tree

/-- Matches without consuming anything. -/
def empty : Tree := .text .exact []

/-- Never matches. -/
def never : Tree := .ahead true .empty

instance : Inhabited Tree := ⟨.empty⟩

/-- Any of some trees; a single one stands for itself. -/
def choice : List Tree → Tree
  | [t] => t
  | ts => .alt ts

-- ── Texts that meet ──────────────────────────────────────────────────────

/-- Joins texts that are next to each other and treat case alike. -/
def joinTexts : List Tree → List Tree
  | [] => []
  | .text i cs :: ts =>
      match joinTexts ts with
      | .text j ds :: us =>
          if i = j then .text i (cs ++ ds) :: us else .text i cs :: .text j ds :: us
      | us => .text i cs :: us
  | t :: ts => t :: joinTexts ts

mutual

/-- The tree with the texts of every sequence joined. -/
def joined : Tree → Tree
  | .seq ts => .seq (joinTexts (joinedAll ts))
  | .alt ts => .alt (joinedAll ts)
  | .loop min max greedy body => .loop min max greedy body.joined
  | .capture index body => .capture index body.joined
  | .scope body => .scope body.joined
  | .atomic body => .atomic body.joined
  | .ahead negated body => .ahead negated body.joined
  | .behind negated reach body => .behind negated reach body.joined
  | t => t

/-- Every tree of a list, with its texts joined. -/
def joinedAll : List Tree → List Tree
  | [] => []
  | t :: ts => t.joined :: joinedAll ts

end

-- ── Parts ────────────────────────────────────────────────────────────────

mutual

/-- What `f` finds in a tree and in all its parts, from the left. -/
def collect {α : Type} (f : Tree → List α) : Tree → List α
  | .seq ts => f (.seq ts) ++ collectAll f ts
  | .alt ts => f (.alt ts) ++ collectAll f ts
  | .loop min max greedy body => f (.loop min max greedy body) ++ body.collect f
  | .capture index body => f (.capture index body) ++ body.collect f
  | .scope body => f (.scope body) ++ body.collect f
  | .atomic body => f (.atomic body) ++ body.collect f
  | .ahead negated body => f (.ahead negated body) ++ body.collect f
  | .behind negated reach body => f (.behind negated reach body) ++ body.collect f
  | t => f t

/-- What `f` finds in the trees of a list. -/
def collectAll {α : Type} (f : Tree → List α) : List Tree → List α
  | [] => []
  | t :: ts => t.collect f ++ collectAll f ts

end

/-- The back-references in a tree. -/
def references (t : Tree) : List Reference :=
  t.collect fun
    | .again r => [r]
    | _ => []

/-- The capturing groups in a tree, with what they capture. -/
def captures (t : Tree) : List (Nat × Tree) :=
  t.collect fun
    | .capture index body => [(index, body)]
    | _ => []

/-- Whether nothing can be repeated here: a bare condition on the position
    is no target for a quantifier, and a choice is none if one of its
    alternatives is no target. -/
def unrepeatable : Tree → Bool
  | .anchor _ => true
  | .ahead _ _ => true
  | .behind _ _ _ => true
  | .alt ts => anyUnrepeatable ts
  | _ => false
where
  /-- Whether some tree of a list cannot be repeated. -/
  anyUnrepeatable : List Tree → Bool
    | [] => false
    | t :: ts => t.unrepeatable || anyUnrepeatable ts

end Tree

end Highlighter.Regex
