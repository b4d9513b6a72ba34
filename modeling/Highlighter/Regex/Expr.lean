import Highlighter.Regex.Tree

/-! # Regular expressions

    What a pattern amounts to when it is matched: every atom is a set of
    characters, sequences and choices are pairs, every loop says which of
    its turns end it. -/

namespace Highlighter.Regex

/-- Which turns of a loop end it, apart from the last one that is allowed. -/
inductive Guard where
  /-- None. -/
  | none
  /-- A turn that consumes nothing. -/
  | position
  /-- A turn that consumes nothing and leaves these groups as they were. -/
  | groups (watched : List Nat)
deriving DecidableEq, Repr

/-- A regular expression. -/
inductive Expr where
  /-- Matches without consuming anything. -/
  | empty
  /-- One character out of a set. -/
  | one (set : CharSet)
  | seq (a b : Expr)
  /-- The first alternative is preferred. -/
  | alt (a b : Expr)
  /-- Between `min` and `max` times, as often as possible when `greedy`. -/
  | loop (body : Expr) (min : Nat) (max : Option Nat) (greedy : Bool) (guard : Guard)
  /-- Records where the body matched, as group `index`.  A `fresh` group
      forgets where it was left when it is entered, and its marks are taken
      back with the way that set them; of a `traced` one all spans are
      kept. -/
  | capture (index : Nat) (fresh traced : Bool) (body : Expr)
  /-- Keeps the first way the body matches. -/
  | atomic (body : Expr)
  | ahead (negated : Bool) (body : Expr)
  | behind (negated : Bool) (reach : Reach) (body : Expr)
  | anchor (a : Anchor)
  /-- The text one of the groups has matched. -/
  | again (r : Reference)
deriving DecidableEq, Repr

namespace Expr

/-- The expressions one after the other. -/
def concat : List Expr → Expr
  | [] => .empty
  | [e] => e
  | e :: es => .seq e (concat es)

/-- A literal text. -/
def literal (cs : List Char) : Expr :=
  concat (cs.map fun c => .one (.single c))

/-- A line end of any kind, of which a pair is kept together. -/
def lineBreak : Expr :=
  .atomic (.alt (literal ['\r', '\n']) (.one .lineBreak))

/-- Never matches. -/
def never : Expr := .one .none

end Expr

end Highlighter.Regex
