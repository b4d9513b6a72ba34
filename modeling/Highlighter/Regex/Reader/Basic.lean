import Highlighter.Regex.Quantifier
import Highlighter.Regex.Tree.Folded

/-! # The state of reading a pattern

    The reader keeps a `Frame` for every group that is still open.  A frame
    holds the finished alternatives of its group and the pieces of the
    current one; closing the group turns the frame into one piece of the
    frame around it. -/

namespace Highlighter.Regex

/-- The options in force at a place in a pattern. -/
structure Modes where
  ignoreCase : Bool := false
  /-- A dot matches a line end too. -/
  dotAll : Bool := false
  /-- `^` and `$` hold at the ends of the text only. -/
  singleLine : Bool := false
  /-- Blanks and comments are skipped. -/
  extended : Bool := false
  /-- White space is that of ASCII. -/
  asciiSpace : Bool := false
deriving DecidableEq, Repr

namespace Reader

/-- What a group is for. -/
inductive GroupKind where
  | whole
  | plain
  /-- A plain group under options of its own. -/
  | scoped
  /-- The rest of the group around, under options of its own. -/
  | modes
  | capture (index : Nat)
  | atomic
  | ahead (negated : Bool)
  | behind (negated : Bool)
deriving DecidableEq, Repr

/-- What a sequence is made of. -/
inductive Piece where
  /-- Plain characters in a row, the last one first. -/
  | run (casing : Casing) (cs : List Char)
  /-- Anything else that can be repeated as one.  A text is only repeated
      as one if it is `whole`, a group; otherwise its last character is.
      `quantified` counts the quantifiers it has taken. -/
  | part (tree : Tree) (whole : Bool) (quantified : Nat)

/-- What a piece says. -/
def Piece.tree : Piece → Tree
  | .run casing cs => .text casing cs.reverse
  | .part t _ _ => t

/-- A piece apart from what a quantifier behind it is for: what stays in
    front, what is repeated, and the number of quantifiers already taken. -/
def Piece.split : Piece → Option Tree × Tree × Nat
  | .run casing (c :: d :: cs) => (some (.text casing (d :: cs).reverse), .text casing [c], 0)
  | .run casing cs => (none, .text casing cs.reverse, 0)
  | .part (.text casing (c :: d :: cs)) false n =>
      let last := (d :: cs).getLast?.getD d
      (some (.text casing (c :: d :: cs).dropLast), .text casing [last], n)
  | .part t _ n => (none, t, n)

/-- A group that is being read. -/
structure Frame where
  kind : GroupKind
  /-- The options in force around the group. -/
  around : Modes
  /-- The finished alternatives, the last one first. -/
  choices : List Tree := []
  /-- The current alternative, its last piece first. -/
  pieces : List Piece := []

-- ── Closing ──────────────────────────────────────────────────────────────

/-- The parts a tree brings to a sequence that it does not begin. -/
def partsOf : Tree → List Tree
  | .seq ts => ts
  | t => [t]

/-- The tree of an alternative whose last piece comes first. -/
def alternative (pieces : List Piece) : Tree :=
  match (pieces.map Piece.tree).reverse with
  | [] => .empty
  | [t] => t
  | t :: ts => .seq (t :: ts.flatMap partsOf)

/-- The tree between the ends of a group. -/
def Frame.inside (f : Frame) : Tree :=
  .choice (alternative f.pieces :: f.choices).reverse

/-- What a group with this inside amounts to. -/
def GroupKind.close (kind : GroupKind) (inside : Tree) : Tree :=
  match kind with
  | .whole => inside
  | .plain => inside
  | .scoped => .scope inside
  | .modes => .scope inside
  | .capture index => .capture index inside
  | .atomic => .atomic inside
  | .ahead negated => .ahead negated inside
  | .behind negated => .behind negated (.between 0 none) inside

/-- What a frame amounts to once it is read. -/
def Frame.close (f : Frame) : Piece :=
  .part (f.kind.close f.inside) true 0

end Reader

/-- A pattern that is being read. -/
structure Reader where
  /-- The innermost open group. -/
  frame : Reader.Frame
  /-- The groups around it, from the inside out. -/
  outer : List Reader.Frame := []
  modes : Modes
  /-- The number of capturing groups so far. -/
  groups : Nat := 0
  /-- The groups that have names. -/
  names : List (String × Nat) := []
  /-- Whether only the letters of ASCII have two cases. -/
  asciiCase : Bool := false
  /-- Whether the longest match is wanted. -/
  longest : Bool := false
  /-- Whether the options for the whole pattern, if there are any, stand in
      front of all the rest. -/
  wholeFirst : Option Bool := none

namespace Reader

-- ── Depth ────────────────────────────────────────────────────────────────

/-- The greatest depth of a pattern. -/
def maxDepth : Nat := 4096

/-- How deep the current alternative stands: every group that is open adds
    two levels, its choice and its alternative. -/
def depth (r : Reader) : Nat :=
  2 + 2 * r.outer.length

-- ── Pieces ───────────────────────────────────────────────────────────────

/-- How case is treated here. -/
def casing (r : Reader) : Casing :=
  if !r.modes.ignoreCase then .exact else if r.asciiCase then .anyAscii else .any

/-- Puts the pieces of the current alternative, the last one first. -/
def withPieces (r : Reader) (pieces : List Piece) : Reader :=
  { r with frame := { r.frame with pieces } }

/-- Adds a tree to the current alternative. -/
def push (r : Reader) (t : Tree) : Reader :=
  r.withPieces (.part t false 0 :: r.frame.pieces)

/-- Adds a plain character, which joins those in front of it. -/
def pushPlain (r : Reader) (c : Char) : Reader :=
  match r.frame.pieces with
  | .run casing cs :: ps =>
      if casing = r.casing then r.withPieces (.run casing (c :: cs) :: ps)
      else r.withPieces (.run r.casing [c] :: .run casing cs :: ps)
  | ps => r.withPieces (.run r.casing [c] :: ps)

/-- Adds the character with a code point; other numbers match nothing. -/
def pushCode (r : Reader) (n : Nat) : Reader :=
  r.push (if n.isValidChar then .text r.casing [Char.ofNat n] else .set .none)

/-- Starts the next alternative. -/
def nextChoice (r : Reader) : Reader :=
  { r with frame := { r.frame with
      choices := alternative r.frame.pieces :: r.frame.choices
      pieces := [] } }

/-- Applies a quantifier to the last piece. -/
def quantify (r : Reader) (q : Quantifier) : Except SyntaxError Reader :=
  match r.frame.pieces with
  | [] => .error .nothingToRepeat
  | p :: ps =>
      let (front, target, quantified) := p.split
      if p.tree.unrepeatable then .error .unrepeatable
      else if maxDepth ≤ r.depth + quantified then .error .tooDeep
      else if q.isOnce then .ok (r.withPieces (.part p.tree false (quantified + 1) :: ps))
      else do
        let t ← q.apply target
        let before := front.elim ps fun t => .part t false 0 :: ps
        .ok (r.withPieces (.part t false (quantified + 1) :: before))

-- ── Groups ───────────────────────────────────────────────────────────────

/-- Opens a group, to be read under the given options. -/
def enter (r : Reader) (kind : GroupKind) (modes : Modes) : Except SyntaxError Reader :=
  let inner : Reader :=
    { r with
      frame := { kind, around := r.modes }
      outer := r.frame :: r.outer
      modes }
  if maxDepth < inner.depth then .error .tooDeep else .ok inner

/-- Closes the innermost frame and those that end with it, up to a real
    group; none is left when only the whole pattern is open. -/
def leave (r : Reader) : List Frame → Option Reader
  | [] => none
  | f :: fs =>
      let next : Reader :=
        { r with
          frame := { f with pieces := r.frame.close :: f.pieces }
          outer := fs
          modes := r.frame.around }
      if r.frame.kind = .modes then next.leave fs else some next

/-- The tree of the whole pattern, when no group is left open. -/
def finish (r : Reader) : List Frame → Except SyntaxError Tree
  | [] => .ok r.frame.inside
  | f :: fs =>
      if r.frame.kind = .modes then
        finish { r with frame := { f with pieces := r.frame.close :: f.pieces }, outer := fs } fs
      else .error .unmatchedOpen

/-- Whether nothing has been read but the openings of plain groups. -/
def atHead (r : Reader) : Bool :=
  (r.frame :: r.outer).all fun f =>
    f.pieces.isEmpty && f.choices.isEmpty && (f.kind == .plain || f.kind == .whole)

/-- Whether a group is open. -/
def isOpen (r : Reader) (index : Nat) : Bool :=
  (r.frame :: r.outer).any fun f => f.kind == .capture index

/-- Adds a back-reference. -/
def pushAgain (r : Reader) (groups : List Nat) (level : Option Int) : Reader :=
  r.push (.again
    { groups, casing := r.casing, level, within := groups.any r.isOpen })

end Reader

end Highlighter.Regex
