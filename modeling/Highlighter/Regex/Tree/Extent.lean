import Highlighter.Regex.Tree

/-! # How much a tree can match

    `mayBeEmpty` tells whether a tree can match without consuming anything,
    `extent` bounds the number of characters.  Both take what is known of
    the groups that back-references point at; since such a group can hold
    references in turn, `Tree.tabulate` finds the values for all of them
    together, from no knowledge at all and round by round. -/

namespace Highlighter.Regex

namespace Tree

-- ── Groups ───────────────────────────────────────────────────────────────

/-- The entry of a group in a table. -/
def valueAt? {α : Type} (table : List (Nat × α)) (index : Nat) : Option α :=
  (table.find? fun e => e.1 == index).map Prod.snd

/-- Values for the groups in a table: `rounds` rounds of one step for each
    of them, from the values there are; fewer if a round changes nothing. -/
def tabulate {α : Type} [DecidableEq α] (unknown : α) (step : (Nat → α) → Tree → α)
    (groups : List (Nat × Tree)) : (rounds : Nat) → List (Nat × α) → List (Nat × α)
  | 0, table => table
  | rounds + 1, table =>
      let next := groups.map fun g =>
        (g.1, step (fun i => (valueAt? table i).getD unknown) g.2)
      if next = table then table else tabulate unknown step groups rounds next

/-- Values for the groups that references point at, from `unknown` for all
    of them, one round for each of them and one more. -/
def tableOf {α : Type} [DecidableEq α] (unknown : α) (step : (Nat → α) → Tree → α)
    (groups : List (Nat × Tree)) : List (Nat × α) :=
  tabulate unknown step groups (groups.length + 1) (groups.map fun g => (g.1, unknown))

-- ── Emptiness ────────────────────────────────────────────────────────────

mutual

/-- Whether a tree can match without consuming anything, when `group` says
    it of the groups. -/
def mayBeEmpty (group : Nat → Bool) : Tree → Bool
  | .text _ cs => cs.isEmpty
  | .set _ => false
  | .dot _ => false
  | .seq ts => allMayBeEmpty group ts
  | .alt ts => anyMayBeEmpty group ts
  | .loop min _ _ body => min == 0 || body.mayBeEmpty group
  | .capture _ body => body.mayBeEmpty group
  | .scope body => body.mayBeEmpty group
  | .atomic body => body.mayBeEmpty group
  | .lineBreak => false
  | .ahead _ _ => true
  | .behind _ _ _ => true
  | .anchor _ => true
  | .again r => r.within || r.groups.any group

/-- Whether all trees of a list can. -/
def allMayBeEmpty (group : Nat → Bool) : List Tree → Bool
  | [] => true
  | t :: ts => t.mayBeEmpty group && allMayBeEmpty group ts

/-- Whether some tree of a list can. -/
def anyMayBeEmpty (group : Nat → Bool) : List Tree → Bool
  | [] => false
  | t :: ts => t.mayBeEmpty group || anyMayBeEmpty group ts

end

/-- Which of some groups can match without consuming anything. -/
def emptyGroups (groups : List (Nat × Tree)) : List Nat :=
  (tableOf true mayBeEmpty groups).filterMap fun e => if e.2 then some e.1 else none

end Tree

-- ── Extents ──────────────────────────────────────────────────────────────

/-- Bounds on a number of characters; no upper bound is `none`. -/
structure Extent where
  min : Nat
  max : Option Nat
  /-- Whether the lower bound tells all there is to know of a tree that
      may be empty: a group or a condition on the position does more. -/
  sure : Bool
deriving DecidableEq, Repr

namespace Extent

/-- Exactly `n` characters. -/
def exactly (n : Nat) : Extent := ⟨n, some n, true⟩

/-- Nothing is known. -/
def unknown : Extent := ⟨0, none, false⟩

/-- Whether there is only one number of characters. -/
def fixed (e : Extent) : Bool := e.max == some e.min

/-- Two parts in a row. -/
def add (a b : Extent) : Extent :=
  ⟨a.min + b.min, a.max.bind fun m => b.max.map (m + ·), a.sure && b.sure⟩

/-- One of two alternatives. -/
def or (a b : Extent) : Extent :=
  { min := Nat.min a.min b.min
    max := a.max.bind fun m => b.max.map (Nat.max m)
    sure :=
      if b.min < a.min then b.sure
      else if a.min = b.min then a.sure || b.sure
      else a.sure }

/-- Upper bounds from here on are none. -/
def boundless : Nat := 0xFFFFFFFF

/-- An upper bound `n` times. -/
def timesMax (max : Option Nat) (n : Nat) : Option Nat :=
  if n = 0 then some 0
  else max.bind fun m => if m < boundless / n then some (m * n) else none

/-- A part that is repeated. -/
def times (a : Extent) (min : Nat) (max : Option Nat) : Extent :=
  if max = some 0 ∧ min = 0 then exactly 0
  else ⟨a.min * min, max.bind (timesMax a.max), a.sure⟩

end Extent

namespace Tree

mutual

/-- How many characters a match can have, when `group` says it of the
    groups.  Nothing is said of a text whose case is not spelled out. -/
def extent (group : Nat → Option Extent) : Tree → Option Extent
  | .text casing cs => if casing = .exact then some (.exactly cs.length) else none
  | .set _ => some (.exactly 1)
  | .dot _ => some (.exactly 1)
  | .seq ts => extentInARow group ts
  | .alt ts => extentOfAny group ts
  | .loop min max _ body =>
      if max = some 0 then some (.exactly 0)
      else (body.extent group).map fun e => e.times min max
  | .capture _ body => (body.extent group).map fun e => { e with sure := false }
  | .scope body => body.extent group
  | .atomic body => body.extent group
  | .lineBreak => some ⟨1, some 2, true⟩
  | .ahead _ _ => some { Extent.exactly 0 with sure := false }
  | .behind _ _ _ => some { Extent.exactly 0 with sure := false }
  | .anchor _ => some { Extent.exactly 0 with sure := false }
  | .again r =>
      if r.within then
        some (if r.level.isSome then .unknown else { Extent.exactly 0 with sure := false })
      else match r.groups.map group with
        | [] => some .unknown
        | e :: es => es.foldl (fun a b => a.bind fun a => b.map (a.or ·)) e

/-- How many characters trees in a row can match. -/
def extentInARow (group : Nat → Option Extent) : List Tree → Option Extent
  | [] => some (.exactly 0)
  | [t] => t.extent group
  | t :: ts => (t.extent group).bind fun a => (extentInARow group ts).map (a.add ·)

/-- How many characters one of some trees can match. -/
def extentOfAny (group : Nat → Option Extent) : List Tree → Option Extent
  | [] => some (.exactly 0)
  | [t] => t.extent group
  | t :: ts => (t.extent group).bind fun a => (extentOfAny group ts).map (a.or ·)

end

/-- How many characters some groups can match. -/
def groupExtents (groups : List (Nat × Tree)) : List (Nat × Option Extent) :=
  tableOf (some .unknown)
    (fun group t => (t.extent group).map fun e => { e with sure := false }) groups

/-- How many characters a tree can match, given the groups that its
    back-references may point at. -/
def extentAmong (groups : List (Nat × Tree)) (t : Tree) : Option Extent :=
  let table := groupExtents groups
  t.extent fun i => (valueAt? table i).getD (some .unknown)

end Tree

end Highlighter.Regex
