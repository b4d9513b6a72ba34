import Highlighter.Regex.Tree.Extent

/-! # What is remembered of groups

    A group that back-references point at is remembered while the match
    goes on.  Two things depend on where the group stands.

    * A group that may be skipped or left for another alternative is
      `fresh`: entering it forgets where it was left, so a reference inside
      of it fails on the first way through.
    * A loop ends at a turn that consumes nothing.  A loop that has groups
      to `watch` goes on all the same when such a turn has set one of them
      anew. -/

namespace Highlighter.Regex

namespace Tree

mutual

/-- The groups that stand in an alternative, in a negated assertion or in
    a repetition without a fixed count; all groups if `nested`. -/
def varyingGroups (nested : Bool) : Tree → List Nat
  | .seq ts => varyingGroupsOf nested ts
  | .alt ts => varyingGroupsOf true ts
  | .loop min max _ body => body.varyingGroups (nested || max != some min)
  | .capture index body =>
      if nested then index :: body.varyingGroups nested else body.varyingGroups nested
  | .scope body => body.varyingGroups nested
  | .atomic body => body.varyingGroups nested
  | .ahead negated body => body.varyingGroups (nested || negated)
  | .behind negated _ body => body.varyingGroups (nested || negated)
  | _ => []

/-- The same for all trees of a list. -/
def varyingGroupsOf (nested : Bool) : List Tree → List Nat
  | [] => []
  | t :: ts => t.varyingGroups nested ++ varyingGroupsOf nested ts

end

-- ── Loops over groups ────────────────────────────────────────────────────

mutual

/-- Whether a tree captures something outside of assertions. -/
def capturesOpenly : Tree → Bool
  | .seq ts => anyCapturesOpenly ts
  | .alt ts => anyCapturesOpenly ts
  | .loop _ max _ body => max != some 0 && body.capturesOpenly
  | .capture _ _ => true
  | .scope body => body.capturesOpenly
  | .atomic body => body.capturesOpenly
  | _ => false

/-- Whether some tree of a list does. -/
def anyCapturesOpenly : List Tree → Bool
  | [] => false
  | t :: ts => t.capturesOpenly || anyCapturesOpenly ts

end

/-- Whether a loop over `body` can take an empty turn that captures. -/
def hasEmptyTurns (group : Nat → Bool) (max : Option Nat) (body : Tree) : Bool :=
  max != some 0 && body.capturesOpenly && body.mayBeEmpty group

mutual

/-- The groups in the body of a loop that no loop inside of it with empty
    turns has to itself, and that no assertion holds. -/
def ownGroups (group : Nat → Bool) : Tree → List Nat
  | .seq ts => ownGroupsOf group ts
  | .alt ts => ownGroupsOf group ts
  | .loop _ max _ body => if hasEmptyTurns group max body then [] else body.ownGroups group
  | .capture index body => index :: body.ownGroups group
  | .scope body => body.ownGroups group
  | .atomic body => body.ownGroups group
  | .ahead negated body => if negated then body.ownGroups group else []
  | .behind negated _ body => if negated then body.ownGroups group else []
  | _ => []

/-- The same for all trees of a list. -/
def ownGroupsOf (group : Nat → Bool) : List Tree → List Nat
  | [] => []
  | t :: ts => t.ownGroups group ++ ownGroupsOf group ts

end

mutual

/-- How many references to a group stand at the very front of a tree. -/
def frontReferences (index : Nat) : Tree → Nat
  | .seq ts => frontReferencesOf index ts
  | .alt ts => frontReferencesOf index ts
  | .loop _ _ _ body => body.frontReferences index
  | .capture _ body => body.frontReferences index
  | .scope body => body.frontReferences index
  | .atomic body => body.frontReferences index
  | .ahead _ body => body.frontReferences index
  | .behind _ _ body => body.frontReferences index
  | .again r => if r.groups.contains index then 1 else 0
  | _ => 0

/-- The same for the first tree of a list. -/
def frontReferencesOf (index : Nat) : List Tree → Nat
  | [] => 0
  | t :: _ => t.frontReferences index

end

/-- Groups from this one on are not told apart. -/
def toldApart : Nat := 32

/-- What the whole of a pattern says about its groups. -/
structure GroupUse where
  /-- Which groups can match without consuming anything. -/
  mayBeEmpty : Nat → Bool
  /-- All back-references. -/
  references : List Reference
  /-- The groups that forget where they were left when entered. -/
  fresh : List Nat
  /-- The groups of which all spans are kept. -/
  traced : List Nat

/-- The groups whose changes keep a loop over `body` going: those it has
    to itself, unless all references to them stand at its very front. -/
def watchedGroups (use : GroupUse) (max : Option Nat) (body : Tree) : List Nat :=
  if use.references.isEmpty || !hasEmptyTurns use.mayBeEmpty max body then []
  else (body.ownGroups use.mayBeEmpty).filter fun i =>
    i < toldApart
      && body.frontReferences i < use.references.countP fun r => r.groups.contains i

/-- The groups that some loop in a tree watches. -/
def allWatchedGroups (use : GroupUse) (t : Tree) : List Nat :=
  t.collect fun
    | .loop _ max _ body => watchedGroups use max body
    | _ => []

/-- What a settled tree says about its groups. -/
def groupUse (t : Tree) : GroupUse :=
  let references := t.references
  let referenced := references.flatMap Reference.groups
  let groups := t.captures.filter fun g => referenced.contains g.1
  let emptyOnes := emptyGroups groups
  let mayBeEmpty := fun i => emptyOnes.contains i
  let traced := (references.filter fun r => r.level.isSome).flatMap Reference.groups
  let use : GroupUse := { mayBeEmpty, references, fresh := [], traced }
  { use with fresh := t.varyingGroups false ++ traced ++ t.allWatchedGroups use }

/-- Whether entering a group forgets where it was left. -/
def GroupUse.isFresh (use : GroupUse) (index : Nat) : Bool :=
  if index < toldApart then use.fresh.contains index
  else use.fresh.any fun i => toldApart ≤ i

end Tree

end Highlighter.Regex
