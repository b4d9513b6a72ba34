import Highlighter.Regex.Tree.Folded
import Highlighter.Regex.Tree.Lookbehind

/-! # Settled trees

    A tree is settled from left to right: the case of its texts is spelled
    out, a text repeated a fixed number of times is written out, and its
    lookbehinds get their reach.  A lookbehind over a back-reference needs
    to know what the group amounts to, so the settled groups are handed on;
    of a group that is not settled yet only what needs no settling is
    known. -/

namespace Highlighter.Regex

namespace Tree

/-- The longest text that a repetition is written out to, in bytes, and
    the highest count for which it is. -/
def maxWrittenOut : Nat := 100

/-- A repetition; a short text repeated a fixed number of times is one
    text. -/
def repeated (min : Nat) (max : Option Nat) (greedy : Bool) (body : Tree) : Tree :=
  match body with
  | .text casing cs =>
      if max = some min ∧ 1 < min ∧ min ≤ maxWrittenOut
          ∧ Text.byteLength cs * min ≤ maxWrittenOut then
        .text casing (List.replicate min cs).flatten
      else .loop min max greedy body
  | _ => .loop min max greedy body

/-- Puts a settled group in the place of the group as it was read. -/
def putGroup (groups : List (Nat × Tree)) (index : Nat) (body : Tree) : List (Nat × Tree) :=
  groups.map fun g => if g.1 == index then (index, body) else g

/-- A settled tree, and the groups behind it. -/
abbrev Settled := Tree × List (Nat × Tree)

mutual

/-- Settles a tree, inside of a lookbehind or not, given the groups that
    back-references point at. -/
def settle (lookbehind : Bool) (groups : List (Nat × Tree)) :
    Tree → Except SyntaxError Settled
  | .text casing cs => .ok (spelled lookbehind casing cs, groups)
  | .seq ts => do
      let (ts, groups) ← settleAll lookbehind groups ts
      .ok (.seq ts, groups)
  | .alt ts => do
      let (ts, groups) ← settleAll lookbehind groups ts
      .ok (.alt ts, groups)
  | .loop min max greedy body => do
      let (body, groups) ← body.settle lookbehind groups
      .ok (repeated min max greedy body, groups)
  | .capture index body => do
      let (body, groups) ← body.settle lookbehind groups
      .ok (.capture index body, putGroup groups index body)
  | .scope body => do
      let (body, groups) ← body.settle lookbehind groups
      .ok (.scope body, groups)
  | .atomic body => do
      let (body, groups) ← body.settle lookbehind groups
      .ok (.atomic body, groups)
  | .ahead negated body => do
      let (body, groups) ← body.settle lookbehind groups
      .ok (.ahead negated body, groups)
  | .behind negated _ body =>
      if body.looksBack negated then do
        let (body, groups) ← body.settle true groups
        let t ← settleBehind (extentAmong groups) (groups.map Prod.fst) negated body
        .ok (t, groups)
      else .error .invalidLookbehind
  | t => .ok (t, groups)

/-- Settles the trees of a list from the left. -/
def settleAll (lookbehind : Bool) (groups : List (Nat × Tree)) :
    List Tree → Except SyntaxError (List Tree × List (Nat × Tree))
  | [] => .ok ([], groups)
  | t :: ts => do
      let (t, groups) ← t.settle lookbehind groups
      let (ts, groups) ← settleAll lookbehind groups ts
      .ok (t :: ts, groups)

end

/-- The groups that back-references in a tree point at. -/
def referencedGroups (t : Tree) : List (Nat × Tree) :=
  let referenced := t.references.flatMap Reference.groups
  t.captures.filter fun g => referenced.contains g.1

/-- The whole tree of a pattern with `count` groups, settled.  References
    beyond the last group are refused before anything else. -/
def settleWhole (count : Nat) (t : Tree) : Except SyntaxError Tree := do
  let t := t.joined
  if t.references.all fun r => r.groups.all (· ≤ count) then
    let (t, _) ← t.settle false t.referencedGroups
    .ok t
  else .error .invalidBackreference

end Tree

end Highlighter.Regex
