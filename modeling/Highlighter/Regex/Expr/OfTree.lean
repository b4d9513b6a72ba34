import Highlighter.Regex.Expr
import Highlighter.Regex.Tree.Groups

/-! # Expressions of trees

    A settled tree becomes an expression.  What is decided here is which
    turns end a loop.  Small loops are written out, and in the turns that
    are written out an empty one counts like any other; all other turns end
    the loop when they are empty.  How small a loop has to be is measured
    by the `weight` of its body. -/

namespace Highlighter.Regex

/-- An expression with what loops around it have to know. -/
structure Part where
  expr : Expr
  /-- The number of steps the expression is made of. -/
  weight : Nat
  /-- Whether it can match without consuming anything. -/
  mayBeEmpty : Bool
deriving Repr

namespace Part

/-- Matches without consuming anything. -/
def empty : Part := ⟨.empty, 0, true⟩

/-- One step that consumes a character. -/
def one (s : CharSet) : Part := ⟨.one s, 1, false⟩

/-- Two parts one after the other. -/
def seq (a b : Part) : Part :=
  ⟨.seq a.expr b.expr, a.weight + b.weight, a.mayBeEmpty && b.mayBeEmpty⟩

/-- Two alternatives. -/
def alt (a b : Part) : Part :=
  ⟨.alt a.expr b.expr, a.weight + 2 + b.weight, a.mayBeEmpty || b.mayBeEmpty⟩

/-- The number of stretches of a text in which all characters take the
    same number of bytes. -/
def stretches : List Char → Nat
  | [] => 0
  | [_] => 1
  | c :: d :: cs =>
      if c.utf8Size = d.utf8Size then stretches (d :: cs) else stretches (d :: cs) + 1

/-- A literal text. -/
def literal (cs : List Char) : Part :=
  ⟨.literal cs, stretches cs, cs.isEmpty⟩

-- ── Loops ────────────────────────────────────────────────────────────────

/-- The highest weight of what is written out. -/
def maxWritten : Nat := 10

/-- The most that may follow `min` turns. -/
def without (max : Option Nat) (min : Nat) : Option Nat :=
  max.map (· - min)

/-- A loop.  `isDot` says that the body is any character, `watched` are the
    groups that keep the loop going. -/
def loop (body : Part) (isDot : Bool) (watched : List Nat) (min : Nat) (max : Option Nat)
    (greedy : Bool) : Part :=
  let w := body.weight
  let guard : Guard :=
    if !body.mayBeEmpty then .none
    else if watched.isEmpty then .position
    else .groups watched
  let turn := if body.mayBeEmpty then w + 2 else w
  let mayBeEmpty := min == 0 || body.mayBeEmpty
  let unguarded : Expr := .loop body.expr min max greedy .none
  let guarded : Expr := .loop body.expr min max greedy guard
  if w = 0 ∨ max = some 0 then .empty
  else match max with
  | none =>
      if isDot ∧ greedy ∧ (min ≤ 1 ∨ w * min ≤ maxWritten) then
        ⟨unguarded, w * min + 1, mayBeEmpty⟩
      else if min = 1 ∧ maxWritten < w then ⟨guarded, turn + 3, mayBeEmpty⟩
      else if min ≤ 1 ∨ w * min ≤ maxWritten then
        let rest : Expr := .loop body.expr 0 none greedy guard
        let written : Expr := .seq (.loop body.expr min (some min) true .none) rest
        ⟨if min = 0 ∨ !body.mayBeEmpty then guarded else written, w * min + turn + 2, mayBeEmpty⟩
      else ⟨guarded, turn + 2, mayBeEmpty⟩
  | some most =>
      if greedy ∧ (most = 1 ∨ (w + 1) * most ≤ maxWritten) then
        ⟨unguarded, w * min + (w + 1) * (most - min), mayBeEmpty⟩
      else if !greedy ∧ most = 1 ∧ min = 0 then ⟨unguarded, w + 2, mayBeEmpty⟩
      else ⟨guarded, turn + 2, mayBeEmpty⟩

-- ── Groups and assertions ────────────────────────────────────────────────

/-- A capturing group. -/
def capture (index : Nat) (fresh traced : Bool) (body : Part) : Part :=
  ⟨.capture index fresh traced body.expr, body.weight + 2, body.mayBeEmpty⟩

/-- A group of which the first match is kept; `plain` if it is a loop over
    single steps, for which there is a shorter form. -/
def atomic (plain : Option (Nat × Nat)) (body : Part) : Part :=
  let weight := match plain with
    | some (min, w) => w * min + w + 3
    | none => body.weight + 2
  ⟨.atomic body.expr, weight, body.mayBeEmpty⟩

/-- A look at what follows. -/
def ahead (negated : Bool) (body : Part) : Part :=
  ⟨.ahead negated body.expr, body.weight + (if negated then 5 else 2), true⟩

/-- A look at what is in front. -/
def behind (negated : Bool) (reach : Reach) (body : Part) : Part :=
  let own := match reach, negated with
    | .exactly _, false => 3
    | .exactly _, true => 6
    | .between _ _, false => 12
    | .between _ _, true => 15
  ⟨.behind negated reach body.expr, body.weight + own, true⟩

/-- A back-reference; the groups nest in one level only, so that at any
    other there is none to refer to. -/
def again (use : Tree.GroupUse) (r : Reference) : Part :=
  let mayBeEmpty := r.within || r.groups.any use.mayBeEmpty
  ⟨if r.level.all (· == 0) then .again r else .never, 1, mayBeEmpty⟩

end Part

namespace Tree

/-- Whether a tree is any character. -/
def isDot : Tree → Bool
  | .dot _ => true
  | _ => false

/-- The least number of turns and the weight of the body, if a tree is an
    endless greedy loop over a text or a character. -/
def plainLoop? : Tree → Option (Nat × Nat)
  | .loop min none true (.text _ cs) =>
      if min ≤ 1 ∧ !cs.isEmpty then some (min, Part.stretches cs) else none
  | .loop min none true (.set _) => if min ≤ 1 then some (min, 1) else none
  | .loop min none true (.dot _) => if min ≤ 1 then some (min, 1) else none
  | _ => none

mutual

/-- The expression of a settled tree. -/
def part (use : GroupUse) : Tree → Part
  | .text _ cs => .literal cs
  | .set s => .one s
  | .dot newline => .one (if newline then .all else .compl .newline)
  | .seq ts => partInARow use ts
  | .alt ts => partOfAny use ts
  | .loop min max greedy body =>
      (body.part use).loop body.isDot (watchedGroups use max body) min max greedy
  | .capture index body =>
      (body.part use).capture index (use.isFresh index) (use.traced.contains index)
  | .scope body => body.part use
  | .atomic body => (body.part use).atomic body.plainLoop?
  | .lineBreak => ⟨.lineBreak, 7, false⟩
  | .ahead negated body => (body.part use).ahead negated
  | .behind negated reach body => (body.part use).behind negated reach
  | .anchor a => ⟨.anchor a, 1, true⟩
  | .again r => .again use r

/-- The expression of settled trees in a row. -/
def partInARow (use : GroupUse) : List Tree → Part
  | [] => .empty
  | [t] => t.part use
  | t :: ts => (t.part use).seq (partInARow use ts)

/-- The expression of a choice between settled trees. -/
def partOfAny (use : GroupUse) : List Tree → Part
  | [] => .empty
  | [t] => t.part use
  | t :: ts => (t.part use).alt (partOfAny use ts)

end

/-- The expression of the settled tree of a whole pattern. -/
def toExpr (t : Tree) : Expr :=
  (t.part t.groupUse).expr

end Tree

end Highlighter.Regex
