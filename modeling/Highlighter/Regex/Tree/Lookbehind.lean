import Highlighter.Regex.SyntaxError
import Highlighter.Regex.Tree.Extent

/-! # Lookbehinds

    What a lookbehind may hold, and what becomes of one.  A lookbehind
    starts some way back from the position, so the distance is worked out
    beforehand; repetitions at its far end are cut to the least they need,
    and alternatives of different lengths become lookbehinds of their own
    where that makes each of them fixed. -/

namespace Highlighter.Regex

namespace Tree

-- ── What a lookbehind may hold ───────────────────────────────────────────

mutual

/-- Whether a tree may stand in a lookbehind: it does not look ahead, not
    even for the end of the text.  A negated one captures nothing, one that
    is not negated holds no negated one. -/
def looksBack (negated : Bool) : Tree → Bool
  | .seq ts => allLookBack negated ts
  | .alt ts => allLookBack negated ts
  | .loop _ _ _ body => body.looksBack negated
  | .capture _ body => !negated && body.looksBack negated
  | .scope body => body.looksBack negated
  | .atomic body => body.looksBack negated
  | .ahead _ _ => false
  | .behind inner _ body => (negated || !inner) && body.looksBack negated
  | .anchor a => !a.looksAhead
  | _ => true

/-- Whether all trees of a list may. -/
def allLookBack (negated : Bool) : List Tree → Bool
  | [] => true
  | t :: ts => t.looksBack negated && allLookBack negated ts

end

/-- The longest distance a lookbehind goes back. -/
def maxLookbehind : Nat := 65535

-- ── The far end ──────────────────────────────────────────────────────────

/-- Whether a tree is one text, one character or one back-reference. -/
def isSimple : Tree → Bool
  | .text _ _ => true
  | .set _ => true
  | .dot _ => true
  | .again _ => true
  | _ => false

/-- A repetition of something simple cut to the least it needs, and how
    often that is. -/
def leastRepeated? : Tree → Option (Nat × Tree)
  | .loop min _ greedy body =>
      if body.isSimple then some (min, .loop min (some min) greedy body) else none
  | _ => none

/-- A sequence whose repetitions in front are cut to the least they need,
    up to the first part that is needed at all; none if there is no such
    part. -/
def withLeastFront : List Tree → Option (List Tree)
  | [] => none
  | t :: ts =>
      match t.leastRepeated? with
      | some (0, t) => (withLeastFront ts).map (t :: ·)
      | some (_, t) => some (t :: ts)
      | none => some (t :: ts)

/-- A lookbehind's body, or one of its alternatives, with the repetitions
    at its far end cut to the least they need. -/
def withLeastEnd : Tree → Except SyntaxError Tree
  | .seq ts =>
      match withLeastFront ts with
      | some ts => .ok (.seq ts)
      | none => .error .nothingBehind
  | t =>
      match t.leastRepeated? with
      | some (_, t) => .ok t
      | none => .ok t

-- ── The near end ─────────────────────────────────────────────────────────

mutual

/-- Whether the last part of a tree that consumes anything is a line end
    of any kind; nothing if no part consumes anything. -/
def endsInLineBreak? : Tree → Option Bool
  | .text _ cs => if cs.isEmpty then none else some false
  | .seq ts => lastEndsInLineBreak? ts
  | .loop min _ _ body => if min = 0 then some false else body.endsInLineBreak?
  | .capture _ body => body.endsInLineBreak?
  | .scope body => body.endsInLineBreak?
  | .atomic body => body.endsInLineBreak?
  | .lineBreak => some true
  | .ahead _ _ => none
  | .behind _ _ _ => none
  | .anchor _ => none
  | _ => some false

/-- The same of the last tree in a list for which there is an answer. -/
def lastEndsInLineBreak? : List Tree → Option Bool
  | [] => none
  | t :: ts =>
      match lastEndsInLineBreak? ts with
      | some b => some b
      | none => t.endsInLineBreak?

end

/-- A lookbehind of varying length.  One that ends in a line end of any
    kind holds behind a pair only, for the pair is looked for first. -/
def behindVarying (negated : Bool) (reach : Reach) (body : Tree) : Tree :=
  if body.endsInLineBreak? = some true then
    let both := [.behind false (.exactly 2) (.text .exact ['\r', '\n']), .behind false reach body]
    if negated then .ahead true (.seq both) else .seq both
  else .behind negated reach body

-- ── Settling ─────────────────────────────────────────────────────────────

/-- A lookbehind over a body whose extent is known.  It is decided at once
    if the body can be empty and nothing else depends on it. -/
def behindOf (observed negated : Bool) (body : Tree) (e : Extent) : Tree :=
  if e.min = 0 ∧ e.sure ∧ !observed then if negated then .never else .empty
  else if e.fixed then .behind negated (.exactly e.min) body
  else behindVarying negated (.between e.min e.max) body

/-- Refuses lookbehinds that go back too far. -/
def checkDistance (e : Extent) : Except SyntaxError Unit :=
  if e.min > maxLookbehind || e.max.any (· > maxLookbehind) then .error .invalidLookbehind
  else .ok ()

/-- The extent of a lookbehind's body. -/
def extentBehind (extent : Tree → Option Extent) (body : Tree) : Except SyntaxError Extent :=
  match extent body with
  | none => .error .invalidLookbehind
  | some e => do
      checkDistance e
      .ok e

/-- Whether some of these groups is captured in a tree. -/
def capturesAny (groups : List Nat) (t : Tree) : Bool :=
  t.captures.any fun c => groups.contains c.1

mutual

/-- What a lookbehind over `body` amounts to, given the extent of trees
    and the groups that back-references point at.  Alternatives of
    different lengths of which all but the first are fixed become
    lookbehinds of their own: a choice of them, or a sequence when
    negated. -/
def settleBehind (extent : Tree → Option Extent) (referenced : List Nat) (negated : Bool) :
    (body : Tree) → Except SyntaxError Tree
  | .alt ts => do
      let parts ← ts.mapM withLeastEnd
      let e ← extentBehind extent (.alt parts)
      let observed := (Tree.alt ts).capturesAny referenced
      let othersFixed := parts.tail.all fun t => (extent t).any Extent.fixed
      if (e.min = 0 ∧ e.sure ∧ !observed) ∨ e.fixed ∨ !othersFixed then
        .ok (behindOf observed negated (.alt parts) e)
      else do
        let ts ← settleBehindAll extent referenced negated ts
        .ok (if negated then .seq ts else .alt ts)
  | t => do
      let body ← t.withLeastEnd
      let e ← extentBehind extent body
      .ok (behindOf (t.capturesAny referenced) negated body e)

/-- What lookbehinds over the trees of a list amount to. -/
def settleBehindAll (extent : Tree → Option Extent) (referenced : List Nat) (negated : Bool) :
    (bodies : List Tree) → Except SyntaxError (List Tree)
  | [] => .ok []
  | t :: ts => do
      let t ← settleBehind extent referenced negated t
      let ts ← settleBehindAll extent referenced negated ts
      .ok (t :: ts)

end

end Tree

end Highlighter.Regex
