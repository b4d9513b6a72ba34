import Highlighter.Regex.Escape
import Highlighter.Regex.Tree

/-! # Quantifiers

    `*`, `+`, `?` and counts between braces, with a question mark for as
    few as possible and a plus for no giving back.  A brace that is no
    count is a plain character.

    A quantifier on a quantified tree melts into it where both are simple:
    `Shape.nested` is the table of what two of them amount to.  Two fixed
    counts are multiplied. -/

namespace Highlighter.Regex

/-- How often something is repeated. -/
structure Quantifier where
  min : Nat
  max : Option Nat
  greedy : Bool := true
  /-- Nothing is given back once it has matched. -/
  possessive : Bool := false
deriving DecidableEq, Repr

namespace Quantifier

/-- The highest count. -/
def limit : Nat := 100000

/-- Refuses counts over the limit. -/
def checkCount (n : Option Nat) : Except SyntaxError Unit :=
  if n.any (· > limit) then .error .repeatTooBig else .ok ()

/-- The sign behind `*`, `+` and `?`. -/
def withSign (q : Quantifier) : List Char → Quantifier × List Char
  | '?' :: cs => ({ q with greedy := false }, cs)
  | '+' :: cs => ({ q with possessive := true }, cs)
  | cs => (q, cs)

/-- The sign behind a count between braces, which knows no plus. -/
def withLazySign (q : Quantifier) : List Char → Quantifier × List Char
  | '?' :: cs => ({ q with greedy := false }, cs)
  | cs => (q, cs)

/-- Between `low` and `high` times; in the wrong order, they are a
    possessive quantifier. -/
def between (low : Nat) (high : Option Nat) (cs : List Char) : Quantifier × List Char :=
  if high.any (· < low) then
    ({ min := high.getD 0, max := some low, possessive := true }, cs)
  else withLazySign { min := low, max := high } cs

/-- Reads a count, from behind its opening brace. -/
def braces? (cs : List Char) : Except SyntaxError (Option (Quantifier × List Char)) := do
  let (low, afterLow) := Escape.number? cs
  checkCount low
  match afterLow with
  | ',' :: afterComma =>
      let (high, afterHigh) := Escape.number? afterComma
      checkCount high
      match afterHigh with
      | '}' :: rest =>
          if low.isNone && high.isNone then .ok none
          else .ok (some (between (low.getD 0) high rest))
      | _ => .ok none
  | '}' :: rest => .ok (low.map fun n => ({ min := n, max := some n }, rest))
  | _ => .ok none

/-- Reads a quantifier in front, if there is one. -/
def read? : List Char → Except SyntaxError (Option (Quantifier × List Char))
  | '*' :: cs => .ok (some (withSign { min := 0, max := none } cs))
  | '+' :: cs => .ok (some (withSign { min := 1, max := none } cs))
  | '?' :: cs => .ok (some (withSign { min := 0, max := some 1 } cs))
  | '{' :: cs => braces? cs
  | _ => .ok none

-- ── Quantifiers of quantifiers ───────────────────────────────────────────

/-- The six simple ways to repeat. -/
inductive Shape where
  | option
  | star
  | plus
  | lazyOption
  | lazyStar
  | lazyPlus
deriving DecidableEq, Repr

/-- The shape of a repetition, if it is a simple one. -/
def Shape.of? (min : Nat) (max : Option Nat) (greedy : Bool) : Option Shape :=
  match min, max, greedy with
  | 0, some 1, true => some .option
  | 0, none, true => some .star
  | 1, none, true => some .plus
  | 0, some 1, false => some .lazyOption
  | 0, none, false => some .lazyStar
  | 1, none, false => some .lazyPlus
  | _, _, _ => none

/-- A tree repeated in a simple way. -/
def Shape.apply (s : Shape) (t : Tree) : Tree :=
  match s with
  | .option => .loop 0 (some 1) true t
  | .star => .loop 0 none true t
  | .plus => .loop 1 none true t
  | .lazyOption => .loop 0 (some 1) false t
  | .lazyStar => .loop 0 none false t
  | .lazyPlus => .loop 1 none false t

/-- What `outer` of `inner` amounts to, the innermost shape last. -/
def Shape.nested (inner outer : Shape) : List Shape :=
  match inner, outer with
  | .option, .option => [.option]
  | .option, .star => [.star]
  | .option, .plus => [.star]
  | .option, .lazyOption => [.lazyOption]
  | .option, .lazyStar => [.lazyStar]
  | .option, .lazyPlus => [.lazyPlus, .option]
  | .star, .lazyOption => [.lazyOption, .plus]
  | .star, .lazyStar => [.lazyOption, .plus]
  | .star, _ => [.star]
  | .plus, .option => [.star]
  | .plus, .star => [.star]
  | .plus, .plus => [.plus]
  | .plus, .lazyOption => [.lazyOption, .plus]
  | .plus, .lazyStar => [.lazyOption, .plus]
  | .plus, .lazyPlus => [.plus]
  | .lazyOption, .option => [.lazyOption]
  | .lazyOption, .lazyOption => [.lazyOption]
  | .lazyOption, _ => [.lazyStar]
  | .lazyStar, _ => [.lazyStar]
  | .lazyPlus, .option => [.option, .lazyPlus]
  | .lazyPlus, .star => [.star]
  | .lazyPlus, .plus => [.plus]
  | .lazyPlus, .lazyOption => [.lazyStar]
  | .lazyPlus, .lazyStar => [.lazyStar]
  | .lazyPlus, .lazyPlus => [.lazyPlus]

/-- Products of two fixed counts stay below. -/
def maxProduct : Nat := 0x7FFFFFFF

/-- A fixed count of a fixed count. -/
def product (outer inner : Nat) : Except SyntaxError Nat :=
  if inner ≠ 0 ∧ outer ≠ 0 ∧ maxProduct / inner ≤ outer then .error .repeatTooBig
  else .ok (outer * inner)

/-- The counts over an endless greedy loop, which takes all it can the
    first time: a bound above what is needed adds nothing. -/
def overEndless (q : Quantifier) : Option Nat :=
  if q.greedy then q.max.map fun m => if 1 < m then Nat.max q.min 1 else m else q.max

/-- The repetition without regard to giving back. -/
def repeated (q : Quantifier) (t : Tree) : Except SyntaxError Tree :=
  match t with
  | .loop min max greedy body =>
      match Shape.of? min max greedy, Shape.of? q.min q.max q.greedy with
      | some inner, some outer => .ok ((Shape.nested inner outer).foldr Shape.apply body)
      | some inner, none =>
          if inner = .star ∨ inner = .plus then .ok (.loop q.min q.overEndless q.greedy t)
          else .ok (.loop q.min q.max q.greedy t)
      | none, _ =>
          if max = some min ∧ q.max = some q.min then do
            let n ← product q.min min
            .ok (.loop n (some n) q.greedy body)
          else .ok (.loop q.min q.max q.greedy t)
  | _ => .ok (.loop q.min q.max q.greedy t)

/-- Whether the quantifier stands for exactly once, which changes nothing. -/
def isOnce (q : Quantifier) : Bool :=
  q.min == 1 && q.max == some 1

/-- The quantified tree. -/
def apply (q : Quantifier) (t : Tree) : Except SyntaxError Tree := do
  let t ← q.repeated t
  .ok (if q.possessive then .atomic t else t)

end Quantifier

end Highlighter.Regex
