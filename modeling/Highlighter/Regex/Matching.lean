import Highlighter.Regex.BackReference

/-! # Matching

    How an expression matches at a position of a text.  A `Matcher` tries
    its ways in order of preference and hands each resulting state to what
    comes after, until one of them leads on; that is backtracking, with
    the rest of the match as a continuation.

    What an `Attempt` leaves behind, found or not, is a `Ledger`: the
    lasting marks of groups, and an account of the dead ends.  A ledger can
    close, and then no other way is tried.  That of a match is a `Tally`,
    which closes when there are too many dead ends; `Marks` are a ledger
    that stays open.

    Only `loop` repeats anything.  A turn consumes something, or ends the
    loop, or changes a group, or is one of a bounded number; so the number
    of turns is bounded, and the bound is the loop's fuel. -/

namespace Highlighter.Regex

-- ── Ledgers ──────────────────────────────────────────────────────────────

/-- What is kept of all ways that were tried. -/
class Ledger (σ : Type) where
  /-- The lasting marks of groups. -/
  marks : σ → Marks
  /-- Puts other marks in their place. -/
  setMarks : σ → Marks → σ
  /-- Enters a dead end. -/
  deadEnd : σ → σ
  /-- Whether another way may be tried. -/
  isOpen : σ → Bool

/-- The marks alone. -/
instance : Ledger Marks where
  marks m := m
  setMarks _ m := m
  deadEnd m := m
  isOpen _ := true

/-- Marks, and the number of dead ends. -/
structure Tally where
  marks : Marks
  deadEnds : Nat := 0
deriving DecidableEq, Repr

/-- The most dead ends that an attempt at one position may come to. -/
def retryLimit : Nat := 10000000

instance : Ledger Tally where
  marks := Tally.marks
  setMarks t m := { t with marks := m }
  deadEnd t := { t with deadEnds := t.deadEnds + 1 }
  isOpen t := t.deadEnds ≤ retryLimit

-- ── Attempts ─────────────────────────────────────────────────────────────

/-- What is tried: where it leads, if it leads on, and the ledger after
    it. -/
abbrev Attempt (σ : Type) := σ → Option MatchState × σ

/-- A way to match: a state, and what to do with the states after it. -/
abbrev Matcher (σ : Type) := MatchState → (MatchState → Attempt σ) → Attempt σ

variable {σ : Type} [Ledger σ]

namespace Attempt

/-- Leads nowhere. -/
def fail : Attempt σ := fun l => (none, Ledger.deadEnd l)

/-- Leads to a state. -/
def done (s : MatchState) : Attempt σ := fun l => (some s, l)

/-- The first attempt, or the second one if the first leads nowhere. -/
@[specialize] def orElse (a b : Attempt σ) : Attempt σ := fun l =>
  match a l with
  | (some s, l) => (some s, l)
  | (none, l) => if Ledger.isOpen l then b l else (none, l)

/-- Goes on from where an attempt leads. -/
def andThen (a : Attempt σ) (k : MatchState → Attempt σ) : Attempt σ := fun l =>
  match a l with
  | (some s, l) => k s l
  | (none, l) => (none, l)

/-- Goes on only if the attempt leads nowhere. -/
@[specialize] def ifFails (a b : Attempt σ) : Attempt σ := fun l =>
  match a l with
  | (some _, l) => fail l
  | (none, l) => if Ledger.isOpen l then b l else (none, l)

end Attempt

namespace Matcher

/-- Turns of a loop: `min` of them are needed, `max` bounds the rest. -/
@[specialize] def loop (body : Matcher σ) (greedy : Bool) (guard : Guard) :
    (fuel min : Nat) → (max : Option Nat) → Matcher σ
  | 0, _, _ => fun _ _ => .fail
  | fuel + 1, min + 1, max => fun s k =>
      body s fun s' =>
        if guard.stops s s' then k s'
        else loop body greedy guard fuel min (max.map (· - 1)) s' k
  | _ + 1, 0, some 0 => fun s k => k s
  | fuel + 1, 0, max => fun s k =>
      let more : Attempt σ := fun l =>
        body s (fun s' =>
          if guard.stops s s' then k s'
          else loop body greedy guard fuel 0 (max.map (· - 1)) s' k) l
      let enough : Attempt σ := fun l => k s l
      if greedy then more.orElse enough else enough.orElse more

/-- Matches a body that ends at the position, starting `back` characters
    earlier or up to `further` more.  The text ends at the position for
    the body, and goes on as before behind it. -/
@[specialize] def behind (body : Matcher σ) (s : MatchState) : (further back : Nat) → Attempt σ
  | 0, back => attempt back
  | further + 1, back => (attempt back).orElse fun l => behind body s further (back + 1) l
where
  /-- Matches the body from `back` characters earlier. -/
  @[specialize] attempt (back : Nat) : Attempt σ :=
    if back ≤ s.pos then
      body { s with pos := s.pos - back, limit := s.pos } fun s' =>
        if s'.pos = s.pos then .done { s' with limit := s.limit } else .fail
    else .fail

/-- Matches a body from a number of characters earlier, wherever it ends. -/
@[specialize] def earlier (body : Matcher σ) (s : MatchState) (back : Nat) : Attempt σ :=
  if back ≤ s.pos then body { s with pos := s.pos - back } .done else .fail

/-- Goes on from what an assertion has found: where that has led when it
    has to hold, from the old state when it must not. -/
@[specialize] def assert (negated : Bool) (found : Attempt σ) : Matcher σ := fun s k =>
  if negated then found.ifFails fun l => k s l else found.andThen k

end Matcher

/-- How an expression matches in a text. -/
@[specialize] def Expr.matcher (text : Haystack) : Expr → Matcher σ
  | .empty, s, k => k s
  | .one set, s, k =>
      if s.pos < s.limit then
        match text[s.pos]? with
        | some c => if set.mem c then k s.next else .fail
        | none => .fail
      else .fail
  | .seq a b, s, k => a.matcher text s fun s' => b.matcher text s' k
  | .alt a b, s, k =>
      Attempt.orElse (fun l => a.matcher text s k l) fun l => b.matcher text s k l
  | .loop body min max greedy guard, s, k =>
      Matcher.loop (body.matcher text) greedy guard (guard.turns text.size max) min max s k
  | .capture index true traced body, s, k =>
      body.matcher text (s.enter index traced) fun s' => k (s'.leave index traced)
  | .capture index false _ body, s, k => fun l =>
      body.matcher text s
        (fun s' l => k s' (Ledger.setMarks l ((Ledger.marks l).leave index s'.pos)))
        (Ledger.setMarks l ((Ledger.marks l).enter index s.pos))
  | .atomic body, s, k => Attempt.andThen (body.matcher text s .done) k
  | .ahead negated body, s, k =>
      let found := Attempt.andThen (body.matcher text s .done) fun s' =>
        .done { s' with pos := s.pos }
      Matcher.assert negated found s k
  | .behind negated (.exactly n) body, s, k =>
      Matcher.assert negated (Matcher.earlier (body.matcher text) s n) s k
  | .behind negated (.between min max) body, s, k =>
      let furthest := Nat.min (max.getD s.pos) s.pos
      Matcher.assert negated (Matcher.behind (body.matcher text) s (furthest - min) min) s k
  | .anchor a, s, k => if a.holds text s.pos then k s else .fail
  | .again r, s, k => fun l =>
      match s.refer? text (Ledger.marks l) r with
      | some s' => k s' l
      | none => Attempt.fail l

/-- A set matches one character, or comes to a dead end. -/
theorem matcher_one (s : CharSet) {text : Haystack} {st : MatchState}
    (hlimit : st.limit = text.size) (k : MatchState → Attempt σ) :
    (Expr.one s).matcher text st k
      = ((text[st.pos]?.filter s.mem).map fun _ => k st.next).getD .fail := by
  rw [Expr.matcher]
  by_cases hpos : st.pos < text.size
  · rw [if_pos (hlimit ▸ hpos), Array.getElem?_eq_getElem hpos, Option.filter_some]
    cases hs : s.mem text[st.pos] with
    | true => exact if_pos hs
    | false => exact if_neg (Bool.not_eq_true _ ▸ hs)
  · rw [if_neg (hlimit ▸ hpos), Array.getElem?_eq_none (Nat.le_of_not_lt hpos)]
    rfl

end Highlighter.Regex
