import Highlighter.Regex.Expr

/-! # The state of a match

    How far a match has got and where its groups were entered and left.

    The marks of a group are of two kinds.  Those of a fresh group belong
    to the way that is being tried: when the way is given up, they are
    taken back with it.  All other marks last.  A group that every way
    passes through sets its marks again before they matter, so lasting
    marks show only where a reference stands inside of its own group or in
    front of it in a loop. -/

namespace Highlighter.Regex

-- ── Marks ────────────────────────────────────────────────────────────────

/-- Where groups were entered and left. -/
structure Marks where
  /-- Where each group was entered last. -/
  opened : List (Option Nat)
  /-- Where each group was left last. -/
  closed : List (Option Nat)
deriving DecidableEq, Repr

namespace Marks

/-- No group out of so many has been entered. -/
def none (groups : Nat) : Marks :=
  ⟨List.replicate (groups + 1) .none, List.replicate (groups + 1) .none⟩

/-- A group was entered. -/
def enter (m : Marks) (group pos : Nat) : Marks :=
  { m with opened := m.opened.set group (some pos) }

/-- A group was left. -/
def leave (m : Marks) (group pos : Nat) : Marks :=
  { m with closed := m.closed.set group (some pos) }

/-- Forgets where a group was left. -/
def forget (m : Marks) (group : Nat) : Marks :=
  { m with closed := m.closed.set group .none }

/-- The characters from where a group was entered to where it was left,
    if both are known. -/
def span? (m : Marks) (group : Nat) : Option (Nat × Nat) :=
  match m.opened.getD group .none, m.closed.getD group .none with
  | some start, some stop => some (start, stop)
  | _, _ => .none

end Marks

-- ── States ───────────────────────────────────────────────────────────────

/-- One end of a group that was passed. -/
structure Passage where
  group : Nat
  /-- Whether the group was left there; else it was entered. -/
  leaving : Bool
  pos : Nat
deriving DecidableEq, Repr

/-- Where a match has got to on the way that is being tried. -/
structure MatchState where
  /-- The number of characters in front of the position. -/
  pos : Nat
  /-- Where the text ends for what is matched now. -/
  limit : Nat
  /-- The marks of fresh groups. -/
  marks : Marks
  /-- The ends of traced groups that were passed, the last one first. -/
  trail : List Passage := []
deriving DecidableEq, Repr

namespace MatchState

/-- The state at the start of a match in a text of `size` characters, with
    no group entered. -/
def start (groups size pos : Nat) : MatchState := ⟨pos, size, .none groups, []⟩

/-- The state one character on. -/
def next (s : MatchState) : MatchState := { s with pos := s.pos + 1 }

/-- Adds an end of a group to the trail, if the group is traced. -/
def pass (s : MatchState) (traced : Bool) (group : Nat) (leaving : Bool) : MatchState :=
  if traced then { s with trail := ⟨group, leaving, s.pos⟩ :: s.trail } else s

/-- Enters a fresh group. -/
def enter (s : MatchState) (group : Nat) (traced : Bool) : MatchState :=
  { s with marks := (s.marks.enter group s.pos).forget group }.pass traced group false

/-- Leaves a fresh group. -/
def leave (s : MatchState) (group : Nat) (traced : Bool) : MatchState :=
  { s with marks := s.marks.leave group s.pos }.pass traced group true

/-- The characters a group has matched, if it has taken part: as its marks
    in the state say, or as the `lasting` ones do. -/
def span? (s : MatchState) (lasting : Marks) (group : Nat) : Option (Nat × Nat) :=
  match s.marks.span? group with
  | some span => some span
  | none => lasting.span? group

/-- Where one of some groups was left last, and where it had been entered
    before. -/
def lastSpan? (groups : List Nat) (left : Option Nat) : List Passage → Option (Nat × Nat)
  | [] => none
  | p :: ps =>
      if !groups.contains p.group then lastSpan? groups left ps
      else if p.leaving then lastSpan? groups (some p.pos) ps
      else match left with
        | some stop => some (p.pos, stop)
        | none => lastSpan? groups none ps

end MatchState

-- ── Loops ────────────────────────────────────────────────────────────────

/-- Whether a turn from one state to another ends a loop. -/
def Guard.stops (before after : MatchState) : Guard → Bool
  | .none => false
  | .position => after.pos == before.pos
  | .groups watched =>
      after.pos == before.pos
        && watched.all fun i => after.marks.span? i == before.marks.span? i

/-- A bound on the number of turns of a loop with this guard and at most
    `max` turns, in a text of `size` characters. -/
def Guard.turns (size : Nat) (max : Option Nat) : Guard → Nat
  | .none => size + max.getD 0 + 2
  | .position => size + 2
  | .groups watched => (size + 2) * (watched.length + 2)

end Highlighter.Regex
