import Mathlib.Data.List.Chain
import Highlighter.Regex.Dialect

/-! # Classes in regex literals

    What a class is written with in a regex literal, and which characters
    it denotes there.  This is not how the engine reads a class: a bracket
    and an ampersand stand for themselves, the shorthands know ASCII only,
    and a dash is a range between two characters and stands for itself
    everywhere else.  Characters are code points.

    `expand_source` says what the engine gets to see of a class. -/

namespace Highlighter.Regex

/-- A shorthand for a set of characters. -/
inductive Shorthand where
  | word
  | noWord
  | digit
  | noDigit
deriving DecidableEq, Repr

namespace Shorthand

/-- The letter behind the backslash. -/
def letter : Shorthand → Char
  | .word => 'w'
  | .noWord => 'W'
  | .digit => 'd'
  | .noDigit => 'D'

/-- Whether a character is in the set. -/
def mem : Shorthand → Char → Bool
  | .word, c => c.isAlphanum || c == '_'
  | .noWord, c => !(c.isAlphanum || c == '_')
  | .digit, c => c.isDigit
  | .noDigit, c => !c.isDigit

end Shorthand

namespace ClassLiteral

-- ── Elements ─────────────────────────────────────────────────────────────

/-- What a class is written with. -/
inductive Element where
  /-- A character as it is. -/
  | plain (c : Char) (ordinary : c ≠ ']' ∧ c ≠ '\\')
  /-- A character that stands for itself behind a backslash. -/
  | quoted (c : Char) (ordinary : c.isAlphanum = false)
  | short (s : Shorthand)
deriving DecidableEq, Repr

namespace Element

/-- How an element is written. -/
def source : Element → List Char
  | .plain c _ => [c]
  | .quoted c _ => ['\\', c]
  | .short s => ['\\', s.letter]

/-- The character an element stands for, unless that is a set of them. -/
def char? : Element → Option Char
  | .plain c _ => some c
  | .quoted c _ => some c
  | .short _ => none

/-- Whether an element is this character as it is. -/
def isPlain (c : Char) : Element → Bool
  | .plain d _ => d == c
  | _ => false

/-- Whether an element is a dash as it is. -/
def isDash (e : Element) : Bool := e.isPlain '-'

/-- Whether a character is among those an element stands for. -/
def mem : Element → Char → Bool
  | .plain c _, x => x == c
  | .quoted c _, x => x == c
  | .short s, x => s.mem x

theorem eq_plain_of_isPlain {e : Element} {c : Char} (h : e.isPlain c = true) :
    ∃ ordinary, e = .plain c ordinary := by
  cases e with
  | plain d ordinary =>
      obtain rfl : d = c := beq_iff_eq.mp h
      exact ⟨ordinary, rfl⟩
  | quoted d _ => exact nomatch h
  | short s => exact nomatch h

theorem dash_or_char_or_short (e : Element) :
    e.isDash = true ∨ (∃ c, e.char? = some c ∧ e.isDash = false) ∨ ∃ s, e = .short s := by
  cases e with
  | plain c _ =>
      cases hdash : Element.isDash (.plain c _) with
      | true => exact .inl rfl
      | false => exact .inr (.inl ⟨c, rfl, rfl⟩)
  | quoted c _ => exact .inr (.inl ⟨c, rfl, rfl⟩)
  | short s => exact .inr (.inr ⟨s, rfl⟩)

end Element

-- ── Members ──────────────────────────────────────────────────────────────

/-- What a class is made of. -/
inductive Member where
  | one (e : Element)
  /-- The characters between two; `bare` if the first of them is a dash as
      it is. -/
  | range (bare : Bool) (lo hi : Char)
deriving DecidableEq, Repr

/-- Whether a character is among those of a member. -/
def Member.mem : Member → Char → Bool
  | .one e, x => e.mem x
  | .range _ lo hi, x => decide (lo ≤ x) && decide (x ≤ hi)

/-- The members of a class.  A dash between two elements makes a range of
    two characters, which have to be in order; next to a shorthand it is a
    member of its own. -/
def members? : List Element → Option (List Member)
  | [] => some []
  | [a] => some [.one a]
  | [a, b] => some [.one a, .one b]
  | a :: d :: b :: es =>
      if d.isDash then
        match a.char?, b.char? with
        | some lo, some hi =>
            if lo ≤ hi then (members? es).map (.range a.isDash lo hi :: ·) else none
        | _, _ => (members? es).map ([.one a, .one d, .one b] ++ ·)
      else (members? (d :: b :: es)).map (.one a :: ·)

end ClassLiteral

/-- A class in a regex literal. -/
structure ClassLiteral where
  negated : Bool
  elements : List ClassLiteral.Element
  /-- A caret in front would negate the class. -/
  caret : negated = false → elements.head?.all (!·.isPlain '^')
  /-- Every range is in order. -/
  ordered : (ClassLiteral.members? elements).isSome

namespace ClassLiteral

/-- How a class is written. -/
def source (l : ClassLiteral) : List Char :=
  Dialect.bracket l.negated (l.elements.flatMap Element.source)

/-- The members of a class. -/
def members (l : ClassLiteral) : List Member := (members? l.elements).get l.ordered

theorem members?_eq (l : ClassLiteral) : members? l.elements = some l.members :=
  (Option.some_get l.ordered).symm

/-- Whether a class denotes a character. -/
def mem (l : ClassLiteral) (x : Char) : Bool :=
  l.negated != l.members.any (·.mem x)

-- ── Expansion ────────────────────────────────────────────────────────────

/-- What an element is expanded to. -/
def Element.expanded : Element → List Char
  | .plain c _ => if c = '[' then ['\\', '['] else [c]
  | .quoted c _ => ['\\', c]
  | .short s => Dialect.escape true s.letter

/-- An element is expanded to something that begins with itself, with a
    backslash, a bracket, a letter or a digit. -/
theorem Element.isPlain_of_head? {e : Element} {c : Char} {cs : List Char}
    (hescape : c ≠ '\\') (hopen : c ≠ '[') (hplain : c.isAlphanum = false)
    (h : (e.expanded ++ cs).head? = some c) : e.isPlain c = true := by
  cases e with
  | plain d _ =>
      by_cases hd : d = '['
      · rw [Element.expanded, if_pos hd] at h
        exact absurd (Option.some.inj h).symm hescape
      · rw [Element.expanded, if_neg hd] at h
        exact beq_iff_eq.mpr (Option.some.inj h)
  | quoted d _ => exact absurd (Option.some.inj h).symm hescape
  | short s =>
    cases s with
    | word =>
        obtain rfl : 'a' = c := Option.some.inj h
        exact nomatch hplain
    | digit =>
        obtain rfl : '0' = c := Option.some.inj h
        exact nomatch hplain
    | noWord => exact absurd (Option.some.inj h).symm hopen
    | noDigit => exact absurd (Option.some.inj h).symm hopen

variable {flags : Flags}

/-- No escape but a shorthand is expanded in a class. -/
theorem escape_quoted {c : Char} (h : c.isAlphanum = false) :
    Dialect.escape true c = ['\\', c] := by
  unfold Dialect.escape
  split <;> first | rfl | exact absurd h (by decide)

theorem expandFrom_element (e : Element) (cs : List Char) :
    Dialect.expandFrom flags true (e.source ++ cs)
      = e.expanded ++ Dialect.expandFrom flags true cs := by
  cases e with
  | plain c ordinary =>
      show Dialect.expandFrom flags true (c :: cs) = _
      by_cases hc : c = '['
      · subst hc
        rfl
      · rw [Element.expanded, if_neg hc, Dialect.expandFrom.eq_def]
        split <;> grind
  | quoted c ordinary =>
      show Dialect.escape true c ++ _ = _
      rw [escape_quoted ordinary]
      rfl
  | short s => rfl

theorem expandFrom_elements (es : List Element) (cs : List Char) :
    Dialect.expandFrom flags true (es.flatMap Element.source ++ cs)
      = es.flatMap Element.expanded ++ Dialect.expandFrom flags true cs := by
  induction es with
  | nil => rfl
  | cons e es ih =>
      rw [List.flatMap_cons, List.append_assoc, expandFrom_element, ih, ← List.append_assoc,
        List.flatMap_cons]

/-- Behind an opening bracket stands a class, unless it ends at once. -/
theorem expandFrom_bracket {negated : Bool} {cs : List Char} (hend : cs.head? ≠ some ']')
    (hcaret : negated = false → cs.head? ≠ some '^') :
    Dialect.expandFrom flags false ('[' :: (if negated then ['^'] else []) ++ cs)
      = '[' :: (if negated then ['^'] else []) ++ Dialect.expandFrom flags true cs := by
  cases negated with
  | false =>
      show Dialect.expandFrom flags false ('[' :: cs) = _
      rw [Dialect.expandFrom.eq_def]
      split <;> grind
  | true =>
      show Dialect.expandFrom flags false ('[' :: '^' :: cs) = _
      rw [Dialect.expandFrom.eq_def]
      split <;> grind

/-- What an element begins with: only a caret as it is begins with one. -/
theorem Element.source_eq_cons (e : Element) :
    ∃ c cs, e.source = c :: cs ∧ c ≠ ']' ∧ (c = '^' → e.isPlain '^' = true) := by
  cases e with
  | plain c ordinary => exact ⟨c, [], rfl, ordinary.1, fun h => beq_iff_eq.mpr h⟩
  | quoted c _ => exact ⟨'\\', [c], rfl, by decide, fun h => absurd h (by decide)⟩
  | short s => exact ⟨'\\', [s.letter], rfl, by decide, fun h => absurd h (by decide)⟩

/-- What the engine gets to see of a class that is not empty. -/
theorem expand_source (l : ClassLiteral) (h : l.elements ≠ []) :
    Dialect.expand flags l.source
      = Dialect.bracket l.negated (l.elements.flatMap Element.expanded) := by
  have hinside : Dialect.expandFrom flags true (l.elements.flatMap Element.source ++ [']'])
      = l.elements.flatMap Element.expanded ++ [']'] := expandFrom_elements l.elements [']']
  obtain ⟨e, es, hes⟩ := List.exists_cons_of_ne_nil h
  obtain ⟨c, cs, hsource, hend, hcaret⟩ := e.source_eq_cons
  have hhead : (l.elements.flatMap Element.source ++ [']']).head? = some c := by
    rw [hes, List.flatMap_cons, hsource]
    rfl
  rw [Dialect.expand, source, Dialect.bracket, Dialect.bracket, List.append_assoc,
    expandFrom_bracket, hinside, List.append_assoc]
  · rw [hhead]
    exact fun h => hend (Option.some.inj h)
  · intro hn hc
    have hfirst := l.caret hn
    rw [hes, List.head?_cons, Option.all_some, hcaret (Option.some.inj (hhead ▸ hc))] at hfirst
    exact nomatch hfirst

end ClassLiteral

end Highlighter.Regex
