import Highlighter.Text.CaseFold

/-! # Sets of characters

    What a character class, an escape or a dot stands for: ranges of code
    points closed under the Boolean operations, and two constructions for
    matching in either case.  A set is its membership test `mem`, about
    which there is one equation per construction. -/

namespace Highlighter.Regex

/-- A set of characters. -/
inductive CharSet where
  /-- The code points from `lo` up to `hi`. -/
  | range (lo hi : Nat)
  | union (a b : CharSet)
  | inter (a b : CharSet)
  | compl (a : CharSet)
  /-- The characters with a given folding. -/
  | folding (key : List Char)
  /-- The members of a set and all that differ from one in case only. -/
  | anyCase (a : CharSet)
deriving DecidableEq, Repr

namespace CharSet

/-- Whether a character is in the set. -/
def mem : CharSet → Char → Bool
  | .range lo hi, c => lo ≤ c.toNat && c.toNat ≤ hi
  | .union a b, c => a.mem c || b.mem c
  | .inter a b, c => a.mem c && b.mem c
  | .compl a, c => !a.mem c
  | .folding key, c => Text.CaseFold.fold c == key
  | .anyCase a, c => a.mem c || (Text.CaseFold.variants (Text.CaseFold.fold c)).any a.mem

@[simp] theorem mem_range (lo hi : Nat) (c : Char) :
    (range lo hi).mem c = (decide (lo ≤ c.toNat) && decide (c.toNat ≤ hi)) := rfl

@[simp] theorem mem_union (a b : CharSet) (c : Char) :
    (union a b).mem c = (a.mem c || b.mem c) := rfl

@[simp] theorem mem_inter (a b : CharSet) (c : Char) :
    (inter a b).mem c = (a.mem c && b.mem c) := rfl

@[simp] theorem mem_compl (a : CharSet) (c : Char) : (compl a).mem c = !a.mem c := rfl

/-- The empty set. -/
def none : CharSet := .range 1 0

@[simp] theorem mem_none (c : Char) : none.mem c = false := by
  rw [none, mem_range, Bool.and_eq_false_iff, decide_eq_false_iff_not, decide_eq_false_iff_not]
  omega

/-- The set of one code point. -/
def code (n : Nat) : CharSet := .range n n

/-- The set of one character. -/
def single (c : Char) : CharSet := code c.toNat

@[simp] theorem mem_code (n : Nat) (c : Char) : (code n).mem c = decide (c.toNat = n) := by
  rw [code, mem_range, ← Bool.decide_and]
  exact decide_eq_decide.mpr ⟨fun h => by omega, fun h => by omega⟩

/-- The set with `n` added. -/
def insert (a : CharSet) (n : Nat) : CharSet := .union a (code n)

/-- The union of ranges. -/
def ofRanges (rs : List (Nat × Nat)) : CharSet :=
  rs.foldr (fun r a => .union (.range r.1 r.2) a) none

theorem mem_ofRanges (rs : List (Nat × Nat)) (c : Char) :
    (ofRanges rs).mem c = rs.any fun r => decide (r.1 ≤ c.toNat) && decide (c.toNat ≤ r.2) := by
  induction rs with
  | nil => simp [ofRanges]
  | cons r rs ih =>
      rw [List.any_cons, ← ih]
      rfl

-- ── Named sets ───────────────────────────────────────────────────────────

/-- Every character. -/
def all : CharSet := .compl none

/-- The line end. -/
def newline : CharSet := single '\n'

/-- White space of Unicode, the byte order mark not among it. -/
def space : CharSet :=
  ofRanges [(0x20, 0x20), (0x09, 0x0D), (0x85, 0x85), (0xA0, 0xA0), (0x1680, 0x1680),
    (0x2000, 0x200A), (0x2028, 0x2029), (0x202F, 0x202F), (0x205F, 0x205F), (0x3000, 0x3000)]

/-- White space of ASCII. -/
def asciiSpace : CharSet := ofRanges [(0x20, 0x20), (0x09, 0x0D)]

/-- Hexadecimal digits. -/
def hexDigit : CharSet := ofRanges [(0x30, 0x39), (0x41, 0x46), (0x61, 0x66)]

/-- Decimal digits. -/
def digit : CharSet := .range 0x30 0x39

/-- Letters, digits and the underscore. -/
def word : CharSet := ofRanges [(0x61, 0x7A), (0x41, 0x5A), (0x30, 0x39), (0x5F, 0x5F)]

/-- Single characters that end a line. -/
def lineBreak : CharSet := ofRanges [(0x0A, 0x0D), (0x85, 0x85), (0x2028, 0x2029)]

end CharSet

end Highlighter.Regex
