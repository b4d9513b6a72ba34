import Highlighter.Proofs.Regex.ClassLiteral
import Highlighter.Regex.Tree.Folded

/-! # Case folding and ASCII

    Matching in either case goes by the case foldings of Unicode.  Two
    letters beyond ASCII fold to one of ASCII, the long s and the Kelvin
    sign, and those that fold to several characters are all beyond it.  So a
    set of ASCII that has its letters in both cases gains no more than these
    two (`CharSet.mem_anyCase`). -/

namespace Highlighter.Text.CaseFold

/-- The code point of a letter of ASCII in lower case. -/
def lower (n : Nat) : Nat := if 0x41 ≤ n ∧ n ≤ 0x5A then n + 0x20 else n

theorem lower_lt_iff {n : Nat} : lower n < 0x80 ↔ n < 0x80 := by
  unfold lower
  split <;> omega

/-- Folding by the runs leaves a code point alone or goes by one of them. -/
theorem foldIn_cases (rs : List Run) (n : Nat) :
    foldIn rs n = n ∨ ∃ r ∈ rs, r.covers n = true ∧ foldIn rs n = r.target + (n - r.first) := by
  induction rs with
  | nil => exact .inl rfl
  | cons r rs ih =>
      rw [foldIn]
      by_cases hlow : n < r.first
      · exact .inl (if_pos hlow)
      rw [if_neg hlow]
      cases hcovers : r.covers n with
      | true => exact .inr ⟨r, List.mem_cons_self, hcovers, if_pos rfl⟩
      | false =>
          obtain h | ⟨r', hr', h⟩ := ih
          · exact .inl h
          · exact .inr ⟨r', List.mem_cons_of_mem r hr', h⟩

theorem between_of_covers {r : Run} {n : Nat} (h : r.covers n = true) :
    r.first ≤ n ∧ n ≤ r.last := by
  simp only [Run.covers, Bool.and_eq_true, decide_eq_true_iff] at h
  exact h.1

/-- Only the capital letters of ASCII, the long s and the Kelvin sign fold
    to a letter of ASCII. -/
theorem runs_toAscii : ∀ r ∈ runs, r.target < 0x80 →
    (r.first = 0x41 ∧ r.last = 0x5A ∧ r.target = 0x61)
      ∨ (r.first = 0x17F ∧ r.last = 0x17F ∧ r.target = 0x73)
      ∨ (r.first = 0x212A ∧ r.last = 0x212A ∧ r.target = 0x6B) := by
  decide +kernel

theorem runs_ofAscii : ∀ r ∈ runs, r.first < 0x80 →
    r.first = 0x41 ∧ r.last = 0x5A ∧ r.target = 0x61 := by
  decide +kernel

/-- No run leads into the surrogates or out of them. -/
theorem runs_valid : ∀ r ∈ runs,
    (r.last < 0xD800 ∧ r.target + (r.last - r.first) < 0xD800)
      ∨ (0xE000 ≤ r.first ∧ r.last < 0x110000
        ∧ 0xE000 ≤ r.target ∧ r.target + (r.last - r.first) < 0x110000) := by
  decide +kernel

/-- Foldings to several characters are those of letters beyond ASCII. -/
theorem expansions_beyond : ∀ e ∈ expansions,
    2 ≤ e.1.length ∧ ∀ n ∈ e.2, 0x80 ≤ (Char.ofNat n).toNat := by
  decide +kernel

theorem toNat_ofNat {n : Nat} (h : n < 0xD800 ∨ 0xE000 ≤ n ∧ n < 0x110000) :
    (Char.ofNat n).toNat = n := by
  have hvalid : n.isValidChar := by
    unfold Nat.isValidChar
    omega
  rw [Char.ofNat, dif_pos hvalid]
  rfl

/-- A character that folds to one of ASCII is that one in some case, the
    long s or the Kelvin sign. -/
theorem lower_eq_of_fold {c d : Char} (h : fold c = [d]) (hd : d.toNat < 0x80) :
    lower d.toNat = lower c.toNat ∨ (c.toNat = 0x17F ∧ d.toNat = 's'.toNat)
      ∨ (c.toNat = 0x212A ∧ d.toNat = 'k'.toNat) := by
  simp only [fold] at h
  by_cases hsimple : foldIn runs c.toNat = c.toNat
  · -- no run takes the character anywhere, and what expands is too long
    rw [hsimple, bne_self_eq_false, if_neg Bool.false_ne_true] at h
    split at h
    · rw [(List.cons.inj h).1]
      exact .inl rfl
    · split at h
      case h_1 e he =>
        have hlong := (expansions_beyond e (List.mem_of_find?_eq_some he)).1
        rw [← List.length_map, h, List.length_singleton] at hlong
        exact absurd hlong (by decide)
      case h_2 =>
        rw [(List.cons.inj h).1]
        exact .inl rfl
  · obtain hself | ⟨r, hr, hcovers, hrun⟩ := foldIn_cases runs c.toNat
    · exact absurd hself hsimple
    obtain ⟨hfirst, hlast⟩ := between_of_covers hcovers
    rw [if_pos (bne_iff_ne.mpr hsimple), hrun] at h
    have hvalid := runs_valid r hr
    have hto : d.toNat = r.target + (c.toNat - r.first) := by
      rw [← (List.cons.inj h).1]
      exact toNat_ofNat (by omega)
    have hs : 's'.toNat = 0x73 := rfl
    have hk : 'k'.toNat = 0x6B := rfl
    have hascii := runs_toAscii r hr (by omega)
    unfold lower
    split <;> split <;> omega

/-- What has a folding that one character of ASCII has is the same letter
    in some case, or has that folding. -/
theorem lower_eq_of_mem_variants {key : List Char} {v : Char} (h : v ∈ variants key)
    (hv : v.toNat < 0x80) : ∃ d, key = [d] ∧ lower d.toNat = lower v.toNat := by
  unfold variants at h
  split at h
  case h_1 d =>
    refine ⟨d, rfl, ?_⟩
    obtain hself | hrun := List.mem_append.mp h
    · split at hself
      · rw [List.mem_singleton.mp hself]
      · exact nomatch hself
    obtain ⟨n, hn, rfl⟩ := List.mem_map.mp hrun
    obtain ⟨r, hr, hn⟩ := List.mem_flatMap.mp hn
    unfold Run.sources at hn
    split at hn
    case isTrue hsource =>
      obtain rfl := List.mem_singleton.mp hn
      rw [Bool.and_eq_true, decide_eq_true_iff] at hsource
      obtain ⟨hle, hcovers⟩ := hsource
      obtain ⟨hfirst, hlast⟩ := between_of_covers hcovers
      have hvalid := runs_valid r hr
      rw [toNat_ofNat (by omega)] at hv ⊢
      have hascii := runs_ofAscii r hr (by omega)
      unfold lower
      split <;> split <;> omega
    case isFalse => exact nomatch hn
  case h_2 =>
    obtain ⟨e, he, hmem⟩ := List.mem_flatMap.mp h
    split at hmem
    · obtain ⟨n, hn, rfl⟩ := List.mem_map.mp hmem
      exact absurd ((expansions_beyond e he).2 n hn) (Nat.not_le_of_lt hv)
    · exact nomatch hmem

end Highlighter.Text.CaseFold

namespace Highlighter.Regex

open Text.CaseFold (lower lower_lt_iff)

/-- A set of characters of ASCII that has letters in both cases or not at
    all. -/
structure CharSet.Ascii (mem : Char → Bool) : Prop where
  ascii : ∀ x, mem x = true → x.toNat < 0x80
  lower : ∀ x y, lower x.toNat = lower y.toNat → mem x = mem y

/-- What matching in either case adds to a set of ASCII. -/
theorem CharSet.mem_anyCase {s : CharSet} (h : Ascii s.mem) (c : Char) :
    (anyCase s).mem c
      = (s.mem c || (c == '\u017f' && s.mem 's' || c == '\u212a' && s.mem 'k')) := by
  rw [Bool.eq_iff_iff, mem, Bool.or_eq_true, Bool.or_eq_true, List.any_eq_true]
  constructor
  · rintro (hc | ⟨v, hv, hmem⟩)
    · exact .inl hc
    have hascii := h.ascii v hmem
    obtain ⟨d, hfold, hlower⟩ := Text.CaseFold.lower_eq_of_mem_variants hv hascii
    have hd : d.toNat < 0x80 := lower_lt_iff.mp (hlower ▸ lower_lt_iff.mpr hascii)
    obtain hc | ⟨hc, hs⟩ | ⟨hc, hk⟩ := Text.CaseFold.lower_eq_of_fold hfold hd
    · exact .inl ((h.lower c v (hc.symm.trans hlower)).trans hmem)
    · obtain rfl : c = '\u017f' := Char.toNat_inj.mp hc
      have hmem' : s.mem 's' = true := (h.lower 's' v (hs ▸ hlower)).trans hmem
      exact .inr (by rw [hmem']; rfl)
    · obtain rfl : c = '\u212a' := Char.toNat_inj.mp hc
      have hmem' : s.mem 'k' = true := (h.lower 'k' v (hk ▸ hlower)).trans hmem
      exact .inr (by rw [hmem']; rfl)
  · rintro (hc | hc)
    · exact .inl hc
    rw [Bool.or_eq_true, Bool.and_eq_true, Bool.and_eq_true, beq_iff_eq, beq_iff_eq] at hc
    obtain ⟨rfl, hs⟩ | ⟨rfl, hk⟩ := hc
    · exact .inr ⟨'s', by decide +kernel, hs⟩
    · exact .inr ⟨'k', by decide +kernel, hk⟩

/-- No member of a set of ASCII has a longer folding. -/
theorem CharSet.expansions_eq_nil {s : CharSet} (h : Ascii s.mem) : s.expansions = [] := by
  rw [expansions, List.map_eq_nil_iff, List.filter_eq_nil_iff]
  intro e he hany
  obtain ⟨n, hn, hmem⟩ := List.any_eq_true.mp hany
  exact absurd ((Text.CaseFold.expansions_beyond e he).2 n hn) (Nat.not_le_of_lt (h.ascii _ hmem))

namespace Shorthand

theorem word_mem_iff (x : Char) : word.mem x = true ↔
    ((0x41 ≤ x.toNat ∧ x.toNat ≤ 0x5A ∨ 0x61 ≤ x.toNat ∧ x.toNat ≤ 0x7A)
      ∨ 0x30 ≤ x.toNat ∧ x.toNat ≤ 0x39) ∨ x.toNat = 0x5F := by
  unfold mem Char.isAlphanum Char.isAlpha Char.isUpper Char.isLower Char.isDigit
  simp only [Bool.or_eq_true, Bool.and_eq_true, decide_eq_true_iff, beq_iff_eq, ge_iff_le,
    UInt32.le_iff_toNat_le, ← Char.toNat_inj]
  rfl

theorem digit_mem_iff (x : Char) :
    digit.mem x = true ↔ 0x30 ≤ x.toNat ∧ x.toNat ≤ 0x39 := by
  unfold mem Char.isDigit
  simp only [Bool.and_eq_true, decide_eq_true_iff, ge_iff_le, UInt32.le_iff_toNat_le]
  rfl

theorem ascii_word : CharSet.Ascii word.mem where
  ascii x hx := by
    rw [word_mem_iff] at hx
    omega
  lower x y h := by
    rw [Bool.eq_iff_iff, word_mem_iff, word_mem_iff]
    unfold lower at h
    split at h <;> split at h <;> omega

theorem ascii_digit : CharSet.Ascii digit.mem where
  ascii x hx := by
    rw [digit_mem_iff] at hx
    omega
  lower x y h := by
    rw [Bool.eq_iff_iff, digit_mem_iff, digit_mem_iff]
    unfold lower at h
    split at h <;> split at h <;> omega

end Shorthand

end Highlighter.Regex
