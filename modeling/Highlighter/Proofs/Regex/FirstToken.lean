import Highlighter.Proofs.Regex.Finding

/-! # The first token

    Finding passes over matches without a token, one character after the
    other.  What it comes to says nothing of how it gets there: the token
    in the match at the first position that has a match with one, and for
    a sticky regex the one in the match at the start
    (`find_eq_firstToken`).

    It takes a search that gives the match at the first position where
    there is one, which every search does but that for the longest match,
    unless a match is given up on the way (`leftmost_of_not_longest`). -/

namespace Highlighter.Regex

open Text (byteLength)

-- ── The first position ───────────────────────────────────────────────────

section First

variable {α : Type} {f : Nat → Option α} {text : Haystack} {pos : Nat}

/-- What there is at the first position that has something, out of those
    from `pos` to the end of the text. -/
def firstFrom (f : Nat → Option α) (text : Haystack) (pos : Nat) : Option α :=
  (List.range' pos (text.size + 1 - pos)).findSome? f

theorem firstFrom_of_some {a : α} (hpos : pos ≤ text.size) (h : f pos = some a) :
    firstFrom f text pos = some a := by
  obtain ⟨n, hn⟩ : ∃ n, text.size + 1 - pos = n + 1 := ⟨text.size - pos, by omega⟩
  rw [firstFrom, hn, List.range'_succ, List.findSome?_cons, h]

/-- A position that has nothing is passed over. -/
theorem firstFrom_of_none (h : f pos = none) :
    firstFrom f text pos = firstFrom f text (pos + 1) := by
  rcases hn : text.size + 1 - pos with _ | n
  · have hnext : text.size + 1 - (pos + 1) = 0 := by omega
    rw [firstFrom, firstFrom, hn, hnext, List.range'_zero, List.range'_zero]
  · have hnext : text.size + 1 - (pos + 1) = n := by omega
    rw [firstFrom, firstFrom, hn, hnext, List.range'_succ, List.findSome?_cons, h]

/-- So are all positions in front of one. -/
theorem firstFrom_skip {q : Nat} (hle : pos ≤ q) (h : ∀ i, pos ≤ i → i < q → f i = none) :
    firstFrom f text pos = firstFrom f text q := by
  induction hle with
  | refl => rfl
  | @step q hle ih =>
      rw [ih fun i hi hlt => h i hi (Nat.lt_succ_of_lt hlt),
        firstFrom_of_none (h q hle (Nat.lt_succ_self q))]

theorem firstFrom_eq_none_iff :
    firstFrom f text pos = none ↔ ∀ i, pos ≤ i → i ≤ text.size → f i = none := by
  rw [firstFrom, List.findSome?_eq_none_iff]
  constructor
  · intro h i hi hsize
    exact h i (List.mem_range'_1.mpr ⟨hi, by omega⟩)
  · intro h i hi
    obtain ⟨hle, hlt⟩ := List.mem_range'_1.mp hi
    exact h i hle (by omega)

/-- What is found is at a position in front of which there is nothing. -/
theorem exists_of_firstFrom_eq_some {a : α} (h : firstFrom f text pos = some a) :
    ∃ q, pos ≤ q ∧ q ≤ text.size ∧ f q = some a ∧ ∀ i, pos ≤ i → i < q → f i = none := by
  generalize hn : text.size + 1 - pos = n
  induction n generalizing pos with
  | zero =>
      rw [firstFrom, hn] at h
      exact nomatch h
  | succ n ih =>
      cases hf : f pos with
      | some b =>
          rw [firstFrom_of_some (by omega) hf] at h
          obtain rfl := Option.some.inj h
          exact ⟨pos, Nat.le_refl pos, by omega, hf, fun i hi hlt => absurd hlt (by omega)⟩
      | none =>
          rw [firstFrom_of_none hf] at h
          obtain ⟨q, hle, hsize, hq, hfront⟩ := ih h (by omega)
          refine ⟨q, by omega, hsize, hq, fun i hi hlt => ?_⟩
          rcases Nat.eq_or_lt_of_le hi with rfl | hi
          · exact hf
          · exact hfront i hi hlt

end First

-- ── Searching ────────────────────────────────────────────────────────────

variable {p : Program} {text : Haystack}

/-- The match at a position, if there is one and it is not given up. -/
def Program.matchAt? (p : Program) (text : Haystack) (pos : Nat) : Option Match :=
  (p.matchAt text pos).toOption.join

theorem matchAt?_of_matchAt {pos : Nat} {found : Option Match}
    (h : p.matchAt text pos = .ok found) : p.matchAt? text pos = found := by
  rw [Program.matchAt?, h]
  exact Option.join_some

/-- A search from a position gives the match at the first position from
    there on where there is one. -/
def Program.Leftmost (p : Program) (text : Haystack) : Prop :=
  ∀ pos, p.search text pos = .ok (firstFrom (p.matchAt? text) text pos)

theorem searchIn_eq_findSome? {count : Nat} :
    ∀ {pos : Nat}, (∀ i, i < pos + count → p.matchAt text i ≠ .error ⟨⟩) →
      p.searchIn text count pos = .ok ((List.range' pos count).findSome? (p.matchAt? text)) := by
  induction count with
  | zero => exact fun _ => rfl
  | succ count ih =>
      intro pos hok
      rw [Program.searchIn, List.range'_succ, List.findSome?_cons]
      rcases hm : p.matchAt text pos with e | _ | m
      · exact absurd hm (hok pos (by omega))
      · rw [matchAt?_of_matchAt hm]
        exact ih fun i hi => hok i (by omega)
      · rw [matchAt?_of_matchAt hm]

/-- Only the search for the longest match goes further. -/
theorem leftmost_of_not_longest (hp : p.longest = false) (hok : ¬ p.GivesUpIn text) :
    p.Leftmost text := by
  intro pos
  rw [Program.search, hp, firstFrom]
  by_cases hpos : pos ≤ text.size
  · exact searchIn_eq_findSome? fun i hi herror => hok ⟨i, by omega, herror⟩
  · have hempty : text.size + 1 - pos = 0 := by omega
    rw [hempty]
    rfl

-- ── Tokens ───────────────────────────────────────────────────────────────

/-- The token in the match at a position, if there is a match and it has
    one. -/
def Program.tokenAt? (p : Program) (text : Haystack) (lookbehind : Bool) (pos : Nat) :
    Option Span :=
  (p.matchAt? text pos).bind fun m =>
    let t := m.token text lookbehind
    if t.start < t.stop then some t else none

theorem tokenAt?_of_matchAt?_eq_none {lookbehind : Bool} {pos : Nat}
    (h : p.matchAt? text pos = none) : p.tokenAt? text lookbehind pos = none := by
  rw [Program.tokenAt?, h]
  rfl

theorem tokenAt?_of_matchAt? (lookbehind : Bool) {pos : Nat} {m : Match}
    (h : p.matchAt? text pos = some m) :
    p.tokenAt? text lookbehind pos =
      if (m.token text lookbehind).start < (m.token text lookbehind).stop
      then some (m.token text lookbehind) else none := by
  rw [Program.tokenAt?, h]
  rfl

theorem start_of_matchAt? {pos : Nat} {m : Match} (h : p.matchAt? text pos = some m) :
    m.start = pos := by
  rw [Program.matchAt?, Option.join_eq_some_iff] at h
  rcases hm : p.matchAt text pos with e | found
  · rw [hm] at h
    exact nomatch h
  · rw [hm] at h
    obtain rfl : found = some m := Option.some.inj h
    exact Program.start_of_matchAt hm

/-- Where a leftmost search gives a match, there is no token in front. -/
theorem Program.Leftmost.of_search (h : p.Leftmost text) {pos : Nat} {m : Match}
    (hm : p.search text pos = .ok (some m)) :
    pos ≤ m.start ∧ m.start ≤ text.size ∧ p.matchAt? text m.start = some m ∧
      ∀ i, pos ≤ i → i < m.start → p.matchAt? text i = none := by
  rw [h pos] at hm
  obtain ⟨q, hle, hsize, hq, hfront⟩ := exists_of_firstFrom_eq_some (Except.ok.inj hm)
  obtain rfl := start_of_matchAt? hq
  exact ⟨hle, hsize, hq, hfront⟩

theorem Program.Leftmost.matchAt?_eq_none (h : p.Leftmost text) {pos : Nat}
    (hnone : p.search text pos = .ok none) {i : Nat} (hi : pos ≤ i) (hsize : i ≤ text.size) :
    p.matchAt? text i = none := by
  rw [h pos] at hnone
  exact firstFrom_eq_none_iff.mp (Except.ok.inj hnone) i hi hsize

/-- A leftmost search always has an answer. -/
theorem Program.Leftmost.search_eq_or (h : p.Leftmost text) (pos : Nat) :
    p.search text pos = .ok none ∨ ∃ m, p.search text pos = .ok (some m) := by
  rw [h pos]
  rcases firstFrom (p.matchAt? text) text pos with _ | m
  · exact .inl rfl
  · exact .inr ⟨m, rfl⟩

/-- With an attempt for every position there is, the first token is found.
    An attempt may pass over many positions, so that some are left. -/
theorem findIn_eq_firstFrom (h : p.Leftmost text) (lookbehind : Bool) (start : Nat) {count : Nat} :
    ∀ {pos : Nat}, text.size < pos + count →
      findIn p.search false lookbehind text start count pos =
        .ok (firstFrom (p.tokenAt? text lookbehind) text pos) := by
  induction count with
  | zero =>
      intro pos hcount
      have hempty : text.size + 1 - pos = 0 := by omega
      rw [findIn, if_pos (by omega), firstFrom, hempty]
      rfl
  | succ count ih =>
      intro pos hcount
      rw [findIn]
      rcases h.search_eq_or pos with hm | ⟨m, hm⟩
      · rw [hm]
        refine congrArg Except.ok (firstFrom_eq_none_iff.mpr fun i hi hsize => ?_).symm
        exact tokenAt?_of_matchAt?_eq_none (h.matchAt?_eq_none hm hi hsize)
      · obtain ⟨hle, hsize, hat, hfront⟩ := h.of_search hm
        rw [hm, firstFrom_skip hle fun i hi hlt => tokenAt?_of_matchAt?_eq_none (hfront i hi hlt)]
        have htoken := tokenAt?_of_matchAt? lookbehind hat
        simp only [Bool.false_and, Bool.false_eq_true, if_false]
        by_cases hlt : (m.token text lookbehind).start < (m.token text lookbehind).stop
        · rw [if_pos hlt] at htoken ⊢
          rw [firstFrom_of_some hsize htoken]
        · rw [if_neg hlt] at htoken ⊢
          rw [firstFrom_of_none htoken]
          exact ih (by omega)

/-- A sticky regex is not searched any further than the start. -/
theorem findIn_sticky (h : p.Leftmost text) (lookbehind : Bool) {pos : Nat}
    (hpos : pos ≤ text.size) {count : Nat} (hcount : text.size < pos + 1 + count) :
    findIn p.search true lookbehind text pos (count + 1) pos =
      .ok (p.tokenAt? text lookbehind pos) := by
  -- a search from behind the start never comes back to it
  have hbehind : findIn p.search true lookbehind text pos count (pos + 1) = .ok none := by
    cases count with
    | zero => rw [findIn, if_pos (by omega)]
    | succ count =>
        rw [findIn]
        rcases h.search_eq_or (pos + 1) with hm | ⟨m, hm⟩
        · rw [hm]
        · have hne : m.start ≠ pos := by
            have hle := (h.of_search hm).1
            omega
          rw [hm]
          simp only [Bool.true_and, bne_iff_ne, ne_eq, hne, not_false_eq_true, if_true]
  rw [findIn]
  rcases h.search_eq_or pos with hm | ⟨m, hm⟩
  · rw [hm]
    refine congrArg Except.ok (Eq.symm ?_)
    exact tokenAt?_of_matchAt?_eq_none (h.matchAt?_eq_none hm (Nat.le_refl pos) hpos)
  · obtain ⟨hle, -, hat, hfront⟩ := h.of_search hm
    rw [hm]
    by_cases hstart : m.start = pos
    · rw [hstart] at hat
      simp only [Bool.true_and, bne_iff_ne, ne_eq, hstart, not_true_eq_false, if_false]
      rw [tokenAt?_of_matchAt? lookbehind hat, hbehind]
      split <;> rfl
    · simp only [Bool.true_and, bne_iff_ne, ne_eq, hstart, not_false_eq_true, if_true]
      refine congrArg Except.ok (Eq.symm ?_)
      exact tokenAt?_of_matchAt?_eq_none (hfront pos (Nat.le_refl pos) (by omega))

/-- The offset of a position is where the position is found. -/
theorem position?_offset {pos : Nat} (h : pos ≤ text.size) :
    position? text (offset text pos) = some pos := by
  have hfront := Text.takeBytes?_append (text.toList.take pos) (text.toList.drop pos)
  rw [List.take_append_drop] at hfront
  rw [position?, offset, hfront, Option.map_some, List.length_take, Array.length_toList,
    Nat.min_eq_left h]

/-- Finding gives the token of the match at the first position, from the
    start on, whose match has one, and nothing if there is no such position.
    A sticky regex gives the token of the match at the start.  What is
    found is not empty, and lies between the start and the end of the
    text. -/
theorem find_eq_firstToken {r : Regex} (hp : r.program = .ok p) (hsearch : p.Leftmost text)
    {pos : Nat} (hpos : pos ≤ text.size) (lookbehind : Bool) :
    ∃ found, r.find text (offset text pos) lookbehind = .ok found ∧
      found = (if r.flags.sticky then p.tokenAt? text lookbehind pos
        else firstFrom (p.tokenAt? text lookbehind) text pos) ∧
      ∀ t, found = some t →
        offset text pos ≤ t.start ∧ t.start < t.stop ∧ t.stop ≤ byteLength text.toList := by
  have hfound : r.find text (offset text pos) lookbehind =
      .ok (if r.flags.sticky then p.tokenAt? text lookbehind pos
        else firstFrom (p.tokenAt? text lookbehind) text pos) := by
    rw [find_of_program hp (position?_offset hpos)]
    cases r.flags.sticky with
    | false => exact findIn_eq_firstFrom hsearch lookbehind pos (by omega)
    | true =>
        obtain ⟨count, hcount⟩ : ∃ count, text.size + 1 - pos = count + 1 :=
          ⟨text.size - pos, by omega⟩
        rw [hcount]
        exact findIn_sticky hsearch lookbehind hpos (by omega)
  refine ⟨_, hfound, rfl, fun t ht => ?_⟩
  rw [ht] at hfound
  exact bounds_of_find hfound

/-- Behind a character of two bytes: the match at the start and the one at
    the next letter are nothing but their prefix, the third match has a
    token. -/
theorem find_eq_firstToken_of_prefixes :
    let r : Regex := .ofStrings "(a)b?" ""
    let p : Program := ⟨.seq (.capture 1 false false (.one (.single 'a')))
      (.loop (.one (.single 'b')) 0 (some 1) true .none), 1, false⟩
    let text : Haystack := "éaaab".toList.toArray
    r.program = .ok p ∧ p.Leftmost text ∧ 1 ≤ text.size ∧
      firstFrom (p.tokenAt? text true) text 1 = some ⟨5, 6⟩ ∧
      r.find text (offset text 1) true = .ok (some ⟨5, 6⟩) := by
  intro r p text
  have hp : r.program = .ok p := rfl
  have hok : ∀ pos ≤ text.size, (p.matchAt text pos).isOk = true := by decide +kernel
  have hsearch : p.Leftmost text := by
    refine leftmost_of_not_longest rfl fun ⟨pos, hpos, herror⟩ => ?_
    have hpos := hok pos hpos
    rw [herror] at hpos
    exact nomatch hpos
  have hsize : 1 ≤ text.size := by decide
  have hfirst : firstFrom (p.tokenAt? text true) text 1 = some ⟨5, 6⟩ := by decide +kernel
  obtain ⟨found, hfind, hfound, -⟩ := find_eq_firstToken hp hsearch hsize true
  refine ⟨hp, hsearch, hsize, hfirst, ?_⟩
  rw [hfind, hfound]
  exact congrArg Except.ok hfirst

end Highlighter.Regex
