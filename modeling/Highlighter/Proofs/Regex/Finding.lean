import Highlighter.Proofs.Regex.Motion
import Highlighter.Regex.Basic

/-! # Where tokens are found

    Finding a token is searching until a match has one, with a search of
    which little is relied on (`Search.Lawful`): a match starts at the
    position of the search or behind it, and lies in the text.  The search
    for a pattern is one like this (`Program.lawful_search`).  So finding
    always comes to an end, with a token, without one, or with a match that
    was given up (`findIn_error`, `failure_of_find`).  What is found is
    the token of some match that the pattern has in the text
    (`exists_match_of_find`), it is not empty and lies between the start of
    the search and the end of the text (`bounds_of_find`).

    A token ends where a match does, so between two characters.  Where it
    begins is counted: as many bytes behind the start of the match as the
    first group has matched.  That is between two characters when the group
    is a prefix of the match (`Match.Prefixed`). -/

namespace Highlighter.Regex

open Text (byteLength)

-- ── Offsets ──────────────────────────────────────────────────────────────

theorem byteLength_take_le (cs : List Char) (n : Nat) :
    byteLength (cs.take n) ≤ byteLength cs := by
  have hsplit := congrArg byteLength (List.take_append_drop n cs)
  rw [Text.byteLength_append] at hsplit
  omega

/-- The end of the text. -/
theorem offset_size (text : Haystack) : offset text text.size = byteLength text.toList := by
  rw [offset, ← Array.length_toList, List.take_length]

theorem offset_mono (text : Haystack) {a b : Nat} (h : a ≤ b) : offset text a ≤ offset text b := by
  have htake := byteLength_take_le (text.toList.take b) a
  rw [List.take_take, Nat.min_eq_left h] at htake
  exact htake

/-- The character at an offset has that offset. -/
theorem offset_of_position? {text : Haystack} {start pos : Nat}
    (h : position? text start = some pos) : offset text pos = start := by
  rw [position?, Option.map_eq_some_iff] at h
  obtain ⟨front, hfront, rfl⟩ := h
  obtain ⟨back, htext, hlength⟩ := Text.append_of_takeBytes? hfront
  rw [offset, htext, List.take_left, hlength]

-- ── Searching ────────────────────────────────────────────────────────────

/-- What is relied on of a search. -/
structure Search.Lawful (search : Search) : Prop where
  /-- It never goes back. -/
  le_start : ∀ {text pos m}, search text pos = .ok (some m) → pos ≤ m.start
  /-- Matches end in the text. -/
  stop_le : ∀ {text pos m}, search text pos = .ok (some m) → m.stop ≤ text.size

namespace Program

variable {p : Program} {text : Haystack}

theorem start_of_matchAt {pos : Nat} {m : Match} (h : p.matchAt text pos = .ok (some m)) :
    m.start = pos := by
  obtain ⟨least, s, lasting, -, rfl⟩ := exists_run_of_matchAt h
  rfl

/-- The first match from a position on is the one at the place where it
    starts, which is that position or behind it. -/
theorem matchAt_of_searchIn {count : Nat} :
    ∀ {pos : Nat} {m : Match}, p.searchIn text count pos = .ok (some m) →
      pos ≤ m.start ∧ m.start < pos + count ∧ p.matchAt text m.start = .ok (some m) := by
  induction count with
  | zero => intro pos m h; exact nomatch h
  | succ count ih =>
      intro pos m h
      rw [searchIn] at h
      split at h
      · next m' hm' =>
          obtain rfl : m' = m := Option.some.inj (Except.ok.inj h)
          rw [start_of_matchAt hm']
          exact ⟨Nat.le_refl pos, by omega, hm'⟩
      · obtain ⟨hle, hlt, hm⟩ := ih h
        exact ⟨Nat.le_of_succ_le hle, by omega, hm⟩
      · exact nomatch h

theorem longer_eq_or (text : Haystack) (a b : Match) :
    longer text a b = a ∨ longer text a b = b := by
  unfold longer
  dsimp only
  split
  · exact .inr rfl
  · exact .inl rfl

/-- The same of the longest match. -/
theorem matchAt_of_searchLongestIn {count : Nat} :
    ∀ {pos : Nat} {m : Match}, p.searchLongestIn text count pos = .ok (some m) →
      pos ≤ m.start ∧ m.start < pos + count ∧ p.matchAt text m.start = .ok (some m) := by
  induction count with
  | zero => intro pos m h; exact nomatch h
  | succ count ih =>
      intro pos m h
      rw [searchLongestIn] at h
      rcases hhere : p.matchAt text pos with e | here
      · rw [hhere] at h
        exact nomatch h
      rcases hlater : p.searchLongestIn text count (pos + 1) with e | later
      · rw [hhere, hlater] at h
        exact nomatch h
      -- the match is one of the two that there are
      have hor : here = some m ∨ later = some m := by
        rw [hhere, hlater] at h
        simp only [bind, Except.bind] at h
        rcases here with _ | a
        · exact .inr (Except.ok.inj h)
        rcases later with _ | b
        · exact .inl (Except.ok.inj h)
        obtain rfl := Option.some.inj (Except.ok.inj h)
        exact (longer_eq_or text a b).imp (fun heq => congrArg some heq.symm)
          fun heq => congrArg some heq.symm
      rcases hor with rfl | rfl
      · rw [start_of_matchAt hhere]
        exact ⟨Nat.le_refl pos, by omega, hhere⟩
      · obtain ⟨hle, hlt, hm⟩ := ih hlater
        exact ⟨Nat.le_of_succ_le hle, by omega, hm⟩

/-- What a search gives is the match at some position of the text, which
    is that of the search or behind it. -/
theorem matchAt_of_search {pos : Nat} {m : Match} (h : p.search text pos = .ok (some m)) :
    pos ≤ m.start ∧ m.start ≤ text.size ∧ p.matchAt text m.start = .ok (some m) := by
  have hor : p.searchLongestIn text (text.size + 1 - pos) pos = .ok (some m) ∨
      p.searchIn text (text.size + 1 - pos) pos = .ok (some m) := by
    rw [search] at h
    split at h
    · exact .inl h
    · exact .inr h
  obtain ⟨hle, hlt, hm⟩ := hor.elim matchAt_of_searchLongestIn matchAt_of_searchIn
  exact ⟨hle, by omega, hm⟩

theorem lawful_search (p : Program) : p.search.Lawful where
  le_start h := (matchAt_of_search h).1
  stop_le h := by
    obtain ⟨-, hsize, hm⟩ := matchAt_of_search h
    exact stop_le_of_matchAt hm hsize

/-- Somewhere in a text a match is given up. -/
def GivesUpIn (p : Program) (text : Haystack) : Prop :=
  ∃ pos, pos ≤ text.size ∧ p.matchAt text pos = .error ⟨⟩

theorem exists_error_of_searchIn {count : Nat} {e : GaveUp} :
    ∀ {pos : Nat}, p.searchIn text count pos = .error e →
      ∃ pos', pos' < pos + count ∧ p.matchAt text pos' = .error ⟨⟩ := by
  induction count with
  | zero => intro pos h; exact nomatch h
  | succ count ih =>
      intro pos h
      rw [searchIn] at h
      split at h
      · exact nomatch h
      · obtain ⟨pos', hlt, herror⟩ := ih h
        exact ⟨pos', by omega, herror⟩
      · next herror => exact ⟨pos, by omega, herror⟩

theorem exists_error_of_searchLongestIn {count : Nat} {e : GaveUp} :
    ∀ {pos : Nat}, p.searchLongestIn text count pos = .error e →
      ∃ pos', pos' < pos + count ∧ p.matchAt text pos' = .error ⟨⟩ := by
  induction count with
  | zero => intro pos h; exact nomatch h
  | succ count ih =>
      intro pos h
      rw [searchLongestIn] at h
      rcases hhere : p.matchAt text pos with e' | here
      · exact ⟨pos, by omega, hhere⟩
      rcases hlater : p.searchLongestIn text count (pos + 1) with e' | later
      · obtain ⟨pos', hlt, herror⟩ := ih hlater
        exact ⟨pos', by omega, herror⟩
      · rw [hhere, hlater] at h
        simp only [bind, Except.bind] at h
        rcases here with _ | a
        · exact nomatch h
        rcases later with _ | b
        · exact nomatch h
        · exact nomatch h

/-- A search has no answer only if some match is given up. -/
theorem givesUpIn_of_search {pos : Nat} {e : GaveUp} (h : p.search text pos = .error e) :
    p.GivesUpIn text := by
  have hexists : ∃ pos', pos' < pos + (text.size + 1 - pos) ∧ p.matchAt text pos' = .error ⟨⟩ := by
    rw [search] at h
    split at h
    · exact exists_error_of_searchLongestIn h
    · exact exists_error_of_searchIn h
  obtain ⟨pos', hlt, herror⟩ := hexists
  have hpos : pos ≤ text.size := by
    refine Nat.le_of_not_lt fun hlt => ?_
    have hcount : text.size + 1 - pos = 0 := by omega
    rw [search, hcount] at h
    split at h <;> exact nomatch h
  exact ⟨pos', by omega, herror⟩

end Program

-- ── Finding ──────────────────────────────────────────────────────────────

section FindIn

variable {search : Search} {sticky lookbehind : Bool} {text : Haystack} {start count : Nat}

/-- What is found is the token of a match, and it is not empty. -/
theorem exists_match_of_findIn (hsearch : search.Lawful) {span : Span} :
    ∀ {pos : Nat}, findIn search sticky lookbehind text start count pos = .ok (some span) →
      ∃ from' m, pos ≤ from' ∧ search text from' = .ok (some m) ∧ m.token text lookbehind = span ∧
        span.start < span.stop := by
  induction count with
  | zero =>
      intro pos h
      rw [findIn] at h
      split at h <;> exact nomatch h
  | succ count ih =>
      intro pos h
      rw [findIn] at h
      split at h
      · exact nomatch h
      · exact nomatch h
      · next m hm =>
          split at h
          · exact nomatch h
          · by_cases htoken : (m.token text lookbehind).start < (m.token text lookbehind).stop
            · rw [if_pos htoken] at h
              obtain rfl := Option.some.inj (Except.ok.inj h)
              exact ⟨pos, m, Nat.le_refl _, hm, rfl, htoken⟩
            · rw [if_neg htoken] at h
              obtain ⟨from', m', hle, hrest⟩ := ih h
              have hstart := hsearch.le_start hm
              exact ⟨from', m', by omega, hrest⟩

/-- With an attempt for every position, the attempts suffice: there is a
    token, or none, or some search has no answer. -/
theorem findIn_error (hsearch : search.Lawful) {e : Failure} :
    ∀ {pos : Nat}, text.size < pos + count →
      findIn search sticky lookbehind text start count pos = .error e →
      e = .gaveUp ∧ ∃ from', search text from' = .error ⟨⟩ := by
  induction count with
  | zero =>
      intro pos hcount h
      rw [findIn, if_pos (by omega)] at h
      exact nomatch h
  | succ count ih =>
      intro pos hcount h
      rw [findIn] at h
      split at h
      · next hm => exact ⟨(Except.error.inj h).symm, pos, hm⟩
      · exact nomatch h
      · next m hm =>
          split at h
          · exact nomatch h
          · by_cases htoken : (m.token text lookbehind).start < (m.token text lookbehind).stop
            · rw [if_pos htoken] at h
              exact nomatch h
            · rw [if_neg htoken] at h
              have hstart := hsearch.le_start hm
              exact ih (by omega) h

end FindIn

section Find

variable {r : Regex} {text : Haystack} {start : Nat} {lookbehind : Bool}

/-- Finding is searching from the position at an offset on, if the pattern
    can be read. -/
theorem find_of_program {p : Program} (hp : r.program = .ok p) {pos : Nat}
    (hpos : position? text start = some pos) :
    r.find text start lookbehind =
      findIn p.search r.flags.sticky lookbehind text pos (text.size + 1 - pos) pos := by
  rw [find, hp, hpos]

/-- What a pattern finds from an offset on is the token of a match that it
    has there or behind. -/
theorem exists_match_of_find {span : Span} (h : r.find text start lookbehind = .ok (some span)) :
    ∃ p pos m, r.program = .ok p ∧ start ≤ offset text pos ∧ p.search text pos = .ok (some m) ∧
      m.token text lookbehind = span ∧ span.start < span.stop := by
  rw [find] at h
  split at h
  · exact nomatch h
  · exact nomatch h
  · next p pos hp hpos =>
      obtain ⟨from', m, hle, hm, htoken, hlt⟩ := exists_match_of_findIn p.lawful_search h
      have hoffset := offset_mono text hle
      rw [offset_of_position? hpos] at hoffset
      exact ⟨p, from', m, hp, hoffset, hm, htoken, hlt⟩

/-- Somewhere in a text a match of the pattern is given up. -/
def GivesUpIn (r : Regex) (text : Haystack) : Prop :=
  ∃ p, r.program = .ok p ∧ p.GivesUpIn text

/-- Finding has no answer only when the pattern cannot be read, or when a
    match is given up. -/
theorem failure_of_find {e : Failure} (h : r.find text start lookbehind = .error e) :
    (∃ error, e = .unreadable error ∧ r.program = .error error) ∨
      e = .gaveUp ∧ r.GivesUpIn text := by
  rw [find] at h
  split at h
  · next error hp => exact .inl ⟨error, (Except.error.inj h).symm, hp⟩
  · exact nomatch h
  · next p pos hp _ =>
      obtain ⟨he, from', herror⟩ := findIn_error p.lawful_search (by omega) h
      exact .inr ⟨he, p, hp, Program.givesUpIn_of_search herror⟩

end Find

theorem Match.stop_token (text : Haystack) (lookbehind : Bool) (m : Match) :
    (m.token text lookbehind).stop = offset text m.stop := rfl

/-- A token that is not empty starts in the match. -/
theorem Match.start_le_token {text : Haystack} {lookbehind : Bool} {m : Match}
    (h : (m.token text lookbehind).start < (m.token text lookbehind).stop) :
    offset text m.start ≤ (m.token text lookbehind).start := by
  unfold Match.token at h ⊢
  dsimp only at h ⊢
  omega

/-- What is found lies behind the start of the search and in the text. -/
theorem bounds_of_find {r : Regex} {text : Haystack} {start : Nat} {lookbehind : Bool}
    {span : Span} (h : r.find text start lookbehind = .ok (some span)) :
    start ≤ span.start ∧ span.start < span.stop ∧ span.stop ≤ byteLength text.toList := by
  obtain ⟨p, pos, m, -, hstart, hm, rfl, hlt⟩ := exists_match_of_find h
  have hmatch := offset_mono text (p.lawful_search.le_start hm)
  have htoken := Match.start_le_token hlt
  have hstop := offset_mono text (p.lawful_search.stop_le hm)
  rw [offset_size] at hstop
  exact ⟨by omega, hlt, hstop⟩

-- ── Prefixes ─────────────────────────────────────────────────────────────

/-- The first group is a prefix of the match, if it takes part: it starts
    where the match starts, and ends there or behind. -/
def Match.Prefixed (m : Match) : Prop :=
  ∀ start stop, m.first = some (start, stop) → start = m.start ∧ start ≤ stop

/-- Every match that a regex has in a text has the first group as a prefix. -/
def PrefixedIn (r : Regex) (text : Haystack) : Prop :=
  ∀ p, r.program = .ok p → ∀ pos m, p.search text pos = .ok (some m) → m.Prefixed

/-- A prefix is stripped up to where it ends. -/
theorem Match.Prefixed.start_token {text : Haystack} {lookbehind : Bool} {m : Match}
    (hm : lookbehind = true → m.Prefixed)
    (h : (m.token text lookbehind).start < (m.token text lookbehind).stop) :
    ∃ pos, (m.token text lookbehind).start = offset text pos := by
  cases lookbehind with
  | false =>
      refine ⟨m.start, ?_⟩
      unfold Match.token at h ⊢
      dsimp only at h ⊢
      omega
  | true =>
      cases hfirst : m.first with
      | none =>
          refine ⟨m.start, ?_⟩
          unfold Match.token at h ⊢
          simp only [hfirst] at h ⊢
          omega
      | some group =>
          obtain ⟨start, stop⟩ := group
          obtain ⟨rfl, hle⟩ := hm rfl start stop hfirst
          have hoffset := offset_mono text hle
          refine ⟨stop, ?_⟩
          unfold Match.token at h ⊢
          simp only [hfirst] at h ⊢
          omega

/-- With prefixes stripped only, what is found begins and ends between two
    characters. -/
theorem boundaries_of_find {r : Regex} {text : Haystack} {start : Nat} {lookbehind : Bool}
    {span : Span} (hr : lookbehind = true → PrefixedIn r text)
    (h : r.find text start lookbehind = .ok (some span)) :
    (∃ pos, span.start = offset text pos) ∧ ∃ pos, span.stop = offset text pos := by
  obtain ⟨p, pos, m, hp, -, hm, rfl, hlt⟩ := exists_match_of_find h
  refine ⟨?_, m.stop, m.stop_token text lookbehind⟩
  exact Match.Prefixed.start_token (fun hlook => hr hlook p hp pos m hm) hlt

-- ── Leading groups ───────────────────────────────────────────────────────

/-- A set that leads on has matched a character. -/
theorem Expr.matcher_one {text : Haystack} {set : CharSet} {s found : MatchState}
    {k : MatchState → Attempt Marks} {m lasting : Marks}
    (h : Expr.matcher text (.one set) s k m = (some found, lasting)) :
    s.pos < s.limit ∧ k s.next m = (some found, lasting) := by
  rw [Expr.matcher] at h
  by_cases hpos : s.pos < s.limit
  · rw [if_pos hpos] at h
    refine ⟨hpos, ?_⟩
    cases hc : text[s.pos]? with
    | none =>
        rw [hc] at h
        cases h
    | some c =>
        rw [hc] at h
        by_cases hmem : set.mem c = true
        · simp only [hmem, if_true] at h
          exact h
        · simp only [hmem] at h
          cases h
  · rw [if_neg hpos] at h
    cases h

/-- Of a match that begins with one character as the first group, that
    group is the first character. -/
theorem first_of_leading_group {p : Program} {text : Haystack} {pos : Nat} {m : Match}
    {a b : CharSet} (hp : p = ⟨.seq (.capture 1 false false (.one a)) (.one b), 1, false⟩)
    (h : p.matchAt text pos = .ok (some m)) :
    m.first = some (pos, pos + 1) ∧ pos < text.size := by
  subst hp
  obtain ⟨found, lasting, hrun, rfl⟩ := Program.unlimited_of_matchAt rfl h
  rw [Program.unlimited?] at hrun
  split at hrun
  · next s marks hmatch =>
      obtain ⟨rfl, rfl⟩ := Prod.mk.inj (Option.some.inj hrun)
      rw [Expr.matcher, Expr.matcher] at hmatch
      obtain ⟨hpos, hrest⟩ := Expr.matcher_one hmatch
      obtain ⟨-, hend⟩ := Expr.matcher_one hrest
      rw [if_pos (Nat.zero_le _)] at hend
      obtain ⟨hs, rfl⟩ := Prod.mk.inj hend
      obtain rfl := Option.some.inj hs
      exact ⟨rfl, hpos⟩
  · cases hrun

/-- A first group of one character in front is a prefix. -/
theorem prefixedIn_of_leading_group {r : Regex} {a b : CharSet}
    (hr : r.program = .ok ⟨.seq (.capture 1 false false (.one a)) (.one b), 1, false⟩)
    (text : Haystack) : PrefixedIn r text := by
  intro p hp pos m hm start stop hfirst
  have hprogram := Except.ok.inj (hp.symm.trans hr)
  obtain ⟨hgroup, -⟩ := first_of_leading_group hprogram (Program.matchAt_of_search hm).2.2
  rw [hgroup] at hfirst
  obtain ⟨rfl, rfl⟩ := Prod.mk.inj (Option.some.inj hfirst)
  exact ⟨rfl, Nat.le_succ _⟩

/-- What is found behind a prefix of one character does not start at the
    start of the text. -/
theorem start_pos_of_leading_group {r : Regex} {a b : CharSet} {text : Haystack} {start : Nat}
    {span : Span} (hr : r.program = .ok ⟨.seq (.capture 1 false false (.one a)) (.one b), 1, false⟩)
    (h : r.find text start true = .ok (some span)) : 0 < span.start := by
  obtain ⟨p, pos, m, hp, -, hm, rfl, hlt⟩ := exists_match_of_find h
  have hprogram := Except.ok.inj (hp.symm.trans hr)
  obtain ⟨hgroup, hsize⟩ := first_of_leading_group hprogram (Program.matchAt_of_search hm).2.2
  have hpos : 0 < offset text (m.start + 1) := by
    refine Nat.pos_of_ne_zero fun hzero => ?_
    have hnil := congrArg List.length (Text.byteLength_eq_zero.mp hzero)
    rw [List.length_take, Array.length_toList, List.length_nil] at hnil
    omega
  unfold Match.token at hlt ⊢
  simp only [hgroup] at hlt ⊢
  omega

end Highlighter.Regex
