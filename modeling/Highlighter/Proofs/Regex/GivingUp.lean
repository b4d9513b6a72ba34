import Highlighter.Proofs.Regex.Finding
import Mathlib.Algebra.BigOperators.Intervals
import Mathlib.Algebra.BigOperators.Ring.Finset

/-! # Matches that are given up

    An expression that needs a character which the text has not got leads
    nowhere (`Expr.dead_of_needsOther`), so a pattern of this kind finds
    nothing.  And where what comes after leads nowhere, a loop tries it
    behind each of its turns, and the dead ends of all of them add up
    (`wastes_loop`).

    Two loops over the same characters, one behind the other, can share `n`
    of them in `n * (n + 1) / 2` ways.  All of these are tried when what
    comes after leads nowhere (`wastes_loops`), and on a long stretch of such
    characters they are more than the dead ends that are allowed. -/

namespace Highlighter.Regex

-- ── Expressions that cannot match ────────────────────────────────────────

/-- The attempt leads nowhere. -/
abbrev Attempt.Dead (a : Attempt Marks) : Prop := a.Ends (fun _ => True) fun _ _ => False

/-- Whether a character that is none of these is consumed in every match,
    going by the sets outside of looks and atomic groups. -/
def Expr.needsOther (cs : List Char) : Expr → Bool
  | .one set => cs.all fun c => !set.mem c
  | .seq a b => a.needsOther cs || b.needsOther cs
  | .alt a b => a.needsOther cs && b.needsOther cs
  | .loop body min _ _ _ => min != 0 && body.needsOther cs
  | .capture _ _ _ body => body.needsOther cs
  | .empty | .atomic _ | .ahead _ _ | .behind _ _ _ | .anchor _ | .again _ => false

/-- What goes along with every move when nothing is known of states. -/
theorem motion_any (text : Haystack) : Motion text fun _ _ => True where
  refl _ := trivial
  trans _ _ := trivial
  next _ := trivial
  ahead _ := trivial
  behind _ _ := trivial
  earlier _ := trivial

theorem groupMotion_any (text : Haystack) : GroupMotion text (fun _ => True) fun _ _ => True where
  fresh _ := trivial
  again _ := trivial
  enter _ := trivial
  leave _ := trivial

section Dead

variable {text : Haystack} {cs : List Char}

/-- Where all that comes after leads nowhere, the whole does not. -/
theorem Expr.dead_matcher (e : Expr) {k : MatchState → Attempt Marks} (hk : ∀ s, (k s).Dead)
    (s : MatchState) : (e.matcher text s k).Dead :=
  Expr.leads (motion_any text) (.inr (groupMotion_any text)) fun s' _ => hk s'

/-- What needs another character than there are leads nowhere. -/
theorem Expr.dead_of_needsOther (htext : ∀ c ∈ text, c ∈ cs) {e : Expr} :
    e.needsOther cs = true → ∀ s k, (e.matcher text s k).Dead := by
  induction e with
  | one set =>
      intro h s k
      rw [Expr.matcher]
      split
      · split
        · next c hc =>
            have hnot := List.all_eq_true.mp h c (htext c (Array.mem_of_getElem? hc))
            rw [Bool.not_eq_true'] at hnot
            rw [hnot, if_neg Bool.false_ne_true]
            exact Attempt.ends_fail
        · exact Attempt.ends_fail
      · exact Attempt.ends_fail
  | seq a b iha ihb =>
      intro h s k
      rw [Expr.matcher]
      rcases Bool.or_eq_true_iff.mp h with ha | hb
      · exact iha ha s _
      · exact a.dead_matcher (fun s' => ihb hb s' k) s
  | alt a b iha ihb =>
      intro h s k
      obtain ⟨ha, hb⟩ := Bool.and_eq_true_iff.mp h
      rw [Expr.matcher]
      exact (iha ha s k).orElse (ihb hb s k)
  | loop body min max greedy guard ih =>
      intro h s k
      obtain ⟨hmin, hbody⟩ := Bool.and_eq_true_iff.mp h
      obtain ⟨min, rfl⟩ := Nat.exists_eq_succ_of_ne_zero (bne_iff_ne.mp hmin)
      rw [Expr.matcher]
      cases guard.turns text.size max with
      | zero => exact Attempt.ends_fail
      | succ fuel => exact ih hbody s _
  | capture index fresh traced body ih =>
      intro h s k
      cases fresh with
      | true =>
          rw [Expr.matcher]
          exact ih h _ _
      | false =>
          rw [Expr.matcher]
          exact fun m _ => ih h s _ _ trivial
  | empty | atomic | ahead | behind | anchor | again =>
      exact fun h => absurd h Bool.false_ne_true

/-- A pattern that needs another character finds nothing in the text. -/
theorem find_of_needsOther {r : Regex} {p : Program} (hp : r.program = .ok p)
    (h : p.expr.needsOther cs = true) (htext : ∀ c ∈ text, c ∈ cs) (start : Nat)
    (lookbehind : Bool) :
    r.find text start lookbehind = .ok none ∨ r.find text start lookbehind = .error .gaveUp := by
  cases hfind : r.find text start lookbehind with
  | error e =>
      rcases failure_of_find hfind with ⟨error, -, hbroken⟩ | ⟨rfl, -⟩
      · exact nomatch hp.symm.trans hbroken
      · exact .inr rfl
  | ok found =>
      cases found with
      | none => exact .inl rfl
      | some span =>
          obtain ⟨p', pos, m, hp', -, hm, -⟩ := exists_match_of_find hfind
          obtain rfl := Except.ok.inj (hp.symm.trans hp')
          obtain ⟨least, s, lasting, hrun, -⟩ :=
            Program.exists_run_of_matchAt (Program.matchAt_of_search hm).2.2
          have hunlimited := Program.unlimited_of_run hrun
          have hdead := Expr.dead_of_needsOther htext h (.start p.groups text.size m.start)
            (fun s => if least ≤ s.pos then .done s else .fail) (.none p.groups) trivial
          rw [Program.unlimited?] at hunlimited
          split at hunlimited
          · next hmatch =>
              rw [hmatch] at hdead
              exact hdead.elim
          · cases hunlimited

end Dead

-- ── Dead ends from below ─────────────────────────────────────────────────

/-- The attempt leads nowhere and comes to so many dead ends, or closes the
    tally. -/
def Attempt.Wastes (n : Nat) (a : Attempt Tally) : Prop :=
  ∀ t, ∃ t', a t = (none, t') ∧ min (t.deadEnds + n) (retryLimit + 1) ≤ t'.deadEnds

namespace Attempt

variable {a b : Attempt Tally} {m n : Nat}

theorem wastes_fail : Attempt.Wastes 1 .fail := fun _ => ⟨_, rfl, Nat.min_le_left _ _⟩

theorem Wastes.mono (ha : a.Wastes m) (h : n ≤ m) : a.Wastes n := by
  intro t
  obtain ⟨t', hat, ht'⟩ := ha t
  exact ⟨t', hat, by omega⟩

theorem Wastes.orElse (ha : a.Wastes m) (hb : b.Wastes n) : (a.orElse b).Wastes (m + n) := by
  intro t
  obtain ⟨t₁, hat, ht₁⟩ := ha t
  by_cases hopen : t₁.deadEnds ≤ retryLimit
  · obtain ⟨t₂, hbt, ht₂⟩ := hb t₁
    refine ⟨t₂, (orElse_of_open hat hopen).1.trans hbt, ?_⟩
    omega
  · exact ⟨t₁, (orElse_of_closed hat (Nat.lt_of_not_le hopen)).1, by omega⟩

/-- A tally that is closed stops what would come next. -/
theorem Wastes.orElse_closed (ha : a.Wastes (retryLimit + 1)) (b : Attempt Tally) :
    (a.orElse b).Wastes (retryLimit + 1) := by
  intro t
  obtain ⟨t', hat, ht'⟩ := ha t
  exact ⟨t', (orElse_of_closed hat (by omega)).1, ht'⟩

theorem Wastes.ifFails (ha : a.Wastes m) (hb : b.Wastes n) : (a.ifFails b).Wastes (m + n) := by
  intro t
  obtain ⟨t₁, hat, ht₁⟩ := ha t
  by_cases hopen : t₁.deadEnds ≤ retryLimit
  · obtain ⟨t₂, hbt, ht₂⟩ := hb t₁
    refine ⟨t₂, (orElse_of_open hat hopen).2.trans hbt, ?_⟩
    omega
  · exact ⟨t₁, (orElse_of_closed hat (Nat.lt_of_not_le hopen)).2, by omega⟩

/-- Under an open tally, what follows a dead attempt leads nowhere. -/
theorem Follows.exists_none {a' : Attempt Marks} (ha : a.Follows a') (hdead : a'.Dead) {t : Tally}
    (ht : t.deadEnds ≤ retryLimit) : ∃ t', a t = (none, t') := by
  rcases ha t ht with ⟨t', hat, -⟩ | ⟨_ | s, t', hat, hat', -⟩
  · exact ⟨t', hat⟩
  · exact ⟨t', hat⟩
  · have hnone := hdead t.marks trivial
    rw [hat'] at hnone
    exact hnone.elim

end Attempt

-- ── Loops ────────────────────────────────────────────────────────────────

section Loops

variable {text : Haystack} {n : Nat} {set : CharSet} {k : MatchState → Attempt Tally} (groups : Nat)

theorem matcher_one_of_mem {i : Nat} (h : text[i]?.any set.mem = true) {σ : Type} [Ledger σ]
    (k : MatchState → Attempt σ) :
    (Expr.one set).matcher text (.start groups text.size i) k
      = k (.start groups text.size (i + 1)) := by
  rw [matcher_one set rfl]
  show (((text[i]?).filter set.mem).map _).getD _ = _
  cases hc : text[i]? with
  | none =>
      rw [hc] at h
      exact nomatch h
  | some c =>
      rw [hc, Option.any_some] at h
      rw [Option.filter_some, h]
      rfl

theorem matcher_one_of_not_mem {i : Nat} (h : text[i]?.any set.mem = false) {σ : Type} [Ledger σ]
    (k : MatchState → Attempt σ) :
    (Expr.one set).matcher text (.start groups text.size i) k = .fail := by
  rw [matcher_one set rfl]
  show (((text[i]?).filter set.mem).map _).getD _ = _
  cases hc : text[i]? with
  | none => rfl
  | some c =>
      rw [hc, Option.any_some] at h
      rw [Option.filter_some, h]
      rfl

/-- A loop over the characters up to the position `n`, of which there are
    `m`, tries what comes after behind each of them and in front. -/
theorem wastes_loop (hset : ∀ i < n, text[i]?.any set.mem = true)
    (hend : text[n]?.any set.mem = false) {w : Nat → Nat} {least : Nat}
    (hk : ∀ m, m + least ≤ n → (k (.start groups text.size (n - m))).Wastes (w m)) {m : Nat} :
    ∀ fuel, m + least ≤ n → m < fuel →
      (Matcher.loop ((Expr.one set).matcher text) true .none fuel 0 none
        (.start groups text.size (n - m)) k).Wastes (∑ j ∈ Finset.range (m + 1), w j) := by
  induction m with
  | zero =>
      intro fuel hm hfuel
      obtain ⟨fuel, rfl⟩ := Nat.exists_eq_succ_of_ne_zero (Nat.ne_of_gt hfuel)
      have hmore : (Expr.one set).matcher text (.start groups text.size n)
          (fun s' => Matcher.loop ((Expr.one set).matcher text) true .none fuel 0 none s' k)
          = .fail := matcher_one_of_not_mem groups hend _
      have htry := Attempt.wastes_fail.orElse (hk 0 hm)
      rw [← hmore] at htry
      rw [Finset.sum_range_one]
      exact htry.mono (Nat.le_add_left _ 1)
  | succ m ih =>
      intro fuel hm hfuel
      obtain ⟨fuel, rfl⟩ := Nat.exists_eq_succ_of_ne_zero (Nat.ne_of_gt (Nat.zero_lt_of_lt hfuel))
      have hone := matcher_one_of_mem groups (hset (n - (m + 1)) (by omega))
        (fun s' => Matcher.loop ((Expr.one set).matcher text) true .none fuel 0 none s' k)
      rw [show n - (m + 1) + 1 = n - m by omega] at hone
      have htry := (ih fuel (by omega) (by omega)).orElse (hk (m + 1) hm)
      rw [← hone] at htry
      rw [Finset.sum_range_succ]
      exact htry

/-- Two loops over the same characters, the first one over one of them at
    least, with something between them that may be left out: in every way
    to share the characters what comes after is tried. -/
theorem wastes_loops {sep : CharSet} {c : Nat} (hset : ∀ i < n, text[i]?.any set.mem = true)
    (hend : text[n]?.any set.mem = false) (hsep : ∀ i ≤ n, text[i]?.any sep.mem = false)
    (hn : 0 < n) (hk : ∀ i, 0 < i → i ≤ n → (k (.start groups text.size i)).Wastes c) :
    ((Expr.seq (.loop (.one set) 1 none true .none) (.seq (.loop (.one sep) 0 (some 1) true .none)
      (.loop (.one set) 0 none true .none))).matcher text (.start groups text.size 0) k).Wastes
        (∑ j ∈ Finset.range n, (j + 1) * c) := by
  have hsize : n ≤ text.size := by
    have hlast := hset (n - 1) (Nat.sub_lt hn Nat.one_pos)
    refine Nat.le_of_not_lt fun hlt => ?_
    rw [Array.getElem?_eq_none (by omega)] at hlast
    exact nomatch hlast
  let star : Expr := .loop (.one set) 0 none true .none
  let rest : Expr := .seq (.loop (.one sep) 0 (some 1) true .none) star
  have hstar : ∀ m, m + 1 ≤ n →
      (star.matcher text (.start groups text.size (n - m)) k).Wastes ((m + 1) * c) := by
    intro m hm
    have hloop := wastes_loop groups hset hend (w := fun _ => c)
      (fun m hm => hk (n - m) (by omega) (Nat.sub_le n m)) (text.size + 2) hm (by omega)
    rw [Finset.sum_const, Finset.card_range, Nat.nsmul_eq_mul] at hloop
    exact hloop
  have hrest : ∀ m, m + 1 ≤ n →
      (rest.matcher text (.start groups text.size (n - m)) k).Wastes ((m + 1) * c) := by
    intro m hm
    have hmore := matcher_one_of_not_mem groups (hsep (n - m) (Nat.sub_le n m))
      (fun s' => Matcher.loop ((Expr.one sep).matcher text) true .none (text.size + 2) 0 (some 0) s'
        fun s'' => star.matcher text s'' k)
    have htry := Attempt.wastes_fail.orElse (hstar m hm)
    rw [← hmore] at htry
    exact htry.mono (Nat.le_add_left _ 1)
  have hone := matcher_one_of_mem groups (hset 0 hn)
    (fun s' => Matcher.loop ((Expr.one set).matcher text) true .none (text.size + 1) 0 none s'
      fun s'' => rest.matcher text s'' k)
  have hplus := wastes_loop groups (k := fun s => rest.matcher text s k) (m := n - 1) hset hend
    hrest (text.size + 1) (by omega) (by omega)
  rw [show n - (n - 1) = 0 + 1 by omega, ← hone, Nat.sub_add_cancel hn] at hplus
  exact hplus

/-- The ways to share `n` characters, each of them `c` times. -/
theorem two_mul_sum_range (n c : Nat) :
    2 * ∑ j ∈ Finset.range n, (j + 1) * c = n * (n + 1) * c := by
  have hgauss := Finset.sum_range_id_mul_two (n + 1)
  rw [Finset.sum_range_succ', Nat.add_sub_cancel, Nat.add_zero] at hgauss
  rw [← Finset.sum_mul, ← Nat.mul_assoc, Nat.mul_comm 2, hgauss, Nat.mul_comm (n + 1)]

end Loops

-- ── Boundaries ───────────────────────────────────────────────────────────

/-- A look at one character on each side: just one of them is in the set. -/
def Expr.boundary (set : CharSet) : Expr :=
  .alt (.seq (.behind false (.exactly 1) (.one set)) (.ahead true (.one set)))
    (.seq (.behind true (.exactly 1) (.one set)) (.ahead false (.one set)))

section Boundary

variable {text : Haystack} {set : CharSet} {i n : Nat} {k : MatchState → Attempt Tally}
  (groups : Nat)

theorem matcher_ahead_of_mem (h : text[i]?.any set.mem = true) (negated : Bool)
    (k : MatchState → Attempt Tally) :
    (Expr.ahead negated (.one set)).matcher text (.start groups text.size i) k
      = if negated then .fail else k (.start groups text.size i) := by
  rw [Expr.matcher, matcher_one_of_mem groups h]
  cases negated <;> rfl

theorem matcher_behind_of_mem (h : text[i]?.any set.mem = true) (negated : Bool)
    (k : MatchState → Attempt Tally) :
    (Expr.behind negated (.exactly 1) (.one set)).matcher text (.start groups text.size (i + 1)) k
      = if negated then .fail else k (.start groups text.size (i + 1)) := by
  have hfound : Matcher.earlier ((Expr.one set).matcher text) (.start groups text.size (i + 1)) 1
      = (Attempt.done (.start groups text.size (i + 1)) : Attempt Tally) :=
    (if_pos (Nat.le_add_left 1 i)).trans (matcher_one_of_mem groups h _)
  rw [Expr.matcher, hfound]
  cases negated <;> rfl

/-- Between two characters of the set there is no boundary. -/
theorem wastes_boundary_inside (h : text[i]?.any set.mem = true)
    (hnext : text[i + 1]?.any set.mem = true) :
    ((Expr.boundary set).matcher text (.start groups text.size (i + 1)) k).Wastes 2 := by
  have hfirst := matcher_behind_of_mem groups h false
    fun s => (Expr.ahead true (.one set)).matcher text s k
  have hsecond := matcher_behind_of_mem groups h true
    fun s => (Expr.ahead false (.one set)).matcher text s k
  rw [if_neg Bool.false_ne_true, matcher_ahead_of_mem groups hnext true, if_pos rfl] at hfirst
  rw [if_pos rfl] at hsecond
  have htry := Attempt.wastes_fail.orElse Attempt.wastes_fail
  nth_rewrite 1 [← hfirst] at htry
  rw [← hsecond] at htry
  exact htry

/-- At the start of a text that begins with a character of the set there is
    one. -/
theorem wastes_boundary_start (h : text[0]?.any set.mem = true)
    (hk : (k (.start groups text.size 0)).Wastes n) :
    ((Expr.boundary set).matcher text (.start groups text.size 0) k).Wastes n := by
  have hahead := matcher_ahead_of_mem groups h false k
  rw [if_neg Bool.false_ne_true] at hahead
  rw [← hahead] at hk
  -- there is nothing to look behind at, which is what the second side asks for
  have hfirst : Attempt.Wastes 1 ((Expr.seq (.behind false (.exactly 1) (.one set))
      (.ahead true (.one set))).matcher text (.start groups text.size 0) k) :=
    Attempt.wastes_fail
  have hsecond : Attempt.Wastes (1 + n) ((Expr.seq (.behind true (.exactly 1) (.one set))
      (.ahead false (.one set))).matcher text (.start groups text.size 0) k) :=
    Attempt.wastes_fail.ifFails hk
  exact (hfirst.orElse hsecond).mono (by omega)

end Boundary

-- ── Programs ─────────────────────────────────────────────────────────────

/-- A match is given up where the first alternative cannot match and the
    other one closes the tally. -/
theorem Program.matchAt_of_wastes {p : Program} {text : Haystack} {cs : List Char} {a b : Expr}
    (hp : p.expr = .alt a b) (htext : ∀ c ∈ text, c ∈ cs) (ha : a.needsOther cs = true)
    {pos : Nat} (hb : ∀ k : MatchState → Attempt Tally,
      (b.matcher text (.start p.groups text.size pos) k).Wastes (retryLimit + 1)) :
    p.matchAt text pos = .error ⟨⟩ := by
  let ended : MatchState → Attempt Tally := fun s => if 0 ≤ s.pos then .done s else .fail
  let start : MatchState := .start p.groups text.size pos
  let t : Tally := { marks := .none p.groups }
  have hdead := Expr.dead_of_needsOther htext ha start
    fun s => if 0 ≤ s.pos then .done s else .fail
  have hfollows := a.follows text (k := ended) (Program.follows_ended 0) start
  obtain ⟨t₁, hfirst⟩ := hfollows.exists_none hdead (t := t) (Nat.zero_le _)
  obtain ⟨t₂, hsecond, hclosed⟩ := hb ended t₁
  have hnone : ∃ t', p.expr.matcher text start ended t = (none, t') ∧ retryLimit < t'.deadEnds := by
    rw [hp, Expr.matcher]
    by_cases hopen : t₁.deadEnds ≤ retryLimit
    · exact ⟨t₂, (Attempt.orElse_of_open hfirst hopen).1.trans hsecond, by omega⟩
    · have hlt := Nat.lt_of_not_le hopen
      exact ⟨t₁, (Attempt.orElse_of_closed hfirst hlt).1, hlt⟩
  obtain ⟨t', hmatch, ht'⟩ := hnone
  have hnot : Ledger.isOpen t' = false := decide_eq_false (Nat.not_le_of_lt ht')
  have hrun : p.run text pos 0 = .error ⟨⟩ := by
    rw [run]
    simp only [start, ended, t] at hmatch
    simp only [hmatch, hnot, Bool.false_eq_true, if_false]
  rw [matchAt, hrun]
  rfl

/-- Then the search from the start of the text is given up. -/
theorem find_of_matchAt_error {r : Regex} {p : Program} (hp : r.program = .ok p)
    (hlongest : p.longest = false) {text : Haystack} (h : p.matchAt text 0 = .error ⟨⟩)
    (lookbehind : Bool) : r.find text 0 lookbehind = .error .gaveUp := by
  have hsearch : p.search text 0 = .error ⟨⟩ := by
    rw [Program.search, hlongest, if_neg Bool.false_ne_true, Nat.sub_zero, Program.searchIn, h]
  have hpos : position? text 0 = some 0 :=
    congrArg (Option.map List.length) (Text.takeBytes?_append [] text.toList)
  rw [find_of_program hp hpos, Nat.sub_zero, findIn, hsearch]

end Highlighter.Regex
