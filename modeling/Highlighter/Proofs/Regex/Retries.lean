import Highlighter.Regex.Program

/-! # Dead ends

    A match is attempted under a `Tally`, which closes when there are too
    many dead ends.  As long as it stays open it is of no consequence:
    attempts under a tally follow those under the marks alone, which try
    their ways to the end (`Expr.follows`).  So a match that is not given up
    is the one that backtracking without a limit comes to
    (`Program.unlimited_of_run`).

    How many dead ends a pattern without loops comes to can be read off it
    (`Expr.deadEnds?`).  With no more of them than are allowed, no match is
    given up (`Program.matchAt_eq_unlimited`). -/

namespace Highlighter.Regex

-- ── Following ────────────────────────────────────────────────────────────

/-- Under an open tally the attempt leads where the other one leads under
    its marks, and leaves the same marks, or it closes the tally. -/
def Attempt.Follows (a : Attempt Tally) (b : Attempt Marks) : Prop :=
  ∀ t : Tally, t.deadEnds ≤ retryLimit →
    (∃ t', a t = (none, t') ∧ retryLimit < t'.deadEnds) ∨
      ∃ found t', a t = (found, t') ∧ b t.marks = (found, t'.marks) ∧ t'.deadEnds ≤ retryLimit

namespace Attempt

variable {a b : Attempt Tally} {a' b' : Attempt Marks}

theorem follows_fail : Attempt.Follows .fail .fail := by
  intro t _
  by_cases hnext : t.deadEnds + 1 ≤ retryLimit
  · exact .inr ⟨_, _, rfl, rfl, hnext⟩
  · exact .inl ⟨_, rfl, Nat.lt_of_not_le hnext⟩

theorem follows_done (s : MatchState) : Attempt.Follows (.done s) (.done s) :=
  fun t ht => .inr ⟨_, t, rfl, rfl, ht⟩

/-- What happens under a tally that was closed. -/
theorem orElse_of_closed {t t' : Tally} (h : a t = (none, t'))
    (hclosed : retryLimit < t'.deadEnds) :
    a.orElse b t = (none, t') ∧ a.ifFails b t = (none, t') := by
  have hnot : Ledger.isOpen t' = false := decide_eq_false (Nat.not_le_of_lt hclosed)
  rw [orElse, ifFails, h]
  simp only [hnot, Bool.false_eq_true, if_false, and_self]

/-- What happens under a tally that is open after a dead end. -/
theorem orElse_of_open {t t' : Tally} (h : a t = (none, t')) (hopen : t'.deadEnds ≤ retryLimit) :
    a.orElse b t = b t' ∧ a.ifFails b t = b t' := by
  have hok : Ledger.isOpen t' = true := decide_eq_true hopen
  rw [orElse, ifFails, h]
  simp only [hok, if_true, and_self]

theorem Follows.orElse (ha : a.Follows a') (hb : b.Follows b') :
    (a.orElse b).Follows (a'.orElse b') := by
  intro t ht
  rcases ha t ht with ⟨t', hat, hclosed⟩ | ⟨_ | s, t', hat, hat', hopen⟩
  · exact .inl ⟨t', (orElse_of_closed hat hclosed).1, hclosed⟩
  · have hrest : a'.orElse b' t.marks = b' t'.marks := by
      rw [Attempt.orElse, hat']
      rfl
    rw [(orElse_of_open hat hopen).1, hrest]
    exact hb t' hopen
  · refine .inr ⟨some s, t', ?_, ?_, hopen⟩
    · rw [Attempt.orElse, hat]
    · rw [Attempt.orElse, hat']

theorem Follows.ifFails (ha : a.Follows a') (hb : b.Follows b') :
    (a.ifFails b).Follows (a'.ifFails b') := by
  intro t ht
  rcases ha t ht with ⟨t', hat, hclosed⟩ | ⟨_ | s, t', hat, hat', hopen⟩
  · exact .inl ⟨t', (orElse_of_closed hat hclosed).2, hclosed⟩
  · have hrest : a'.ifFails b' t.marks = b' t'.marks := by
      rw [Attempt.ifFails, hat']
      rfl
    rw [(orElse_of_open hat hopen).2, hrest]
    exact hb t' hopen
  · -- what is found is a dead end for both
    have hfound : a.ifFails b t = Attempt.fail t' := by
      rw [Attempt.ifFails, hat]
    have hfound' : a'.ifFails b' t.marks = Attempt.fail t'.marks := by
      rw [Attempt.ifFails, hat']
    rw [hfound, hfound']
    exact follows_fail t' hopen

theorem Follows.andThen (ha : a.Follows a') {k : MatchState → Attempt Tally}
    {k' : MatchState → Attempt Marks} (hk : ∀ s, (k s).Follows (k' s)) :
    (a.andThen k).Follows (a'.andThen k') := by
  intro t ht
  rcases ha t ht with ⟨t', hat, hclosed⟩ | ⟨_ | s, t', hat, hat', hopen⟩
  · refine .inl ⟨t', ?_, hclosed⟩
    rw [Attempt.andThen, hat]
  · refine .inr ⟨none, t', ?_, ?_, hopen⟩
    · rw [Attempt.andThen, hat]
    · rw [Attempt.andThen, hat']
  · have hfound : a.andThen k t = k s t' := by
      rw [Attempt.andThen, hat]
    have hfound' : a'.andThen k' t.marks = k' s t'.marks := by
      rw [Attempt.andThen, hat']
    rw [hfound, hfound']
    exact hk s t' hopen

end Attempt

/-- Every way is followed by the same way, if what comes after is. -/
def Matcher.Follows (f : Matcher Tally) (g : Matcher Marks) : Prop :=
  ∀ ⦃k : MatchState → Attempt Tally⦄ ⦃k' : MatchState → Attempt Marks⦄,
    (∀ s, (k s).Follows (k' s)) → ∀ s, (f s k).Follows (g s k')

namespace Matcher

variable {body : Matcher Tally} {body' : Matcher Marks}

theorem Follows.loop (hbody : body.Follows body') (greedy : Bool) (guard : Guard) (fuel : Nat) :
    ∀ min max, (Matcher.loop body greedy guard fuel min max).Follows
      (Matcher.loop body' greedy guard fuel min max) := by
  induction fuel with
  | zero => exact fun _ _ _ _ _ _ => Attempt.follows_fail
  | succ fuel ih =>
      intro min max k k' hk s
      have hturn : ∀ min max s', Attempt.Follows
          (if guard.stops s s' then k s' else Matcher.loop body greedy guard fuel min max s' k)
          (if guard.stops s s' then k' s'
            else Matcher.loop body' greedy guard fuel min max s' k') := by
        intro min max s'
        split
        · exact hk s'
        · exact ih min max hk s'
      cases min with
      | succ min => exact hbody (hturn min _) s
      | zero =>
          rcases max with _ | _ | max
          · have hmore := hbody (hturn 0 none) s
            cases greedy with
            | true => exact hmore.orElse (hk s)
            | false => exact (hk s).orElse hmore
          · exact hk s
          · have hmore := hbody (hturn 0 (some max)) s
            cases greedy with
            | true => exact hmore.orElse (hk s)
            | false => exact (hk s).orElse hmore

theorem Follows.behind (hbody : body.Follows body') (s : MatchState) (further : Nat) :
    ∀ back, (Matcher.behind body s further back).Follows
      (Matcher.behind body' s further back) := by
  have hattempt : ∀ back,
      (Matcher.behind.attempt body s back).Follows (Matcher.behind.attempt body' s back) := by
    intro back
    rw [Matcher.behind.attempt, Matcher.behind.attempt]
    split
    · refine hbody (fun s' => ?_) _
      split
      · exact Attempt.follows_done _
      · exact Attempt.follows_fail
    · exact Attempt.follows_fail
  induction further with
  | zero => exact hattempt
  | succ further ih => exact fun back => (hattempt back).orElse (ih (back + 1))

theorem Follows.earlier (hbody : body.Follows body') (s : MatchState) (back : Nat) :
    (Matcher.earlier body s back).Follows (Matcher.earlier body' s back) := by
  rw [Matcher.earlier, Matcher.earlier]
  split
  · exact hbody Attempt.follows_done _
  · exact Attempt.follows_fail

theorem follows_assert {found : Attempt Tally} {found' : Attempt Marks}
    (hfound : found.Follows found') (negated : Bool) {k : MatchState → Attempt Tally}
    {k' : MatchState → Attempt Marks} (hk : ∀ s, (k s).Follows (k' s)) (s : MatchState) :
    (Matcher.assert negated found s k).Follows (Matcher.assert negated found' s k') := by
  cases negated with
  | true => exact hfound.ifFails (hk s)
  | false => exact hfound.andThen hk

end Matcher

/-- Matching under a tally follows matching without one. -/
theorem Expr.follows (text : Haystack) (e : Expr) :
    Matcher.Follows (e.matcher text) (e.matcher text) := by
  induction e with
  | empty => exact fun _ _ hk s => hk s
  | one set =>
      intro k k' hk s
      rw [Expr.matcher, Expr.matcher]
      split
      · split
        · split
          · exact hk s.next
          · exact Attempt.follows_fail
        · exact Attempt.follows_fail
      · exact Attempt.follows_fail
  | seq a b iha ihb =>
      intro k k' hk s
      rw [Expr.matcher, Expr.matcher]
      exact iha (ihb hk) s
  | alt a b iha ihb =>
      intro k k' hk s
      rw [Expr.matcher, Expr.matcher]
      exact (iha hk s).orElse (ihb hk s)
  | loop body min max greedy guard ih =>
      intro k k' hk s
      rw [Expr.matcher, Expr.matcher]
      exact ih.loop greedy guard _ min max hk s
  | capture index fresh traced body ih =>
      intro k k' hk s
      cases fresh with
      | true =>
          rw [Expr.matcher, Expr.matcher]
          exact ih (fun s' => hk _) _
      | false =>
          rw [Expr.matcher, Expr.matcher]
          have hleave : ∀ s', Attempt.Follows
              (fun l => k s' (Ledger.setMarks l ((Ledger.marks l).leave index s'.pos)))
              (fun l => k' s' (Ledger.setMarks l ((Ledger.marks l).leave index s'.pos))) :=
            fun s' t ht => hk s' (Ledger.setMarks t ((Ledger.marks t).leave index s'.pos)) ht
          exact fun t ht => ih hleave s (Ledger.setMarks t ((Ledger.marks t).enter index s.pos)) ht
  | atomic body ih =>
      intro k k' hk s
      rw [Expr.matcher, Expr.matcher]
      exact (ih Attempt.follows_done s).andThen hk
  | ahead negated body ih =>
      intro k k' hk s
      rw [Expr.matcher, Expr.matcher]
      refine Matcher.follows_assert ?_ negated hk s
      exact (ih Attempt.follows_done s).andThen fun s' => Attempt.follows_done _
  | behind negated reach body ih =>
      intro k k' hk s
      cases reach with
      | exactly n =>
          rw [Expr.matcher, Expr.matcher]
          exact Matcher.follows_assert (ih.earlier s n) negated hk s
      | between min max =>
          rw [Expr.matcher, Expr.matcher]
          exact Matcher.follows_assert (ih.behind s _ min) negated hk s
  | anchor a =>
      intro k k' hk s
      rw [Expr.matcher, Expr.matcher]
      split
      · exact hk s
      · exact Attempt.follows_fail
  | again r =>
      intro k k' hk s t ht
      rw [Expr.matcher, Expr.matcher]
      cases hs : s.refer? text t.marks r with
      | some s' =>
          simp only [Ledger.marks, hs]
          exact hk s' t ht
      | none =>
          simp only [Ledger.marks, hs]
          exact Attempt.follows_fail t ht

-- ── Counting ─────────────────────────────────────────────────────────────

/-- The attempt comes to so many dead ends at most. -/
def Attempt.Costs (n : Nat) (a : Attempt Tally) : Prop :=
  ∀ t : Tally, (a t).2.deadEnds ≤ t.deadEnds + n

namespace Attempt

variable {a b : Attempt Tally} {m n : Nat}

theorem costs_fail : Attempt.Costs 1 .fail := fun t => Nat.le_refl (t.deadEnds + 1)

theorem costs_done (s : MatchState) : Attempt.Costs 0 (.done s) := fun t => Nat.le_refl t.deadEnds

theorem Costs.mono (ha : a.Costs m) (h : m ≤ n) : a.Costs n :=
  fun t => Nat.le_trans (ha t) (Nat.add_le_add_left h _)

theorem Costs.orElse (ha : a.Costs m) (hb : b.Costs n) : (a.orElse b).Costs (m + n) := by
  intro t
  have hat := ha t
  rw [Attempt.orElse]
  rcases ham : a t with ⟨_ | s, t'⟩
  · rw [ham] at hat
    have hbt := hb t'
    dsimp only at hat hbt ⊢
    split
    · omega
    · dsimp only
      omega
  · rw [ham] at hat
    dsimp only at hat ⊢
    omega

theorem Costs.ifFails (ha : a.Costs m) (hb : b.Costs n) : (a.ifFails b).Costs (m + n + 1) := by
  intro t
  have hat := ha t
  rw [Attempt.ifFails]
  rcases ham : a t with ⟨_ | s, t'⟩
  · rw [ham] at hat
    have hbt := hb t'
    dsimp only at hat hbt ⊢
    split
    · omega
    · dsimp only
      omega
  · rw [ham] at hat
    have hfail := costs_fail t'
    dsimp only at hat hfail ⊢
    omega

theorem Costs.andThen (ha : a.Costs m) {k : MatchState → Attempt Tally}
    (hk : ∀ s, (k s).Costs n) : (a.andThen k).Costs (m + n) := by
  intro t
  have hat := ha t
  rw [Attempt.andThen]
  rcases ham : a t with ⟨_ | s, t'⟩
  · rw [ham] at hat
    dsimp only at hat ⊢
    omega
  · rw [ham] at hat
    have hkt := hk s t'
    dsimp only at hat hkt ⊢
    omega

theorem Costs.assert (ha : a.Costs m) (negated : Bool) {k : MatchState → Attempt Tally}
    (hk : ∀ s, (k s).Costs n) (s : MatchState) :
    (Matcher.assert negated a s k).Costs (m + n + 1) := by
  cases negated with
  | true => exact ha.ifFails (hk s)
  | false => exact (ha.andThen hk).mono (Nat.le_succ _)

end Attempt

/-- A bound on the dead ends of an expression without loops, when what comes
    after it comes to `rest` of them at most each time. -/
def Expr.deadEnds? : Expr → (rest : Nat) → Option Nat
  | .empty, rest => some rest
  | .one _, rest | .anchor _, rest | .again _, rest => some (rest + 1)
  | .seq a b, rest => (b.deadEnds? rest).bind a.deadEnds?
  | .alt a b, rest => (a.deadEnds? rest).bind fun m => (b.deadEnds? rest).map (m + ·)
  | .capture _ _ _ body, rest => body.deadEnds? rest
  | .atomic body, rest => (body.deadEnds? 0).map (· + rest)
  | .ahead _ body, rest => (body.deadEnds? 0).map (· + rest + 1)
  | .behind _ (.exactly _) body, rest => (body.deadEnds? 0).map (· + 1 + rest + 1)
  | .behind _ (.between _ _) _, _ | .loop _ _ _ _ _, _ => none

/-- Where there is a bound on the dead ends, it holds. -/
theorem Expr.costs_of_deadEnds? (text : Haystack) {e : Expr} :
    ∀ {rest n : Nat}, e.deadEnds? rest = some n → ∀ {k : MatchState → Attempt Tally},
      (∀ s, (k s).Costs rest) → ∀ s, (e.matcher text s k).Costs n := by
  induction e with
  | empty =>
      intro rest n h k hk s
      obtain rfl := Option.some.inj h
      exact hk s
  | one set =>
      intro rest n h k hk s
      obtain rfl := Option.some.inj h
      have hfail := Attempt.costs_fail.mono (Nat.le_add_left 1 rest)
      rw [Expr.matcher]
      split
      · split
        · split
          · exact (hk _).mono (Nat.le_succ rest)
          · exact hfail
        · exact hfail
      · exact hfail
  | seq a b iha ihb =>
      intro rest n h k hk s
      obtain ⟨m, hb, ha⟩ := Option.bind_eq_some_iff.mp h
      rw [Expr.matcher]
      exact iha ha (ihb hb hk) s
  | alt a b iha ihb =>
      intro rest n h k hk s
      obtain ⟨m, ha, h⟩ := Option.bind_eq_some_iff.mp h
      obtain ⟨m', hb, rfl⟩ := Option.map_eq_some_iff.mp h
      rw [Expr.matcher]
      exact (iha ha hk s).orElse (ihb hb hk s)
  | loop body min max greedy guard _ => intro rest n h; cases h
  | capture index fresh traced body ih =>
      intro rest n h k hk s
      cases fresh with
      | true =>
          rw [Expr.matcher]
          exact ih h (fun s' => hk _) _
      | false =>
          rw [Expr.matcher]
          intro t
          exact ih h
            (k := fun s' l => k s' (Ledger.setMarks l ((Ledger.marks l).leave index s'.pos)))
            (fun s' t' => hk s' (Ledger.setMarks t' ((Ledger.marks t').leave index s'.pos))) s
            (Ledger.setMarks t ((Ledger.marks t).enter index s.pos))
  | atomic body ih =>
      intro rest n h k hk s
      obtain ⟨m, hm, rfl⟩ := Option.map_eq_some_iff.mp h
      rw [Expr.matcher]
      exact (ih hm Attempt.costs_done s).andThen hk
  | ahead negated body ih =>
      intro rest n h k hk s
      obtain ⟨m, hm, rfl⟩ := Option.map_eq_some_iff.mp h
      rw [Expr.matcher]
      refine Attempt.Costs.assert ?_ negated hk s
      exact (ih hm Attempt.costs_done s).andThen fun _ => Attempt.costs_done _
  | behind negated reach body ih =>
      intro rest n h k hk s
      cases reach with
      | exactly count =>
          obtain ⟨m, hm, rfl⟩ := Option.map_eq_some_iff.mp h
          rw [Expr.matcher]
          refine Attempt.Costs.assert ?_ negated hk s
          rw [Matcher.earlier]
          split
          · exact (ih hm Attempt.costs_done _).mono (Nat.le_succ m)
          · exact Attempt.costs_fail.mono (Nat.le_add_left 1 m)
      | between min max => cases h
  | anchor a =>
      intro rest n h k hk s
      obtain rfl := Option.some.inj h
      rw [Expr.matcher]
      split
      · exact (hk s).mono (Nat.le_succ rest)
      · exact Attempt.costs_fail.mono (Nat.le_add_left 1 rest)
  | again r =>
      intro rest n h k hk s t
      obtain rfl := Option.some.inj h
      rw [Expr.matcher]
      cases hs : s.refer? text (Ledger.marks t) r with
      | some s' =>
          simp only [hs]
          exact (hk s').mono (Nat.le_succ rest) t
      | none =>
          simp only [hs]
          exact Attempt.costs_fail.mono (Nat.le_add_left 1 rest) t

-- ── Programs ─────────────────────────────────────────────────────────────

namespace Program

variable {p : Program} {text : Haystack} {pos least : Nat}

/-- Where a match leads that is never given up. -/
def unlimited? (p : Program) (text : Haystack) (pos least : Nat) : Option (MatchState × Marks) :=
  let ended : MatchState → Attempt Marks := fun s => if least ≤ s.pos then .done s else .fail
  match p.expr.matcher text (.start p.groups text.size pos) ended (.none p.groups) with
  | (some s, lasting) => some (s, lasting)
  | (none, _) => none

theorem follows_ended (least : Nat) (s : MatchState) :
    Attempt.Follows (if least ≤ s.pos then .done s else .fail)
      (if least ≤ s.pos then .done s else .fail) := by
  split
  · exact Attempt.follows_done s
  · exact Attempt.follows_fail

/-- A match is given up, or leads where it does without a limit. -/
theorem run_eq_or (p : Program) (text : Haystack) (pos least : Nat) :
    p.run text pos least = .error ⟨⟩ ∨
      p.run text pos least = .ok (p.unlimited? text pos least) := by
  rcases p.expr.follows text (follows_ended least) (.start p.groups text.size pos)
      { marks := .none p.groups } (Nat.zero_le _) with
    ⟨t, ht, hclosed⟩ | ⟨_ | s, t, ht, ht', hopen⟩
  · have hnot : Ledger.isOpen t = false := decide_eq_false (Nat.not_le_of_lt hclosed)
    refine .inl ?_
    rw [run]
    simp only [ht, hnot, Bool.false_eq_true, if_false]
  · have hok : Ledger.isOpen t = true := decide_eq_true hopen
    refine .inr ?_
    rw [run, unlimited?]
    simp only [ht, ht', hok, if_true]
  · refine .inr ?_
    rw [run, unlimited?]
    simp only [ht, ht']

/-- With few dead ends no match is given up. -/
theorem run_eq_unlimited {n : Nat} (hcost : p.expr.deadEnds? 1 = some n) (hn : n ≤ retryLimit) :
    p.run text pos least = .ok (p.unlimited? text pos least) := by
  refine (p.run_eq_or text pos least).resolve_left fun herror => ?_
  have hended : ∀ s : MatchState,
      Attempt.Costs 1 (if least ≤ s.pos then .done s else .fail) := by
    intro s
    split
    · exact (Attempt.costs_done s).mono (Nat.zero_le 1)
    · exact Attempt.costs_fail
  have hcosts := Expr.costs_of_deadEnds? text hcost hended (.start p.groups text.size pos)
    { marks := .none p.groups }
  rw [run] at herror
  split at herror
  · exact nomatch herror
  · next t ht =>
      rw [ht] at hcosts
      have hok : Ledger.isOpen t = true := by
        refine decide_eq_true (Nat.le_trans hcosts ?_)
        dsimp only
        omega
      rw [hok] at herror
      exact nomatch herror

/-- What a run leads to, it leads to without a limit. -/
theorem unlimited_of_run {found : Option (MatchState × Marks)}
    (h : p.run text pos least = .ok found) : p.unlimited? text pos least = found := by
  rcases p.run_eq_or text pos least with herror | hok
  · exact nomatch h.symm.trans herror
  · exact Except.ok.inj (hok.symm.trans h)

theorem exists_run_of_extend {count : Nat} :
    ∀ {least : Nat} {found last : MatchState × Marks},
      p.run text pos least = .ok (some found) → p.extend text pos count found = .ok last →
        ∃ least, p.run text pos least = .ok (some last) := by
  induction count with
  | zero =>
      intro least found last hrun h
      obtain rfl := Except.ok.inj h
      exact ⟨least, hrun⟩
  | succ count ih =>
      intro least found last hrun h
      rw [extend] at h
      split at h
      · next found' hfound' => exact ih hfound' h
      · obtain rfl := Except.ok.inj h
        exact ⟨least, hrun⟩
      · exact nomatch h

/-- The first match is where a run leads. -/
theorem matchAt_of_not_longest (hp : p.longest = false) :
    p.matchAt text pos = (p.run text pos 0).map fun found =>
      found.map fun (s, lasting) => ⟨pos, s.pos, s.span? lasting 1⟩ := by
  rw [matchAt]
  rcases p.run text pos 0 with e | _ | found
  · rfl
  · rfl
  · simp only [bind, Except.bind, hp, Bool.false_eq_true, if_false]
    rfl

/-- The first match is where the pattern leads without a limit. -/
theorem unlimited_of_matchAt (hp : p.longest = false) {m : Match}
    (h : p.matchAt text pos = .ok (some m)) :
    ∃ s lasting, p.unlimited? text pos 0 = some (s, lasting) ∧
      m = ⟨pos, s.pos, s.span? lasting 1⟩ := by
  rw [matchAt_of_not_longest hp] at h
  rcases hrun : p.run text pos 0 with e | _ | ⟨s, lasting⟩
  · rw [hrun] at h
    exact nomatch h
  · rw [hrun] at h
    exact nomatch h
  · rw [hrun] at h
    exact ⟨s, lasting, unlimited_of_run hrun, (Option.some.inj (Except.ok.inj h)).symm⟩

/-- With few dead ends it is never given up. -/
theorem matchAt_eq_unlimited (hp : p.longest = false) {n : Nat}
    (hcost : p.expr.deadEnds? 1 = some n) (hn : n ≤ retryLimit) :
    p.matchAt text pos = .ok ((p.unlimited? text pos 0).map fun (s, lasting) =>
      ⟨pos, s.pos, s.span? lasting 1⟩) := by
  rw [matchAt_of_not_longest hp, run_eq_unlimited hcost hn]
  rfl

/-- Every match is where some run leads. -/
theorem exists_run_of_matchAt {m : Match} (h : p.matchAt text pos = .ok (some m)) :
    ∃ least s lasting, p.run text pos least = .ok (some (s, lasting)) ∧
      m = ⟨pos, s.pos, s.span? lasting 1⟩ := by
  rw [matchAt] at h
  cases hrun : p.run text pos 0 with
  | error e =>
      rw [hrun] at h
      exact nomatch h
  | ok found =>
      rw [hrun] at h
      cases found with
      | none => exact nomatch h
      | some found =>
          simp only [bind, Except.bind] at h
          split at h
          · cases hlast : p.extend text pos text.size found with
            | error e =>
                rw [hlast] at h
                exact nomatch h
            | ok last =>
                rw [hlast] at h
                obtain rfl := Option.some.inj (Except.ok.inj h)
                obtain ⟨least, hrun⟩ := exists_run_of_extend hrun hlast
                exact ⟨least, last.1, last.2, hrun, rfl⟩
          · obtain rfl := Option.some.inj (Except.ok.inj h)
            exact ⟨0, found.1, found.2, hrun, rfl⟩

end Program

end Highlighter.Regex
