import Highlighter.Proofs.Regex.Finding

/-! # Patterns that begin with their first group

    Where the first group stands in front, and nothing behind it records a
    group, what that group matches is a prefix of the match.  Whether an
    expression is of this form can be computed (`Expr.leadsWithGroup`), and
    then every match of it is prefixed, in every text
    (`prefixedIn_of_leadsWithGroup`).

    What the group has matched stays marked, for nothing behind the group
    changes the marks, whether it leads on or not. -/

namespace Highlighter.Regex

-- ── Without groups ───────────────────────────────────────────────────────

/-- The marks of fresh groups stay as they are. -/
theorem motion_marks (text : Haystack) : Motion text fun s s' => s'.marks = s.marks where
  refl _ := rfl
  trans h h' := h'.trans h
  next _ := rfl
  ahead h := h
  behind h _ := h
  earlier h := h

-- ── A group in front ─────────────────────────────────────────────────────

/-- The expression only takes characters one by one, and looks at where it
    stands. -/
def Expr.plain : Expr → Bool
  | .empty | .one _ | .anchor _ => true
  | .seq a b | .alt a b => a.plain && b.plain
  | _ => false

/-- A plain expression goes forward and keeps the marks of fresh groups. -/
theorem Expr.ends_of_plain {text : Haystack} {I : Marks → Prop} {R : MatchState → Marks → Prop}
    {e : Expr} (he : e.plain = true) :
    ∀ {k : MatchState → Attempt Marks} {s : MatchState},
      (∀ s', s'.marks = s.marks → s.pos ≤ s'.pos → (k s').Ends I R) →
      (e.matcher text s k).Ends I R := by
  induction e with
  | empty =>
      intro k s hk
      rw [Expr.matcher]
      exact hk s rfl (Nat.le_refl _)
  | one set =>
      intro k s hk
      rw [Expr.matcher]
      split
      · split
        · split
          · exact hk s.next rfl (Nat.le_succ _)
          · exact Attempt.ends_fail
        · exact Attempt.ends_fail
      · exact Attempt.ends_fail
  | anchor a =>
      intro k s hk
      rw [Expr.matcher]
      split
      · exact hk s rfl (Nat.le_refl _)
      · exact Attempt.ends_fail
  | seq a b iha ihb =>
      obtain ⟨ha, hb⟩ := Bool.and_eq_true_iff.mp he
      intro k s hk
      rw [Expr.matcher]
      refine iha ha fun s' hs' hle => ihb hb fun s'' hs'' hle' => ?_
      exact hk s'' (hs''.trans hs') (Nat.le_trans hle hle')
  | alt a b iha ihb =>
      obtain ⟨ha, hb⟩ := Bool.and_eq_true_iff.mp he
      intro k s hk
      rw [Expr.matcher]
      exact (iha ha hk).orElse (ihb hb hk)
  | loop body min max greedy guard _ => exact absurd he Bool.false_ne_true
  | capture index isFresh traced body _ => exact absurd he Bool.false_ne_true
  | atomic body _ => exact absurd he Bool.false_ne_true
  | ahead negated body _ => exact absurd he Bool.false_ne_true
  | behind negated reach body _ => exact absurd he Bool.false_ne_true
  | again r => exact absurd he Bool.false_ne_true

/-- The first group stands in front, and there is no other one. -/
def Expr.leadsWithGroup : Expr → Bool
  | .seq (.capture 1 false _ body) rest => body.plain && rest.groupless
  | _ => false

/-- A program whose matches begin with its only group. -/
def Program.leadsWithGroup (p : Program) : Bool :=
  p.expr.leadsWithGroup && p.groups == 1 && !p.longest

/-- The first group was entered at a position, and can be left. -/
def Marks.Entered (pos : Nat) (m : Marks) : Prop :=
  m.opened.getD 1 .none = some pos ∧ 1 < m.closed.length

theorem Marks.entered_enter {m : Marks} (ho : 1 < m.opened.length) (hc : 1 < m.closed.length)
    (pos : Nat) : (m.enter 1 pos).Entered pos := by
  refine ⟨?_, hc⟩
  rw [Marks.enter, List.getD_eq_getElem?_getD, List.getElem?_set_self ho]
  rfl

/-- A group that was entered and left has matched what is in between. -/
theorem Marks.Entered.leave {m : Marks} {pos : Nat} (h : m.Entered pos) (stop : Nat) :
    (m.leave 1 stop).Entered pos ∧ (m.leave 1 stop).span? 1 = some (pos, stop) := by
  have hclosed : (m.leave 1 stop).closed.getD 1 .none = some stop := by
    rw [Marks.leave, List.getD_eq_getElem?_getD, List.getElem?_set_self h.2]
    rfl
  refine ⟨⟨h.1, ?_⟩, ?_⟩
  · rw [Marks.leave, List.length_set]
    exact h.2
  · have hopened : (m.leave 1 stop).opened.getD 1 .none = some pos := h.1
    rw [Marks.span?, hopened, hclosed]

/-- Of a match that begins with the first group, this group has matched a
    part from the start of the match on. -/
theorem ends_of_leadsWithGroup {text : Haystack} {e : Expr} (he : e.leadsWithGroup = true)
    {R : MatchState → Marks → Prop} {k : MatchState → Attempt Marks} {s : MatchState}
    (hk : ∀ s' stop, s'.marks = s.marks → s.pos ≤ stop →
      (k s').Ends (fun m => m.Entered s.pos ∧ m.span? 1 = some (s.pos, stop)) R)
    {m : Marks} (ho : 1 < m.opened.length) (hc : 1 < m.closed.length) {found : MatchState}
    {lasting : Marks} (h : e.matcher text s k m = (some found, lasting)) : R found lasting := by
  unfold Expr.leadsWithGroup at he
  split at he
  · next traced body rest =>
      obtain ⟨hbody, hrest⟩ := Bool.and_eq_true_iff.mp he
      have hends : (body.matcher text s fun s' m =>
          rest.matcher text s' k (m.leave 1 s'.pos)).Ends (Marks.Entered s.pos) R := by
        refine Expr.ends_of_plain hbody fun s' hs' hle m hm => ?_
        have hrest := Expr.leads (motion_marks text) (.inl hrest)
          (fun s'' hs'' => hk s'' s'.pos (hs''.trans hs') hle) _ (hm.leave s'.pos)
        rcases hm' : rest.matcher text s' k (m.leave 1 s'.pos) with ⟨_ | found, lasting⟩
        · rw [hm'] at hrest
          exact hrest.1
        · rw [hm'] at hrest
          exact hrest
      have hentered := hends _ (Marks.entered_enter ho hc s.pos)
      rw [Expr.matcher, Expr.matcher] at h
      change body.matcher text s (fun s' m => rest.matcher text s' k (m.leave 1 s'.pos))
        (m.enter 1 s.pos) = _ at h
      rw [h] at hentered
      exact hentered
  · exact absurd he Bool.false_ne_true

/-- A first group in front is a prefix, in every text. -/
theorem prefixedIn_of_leadsWithGroup {r : Regex} {p : Program} (hr : r.program = .ok p)
    (hp : p.leadsWithGroup = true) (text : Haystack) : PrefixedIn r text := by
  intro p' hp' pos m hm start stop hfirst
  obtain rfl : p' = p := Except.ok.inj (hp'.symm.trans hr)
  obtain ⟨hp, hlongest⟩ := Bool.and_eq_true_iff.mp hp
  obtain ⟨he, hgroups⟩ := Bool.and_eq_true_iff.mp hp
  have hgroups : p'.groups = 1 := of_decide_eq_true hgroups
  have hlongest : p'.longest = false := (Bool.not_eq_true' _).mp hlongest
  have hat := (Program.matchAt_of_search hm).2.2
  obtain ⟨found, lasting, hrun, hmatch⟩ := Program.unlimited_of_matchAt hlongest hat
  rw [hmatch] at hfirst
  suffices hspan : ∃ stop, m.start ≤ stop ∧ found.span? lasting 1 = some (m.start, stop) by
    obtain ⟨stop', hle, hspan⟩ := hspan
    obtain ⟨rfl, rfl⟩ := Prod.mk.inj (Option.some.inj (hfirst.symm.trans hspan))
    exact ⟨rfl, hle⟩
  rw [Program.unlimited?] at hrun
  split at hrun
  · next s marks hmatcher =>
      obtain ⟨rfl, rfl⟩ := Prod.mk.inj (Option.some.inj hrun)
      refine ends_of_leadsWithGroup he
        (R := fun s lasting => ∃ stop, m.start ≤ stop ∧ s.span? lasting 1 = some (m.start, stop))
        (fun s' stop hs' hle => ?_) ?_ ?_ hmatcher
      · rw [if_pos (Nat.zero_le _)]
        refine Attempt.ends_done fun m hm => ⟨stop, hle, ?_⟩
        rw [MatchState.span?, hs', hgroups]
        exact hm.2
      · rw [hgroups]
        decide
      · rw [hgroups]
        decide
  · cases hrun

end Highlighter.Regex
