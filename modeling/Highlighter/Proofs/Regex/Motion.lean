import Highlighter.Proofs.Regex.Retries

/-! # Where matching leads

    A match is a chain of attempts that hand on a state and the lasting
    marks, and an attempt that leads nowhere leaves its marks behind for
    the next one.  So what is known of marks has to hold on the way back as
    well: `Attempt.Ends` says what is known in either case.

    What is known of states is a relation between the one in front and the
    one behind.  A relation that holds across every single move
    (`Motion`) holds across expressions of any size (`Expr.leads`).  So
    matches never run over the end of the text
    (`Program.stop_le_of_matchAt`). -/

namespace Highlighter.Regex

-- ── What is known at the end ─────────────────────────────────────────────

/-- Under marks that satisfy `I` the attempt leads to a state and marks in
    the relation `R`, or nowhere, and then the marks still satisfy `I`. -/
def Attempt.Ends (I : Marks → Prop) (R : MatchState → Marks → Prop) (a : Attempt Marks) : Prop :=
  ∀ m, I m → match a m with
    | (some s, m') => R s m'
    | (none, m') => I m'

section Ends

variable {I : Marks → Prop} {R : MatchState → Marks → Prop}

theorem Attempt.ends_fail : Attempt.fail.Ends I R := fun _ hm => hm

theorem Attempt.ends_done {s : MatchState} (h : ∀ m, I m → R s m) : (Attempt.done s).Ends I R := h

theorem Attempt.Ends.orElse {a b : Attempt Marks} (ha : a.Ends I R) (hb : b.Ends I R) :
    (a.orElse b).Ends I R := by
  intro m hm
  have hma := ha m hm
  rw [Attempt.orElse]
  rcases ham : a m with ⟨_ | s, m'⟩
  · rw [ham] at hma
    exact hb m' hma
  · rw [ham] at hma
    exact hma

theorem Attempt.Ends.andThen {a : Attempt Marks} {k : MatchState → Attempt Marks}
    {P : MatchState → Prop} (ha : a.Ends I fun s m => P s ∧ I m) (hk : ∀ s, P s → (k s).Ends I R) :
    (a.andThen k).Ends I R := by
  intro m hm
  have hma := ha m hm
  rw [Attempt.andThen]
  rcases ham : a m with ⟨_ | s, m'⟩
  · rw [ham] at hma
    exact hma
  · rw [ham] at hma
    exact hk s hma.1 m' hma.2

theorem Attempt.Ends.ifFails {a b : Attempt Marks} (ha : a.Ends I fun _ m => I m)
    (hb : b.Ends I R) : (a.ifFails b).Ends I R := by
  intro m hm
  have hma := ha m hm
  rw [Attempt.ifFails]
  rcases ham : a m with ⟨_ | s, m'⟩
  · rw [ham] at hma
    exact hb m' hma
  · rw [ham] at hma
    exact hma

theorem Attempt.Ends.assert {P : MatchState → Prop} {found : Attempt Marks}
    {k : MatchState → Attempt Marks} {s : MatchState}
    (hfound : found.Ends I fun s' m => P s' ∧ I m) (hs : P s) (hk : ∀ s', P s' → (k s').Ends I R)
    (negated : Bool) : (Matcher.assert negated found s k).Ends I R := by
  cases negated with
  | true =>
      refine Attempt.Ends.ifFails (fun m hm => ?_) (hk s hs)
      have hfound := hfound m hm
      rcases hm' : found m with ⟨_ | s', m'⟩
      · rw [hm'] at hfound
        exact hfound
      · rw [hm'] at hfound
        exact hfound.2
  | false => exact hfound.andThen hk

end Ends

-- ── Motions ──────────────────────────────────────────────────────────────

/-- There is neither a group in the expression nor a reference to one. -/
def Expr.groupless : Expr → Bool
  | .empty | .one _ | .anchor _ => true
  | .seq a b | .alt a b => a.groupless && b.groupless
  | .loop body _ _ _ _ | .atomic body | .ahead _ body | .behind _ _ body => body.groupless
  | .capture .. | .again _ => false

/-- What comes after a matcher may rely on a state in this relation to the
    one in front, and on what is known of marks. -/
def Matcher.Leads (I : Marks → Prop) (ρ : MatchState → MatchState → Prop)
    (f : Matcher Marks) : Prop :=
  ∀ ⦃R : MatchState → Marks → Prop⦄ ⦃k : MatchState → Attempt Marks⦄ ⦃s : MatchState⦄,
    (∀ s', ρ s s' → (k s').Ends I R) → (f s k).Ends I R

/-- A relation between states that goes along with every move in a text. -/
structure Motion (text : Haystack) (ρ : MatchState → MatchState → Prop) : Prop where
  refl : ∀ s, ρ s s
  trans : ∀ {s s' s''}, ρ s s' → ρ s' s'' → ρ s s''
  /-- Over a character. -/
  next : ∀ {s}, s.pos < text.size → ρ s s.next
  /-- Forward and back again. -/
  ahead : ∀ {s s'}, ρ s s' → ρ s { s' with pos := s.pos }
  /-- Back, and forward to the same place. -/
  behind : ∀ {s s' back}, ρ { s with pos := s.pos - back, limit := s.pos } s' → s'.pos = s.pos →
    ρ s { s' with limit := s.limit }
  /-- Back, and forward to any place. -/
  earlier : ∀ {s s' back}, ρ { s with pos := s.pos - back } s' → ρ s s'

/-- The same where groups take part, and what is known of marks does too. -/
structure GroupMotion (text : Haystack) (I : Marks → Prop) (ρ : MatchState → MatchState → Prop) :
    Prop where
  fresh : ∀ {s s' index traced}, ρ (s.enter index traced) s' → ρ s (s'.leave index traced)
  again : ∀ {s s' lasting r}, s.refer? text lasting r = some s' → ρ s s'
  enter : ∀ {m index pos}, I m → I (m.enter index pos)
  leave : ∀ {m index pos}, I m → I (m.leave index pos)

section Motion

variable {text : Haystack} {I : Marks → Prop} {ρ : MatchState → MatchState → Prop}
  {body : Matcher Marks}

theorem Matcher.Leads.done (hbody : body.Leads I ρ) (s : MatchState) :
    (body s .done).Ends I fun s' m => ρ s s' ∧ I m :=
  hbody fun _ hs => Attempt.ends_done fun _ hm => ⟨hs, hm⟩

theorem Matcher.Leads.loop (hbody : body.Leads I ρ) (hρ : Motion text ρ) (greedy : Bool)
    (guard : Guard) (fuel : Nat) :
    ∀ min max, (Matcher.loop body greedy guard fuel min max).Leads I ρ := by
  induction fuel with
  | zero => exact fun _ _ _ _ _ _ => Attempt.ends_fail
  | succ fuel ih =>
      intro min max R k s hk
      have hturn : ∀ min max s', ρ s s' →
          Attempt.Ends I R (if guard.stops s s' then k s'
            else Matcher.loop body greedy guard fuel min max s' k) := by
        intro min max s' hs'
        split
        · exact hk s' hs'
        · exact ih min max fun s'' hs'' => hk s'' (hρ.trans hs' hs'')
      cases min with
      | succ min => exact hbody (hturn min _)
      | zero =>
          rcases max with _ | _ | max
          · have hmore := hbody (hturn 0 none)
            cases greedy with
            | true => exact hmore.orElse (hk s (hρ.refl s))
            | false => exact (hk s (hρ.refl s)).orElse hmore
          · exact hk s (hρ.refl s)
          · have hmore := hbody (hturn 0 (some max))
            cases greedy with
            | true => exact hmore.orElse (hk s (hρ.refl s))
            | false => exact (hk s (hρ.refl s)).orElse hmore

theorem Matcher.Leads.behind (hbody : body.Leads I ρ) (hρ : Motion text ρ) (s : MatchState)
    (further : Nat) :
    ∀ back, (Matcher.behind body s further back).Ends I fun s' m => ρ s s' ∧ I m := by
  have hattempt : ∀ back,
      (Matcher.behind.attempt body s back).Ends I fun s' m => ρ s s' ∧ I m := by
    intro back
    rw [Matcher.behind.attempt]
    split
    · refine hbody fun s' hs' => ?_
      split
      · next hpos => exact Attempt.ends_done fun _ hm => ⟨hρ.behind hs' hpos, hm⟩
      · exact Attempt.ends_fail
    · exact Attempt.ends_fail
  induction further with
  | zero => exact hattempt
  | succ further ih => exact fun back => (hattempt back).orElse (ih (back + 1))

theorem Matcher.Leads.earlier (hbody : body.Leads I ρ) (hρ : Motion text ρ) (s : MatchState)
    (back : Nat) : (Matcher.earlier body s back).Ends I fun s' m => ρ s s' ∧ I m := by
  rw [Matcher.earlier]
  split
  · exact hbody fun _ hs' => Attempt.ends_done fun _ hm => ⟨hρ.earlier hs', hm⟩
  · exact Attempt.ends_fail

/-- What goes along with every move goes along with whole expressions. -/
theorem Expr.leads (hρ : Motion text ρ) {e : Expr}
    (hgroups : e.groupless = true ∨ GroupMotion text I ρ) : (e.matcher text).Leads I ρ := by
  induction e with
  | empty => exact fun R k s hk => hk s (hρ.refl s)
  | one set =>
      intro R k s hk
      rw [Expr.matcher]
      split
      · split
        · next c hc =>
            split
            · exact hk s.next (hρ.next (Array.getElem?_eq_some_iff.mp hc).1)
            · exact Attempt.ends_fail
        · exact Attempt.ends_fail
      · exact Attempt.ends_fail
  | anchor a =>
      intro R k s hk
      rw [Expr.matcher]
      split
      · exact hk s (hρ.refl s)
      · exact Attempt.ends_fail
  | again r =>
      have hmotion := hgroups.resolve_left Bool.false_ne_true
      intro R k s hk m hm
      rw [Expr.matcher]
      cases hs : s.refer? text m r with
      | some s' =>
          simp only [Ledger.marks, hs]
          exact hk s' (hmotion.again hs) m hm
      | none =>
          simp only [Ledger.marks, hs]
          exact hm
  | capture index fresh traced body ih =>
      have hmotion := hgroups.resolve_left Bool.false_ne_true
      intro R k s hk
      cases fresh with
      | true =>
          rw [Expr.matcher]
          exact ih (.inr hmotion) fun s' hs' => hk _ (hmotion.fresh hs')
      | false =>
          rw [Expr.matcher]
          intro m hm
          refine ih (.inr hmotion)
            (k := fun s' l => k s' (Ledger.setMarks l ((Ledger.marks l).leave index s'.pos)))
            (fun s' hs' m' hm' => ?_) _ (hmotion.enter hm)
          exact hk s' hs' _ (hmotion.leave hm')
  | seq a b iha ihb =>
      rw [groupless, Bool.and_eq_true_iff] at hgroups
      intro R k s hk
      rw [Expr.matcher]
      refine iha (hgroups.imp_left And.left) fun s' hs' => ?_
      exact ihb (hgroups.imp_left And.right) fun s'' hs'' => hk s'' (hρ.trans hs' hs'')
  | alt a b iha ihb =>
      rw [groupless, Bool.and_eq_true_iff] at hgroups
      intro R k s hk
      rw [Expr.matcher]
      exact (iha (hgroups.imp_left And.left) hk).orElse (ihb (hgroups.imp_left And.right) hk)
  | loop body min max greedy guard ih =>
      intro R k s hk
      rw [Expr.matcher]
      exact (ih hgroups).loop hρ greedy guard _ min max hk
  | atomic body ih =>
      intro R k s hk
      rw [Expr.matcher]
      exact ((ih hgroups).done s).andThen hk
  | ahead negated body ih =>
      intro R k s hk
      rw [Expr.matcher]
      refine Attempt.Ends.assert (P := ρ s) ?_ (hρ.refl s) hk negated
      refine ((ih hgroups).done s).andThen fun s' hs' => ?_
      exact Attempt.ends_done fun _ hm => ⟨hρ.ahead hs', hm⟩
  | behind negated reach body ih =>
      intro R k s hk
      cases reach with
      | exactly n =>
          rw [Expr.matcher]
          exact ((ih hgroups).earlier hρ s n).assert (hρ.refl s) hk negated
      | between min max =>
          rw [Expr.matcher]
          exact ((ih hgroups).behind hρ s _ min).assert (hρ.refl s) hk negated

end Motion

-- ── The end of the text ──────────────────────────────────────────────────

/-- What repeats a stretch of the text is one too. -/
theorem Casing.repeatEnd?_le {casing : Casing} {text : Haystack} {count : Nat} :
    ∀ {start here room stop : Nat}, here ≤ text.size →
      casing.repeatEnd? text count start here room = some stop → stop ≤ text.size := by
  induction count with
  | zero =>
      intro start here room stop hle h
      obtain rfl := Option.some.inj h
      exact hle
  | succ count ih =>
      intro start here room stop hle h
      rw [repeatEnd?] at h
      split at h
      · next c d hc hd =>
          split at h
          · exact ih (Array.getElem?_eq_some_iff.mp hd).1 h
          · exact nomatch h
      · exact nomatch h

namespace MatchState

theorem pos_le_of_repeat? {text : Haystack} {casing : Casing} {s s' : MatchState}
    {start stop room : Nat} (h : s.repeat? text casing start stop room = some s')
    (hs : s.pos ≤ text.size) : s'.pos ≤ text.size := by
  obtain ⟨pos, hpos, rfl⟩ := Option.map_eq_some_iff.mp h
  exact Casing.repeatEnd?_le hs hpos

theorem pos_le_of_again? {text : Haystack} {lasting : Marks} {casing : Casing} {s s' : MatchState}
    {groups : List Nat} (h : s.again? text lasting casing groups = some s')
    (hs : s.pos ≤ text.size) : s'.pos ≤ text.size := by
  induction groups with
  | nil => exact nomatch h
  | cons group groups ih =>
      rw [again?] at h
      split at h
      · obtain ⟨h, -⟩ := Option.filter_eq_some_iff.mp h
        split at h
        · next s'' hs'' =>
            obtain rfl := Option.some.inj h
            exact pos_le_of_repeat? hs'' hs
        · exact ih h
      · exact ih h

theorem pos_le_of_refer? {text : Haystack} {lasting : Marks} {s s' : MatchState} {r : Reference}
    (h : s.refer? text lasting r = some s') (hs : s.pos ≤ text.size) : s'.pos ≤ text.size := by
  rw [refer?] at h
  split at h
  · exact pos_le_of_again? h hs
  · split at h
    · dsimp only at h
      split at h
      · obtain ⟨found, hfound, rfl⟩ := Option.map_eq_some_iff.mp h
        have hle : found.pos ≤ text.size := pos_le_of_repeat? hfound hs
        exact hle
      · exact nomatch h
    · exact nomatch h

theorem pos_pass (s : MatchState) (traced : Bool) (group : Nat) (leaving : Bool) :
    (s.pass traced group leaving).pos = s.pos := by
  cases traced <;> rfl

end MatchState

/-- No move leads over the end of the text. -/
theorem motion_inText (text : Haystack) :
    Motion text fun s s' => s.pos ≤ text.size → s'.pos ≤ text.size where
  refl _ h := h
  trans h h' hs := h' (h hs)
  next hs _ := hs
  ahead _ hs := hs
  behind _ hpos hs := hpos ▸ hs
  earlier h hs := h (Nat.le_trans (Nat.sub_le _ _) hs)

theorem groupMotion_inText (text : Haystack) :
    GroupMotion text (fun _ => True) fun s s' => s.pos ≤ text.size → s'.pos ≤ text.size where
  fresh h hs := by
    rw [MatchState.leave, MatchState.pos_pass]
    refine h ?_
    rw [MatchState.enter, MatchState.pos_pass]
    exact hs
  again := MatchState.pos_le_of_refer?
  enter _ := trivial
  leave _ := trivial

namespace Program

variable {p : Program} {text : Haystack} {pos : Nat}

theorem pos_le_of_run {least : Nat} {s : MatchState} {lasting : Marks}
    (h : p.run text pos least = .ok (some (s, lasting))) (hpos : pos ≤ text.size) :
    s.pos ≤ text.size := by
  have hunlimited := unlimited_of_run h
  have hends := Expr.leads (motion_inText text) (e := p.expr) (.inr (groupMotion_inText text))
    (R := fun s _ => s.pos ≤ text.size)
    (k := fun s => if least ≤ s.pos then .done s else .fail)
    (s := .start p.groups text.size pos)
    (fun s' hs' => by
      split
      · exact Attempt.ends_done fun _ _ => hs' hpos
      · exact Attempt.ends_fail)
    (.none p.groups) trivial
  rw [unlimited?] at hunlimited
  split at hunlimited
  · next s' lasting' hmatch =>
      obtain ⟨rfl, rfl⟩ := Prod.mk.inj (Option.some.inj hunlimited)
      rw [hmatch] at hends
      exact hends
  · cases hunlimited

/-- A match lies in the text. -/
theorem stop_le_of_matchAt {m : Match} (h : p.matchAt text pos = .ok (some m))
    (hpos : pos ≤ text.size) : m.stop ≤ text.size := by
  obtain ⟨least, s, lasting, hrun, rfl⟩ := exists_run_of_matchAt h
  exact pos_le_of_run hrun hpos

end Program

end Highlighter.Regex
