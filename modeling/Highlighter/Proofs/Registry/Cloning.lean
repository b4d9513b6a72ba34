import Highlighter.Proofs.Registry.Copying
import Mathlib.Data.Set.Function
import Mathlib.Order.Interval.Set.Defs

/-! # Copying as one goes

    A copy can be made without knowing beforehand what there is to copy: an
    empty grammar is put at the end and noted as the copy, the references
    are followed, each to a copy that is noted already or is made now, and
    then the grammar is filled (`clone`).  References back to a grammar that
    is still empty are right, since its number is.

    `Progress` says what such a run does to the grammars: those that were
    there stay, empty ones among them, and what is new is filled with the
    references to copies.  It goes through the grammars as a walk does, so
    copying as one goes and copying what a walk has found come to the same,
    and no more depth is needed than there are grammars
    (`clone_eq_deepCopy`).

    So a copy is an image of what the original reaches: one grammar for
    each, with the references between them (`deepCopy_bijOn`). -/

namespace Highlighter

-- ── Changing references one after the other ──────────────────────────────

section References

variable {m : Type → Type} [Monad m]

/-- Changes the reference of a pattern. -/
def Pattern.mapInsideM (f : GrammarId → m GrammarId) (p : Pattern) : m Pattern :=
  match p.inside with
  | none => pure p
  | some id => do
      let new ← f id
      pure { p with inside := some new }

/-- Changes each of the patterns in order. -/
def Patterns.mapM (f : Pattern → m Pattern) : Patterns → m Patterns
  | .single p => do
      let p ← f p
      pure (.single p)
  | .alternatives ps => do
      let ps ← ps.mapM f
      pure (.alternatives ps)

/-- Changes every reference of a rule in order. -/
def Rule.mapReferencesM (f : GrammarId → m GrammarId) : Rule → m Rule
  | .patterns ps => do
      let ps ← ps.mapM (Pattern.mapInsideM f)
      pure (.patterns ps)
  | .grammar id => do
      let new ← f id
      pure (.grammar new)

/-- Changes every reference of a grammar in order. -/
def Grammar.mapReferencesM (f : GrammarId → m GrammarId) (g : Grammar) : m Grammar := do
  let rules ← g.rules.mapM fun r => do
    let rule ← r.2.mapReferencesM f
    pure (r.1, rule)
  pure ⟨rules⟩

end References

/-- Grammars while some of them are copied. -/
structure Cloning where
  grammars : List Grammar
  /-- The grammars met so far, with the numbers of their copies. -/
  copies : List (GrammarId × GrammarId) := []

/-- Puts an empty grammar at the end and notes it as the copy. -/
def Cloning.enter (s : Cloning) (id : GrammarId) : Cloning where
  grammars := s.grammars ++ [{}]
  copies := (id, s.grammars.length) :: s.copies

/-- Fills a grammar. -/
def Cloning.fill (s : Cloning) (id : GrammarId) (g : Grammar) : Cloning :=
  { s with grammars := s.grammars.set id g }

/-- Copies a grammar and all it refers to, unless that was done before.  It
    fails where there is no grammar, or where references are followed
    deeper than `depth`. -/
def clone : (depth : Nat) → GrammarId → StateT Cloning Option GrammarId
  | 0, _ => failure
  | depth + 1, id => do
      let s ← get
      match s.copies.lookup id with
      | some copy => pure copy
      | none => do
          set (s.enter id)
          let original ← (s.enter id).grammars[id]?
          let g ← original.mapReferencesM (clone depth)
          modify fun after => after.fill s.grammars.length g
          pure s.grammars.length

/-- A grammar that was met before has its copy. -/
theorem clone_of_some {depth : Nat} {id copy : GrammarId} {s : Cloning}
    (h : s.copies.lookup id = some copy) : clone (depth + 1) id s = some (copy, s) := by
  show (match s.copies.lookup id with
    | some copy => (pure copy : StateT Cloning Option GrammarId)
    | none => _) s = _
  rw [h]
  rfl

/-- A grammar that is met first is entered, and its copy filled after its
    references have been followed. -/
theorem clone_of_none {depth : Nat} {id : GrammarId} {g g' : Grammar} {s t : Cloning}
    (h : s.copies.lookup id = none) (hg : (s.enter id).grammars[id]? = some g)
    (hrun : g.mapReferencesM (clone depth) (s.enter id) = some (g', t)) :
    clone (depth + 1) id s = some (s.grammars.length, t.fill s.grammars.length g') := by
  show (match s.copies.lookup id with
    | some copy => (pure copy : StateT Cloning Option GrammarId)
    | none => _) s = _
  rw [h]
  have hread : (liftM (s.enter id).grammars[id]? : StateT Cloning Option Grammar) (s.enter id)
      = some (g, s.enter id) := by
    rw [hg]
    rfl
  show ((liftM (s.enter id).grammars[id]? : StateT Cloning Option Grammar) (s.enter id)).bind
    (fun p => (p.1.mapReferencesM (clone depth) p.2).bind _) = _
  rw [hread]
  show (g.mapReferencesM (clone depth) (s.enter id)).bind _ = _
  rw [hrun]
  rfl

variable {gs : List Grammar}

-- ── What copying does ────────────────────────────────────────────────────

/-- Some grammars have been met in turn: their copies are noted, and stand
    behind the grammars that were there. -/
structure Begun (gs : List Grammar) (entered : List GrammarId) (s : Cloning) : Prop where
  nodup : entered.Nodup
  lt : ∀ a ∈ entered, a < gs.length
  copies : ∀ a, s.copies.lookup a
    = if a ∈ entered then some (copyOf gs.length entered a) else none
  length : s.grammars.length = gs.length + entered.length
  kept : ∀ a < gs.length, s.grammars[a]? = gs[a]?

/-- More grammars have been met: what there was is as before, and the copies
    of the new ones are filled. -/
structure Progress (gs : List Grammar) (entered final : List GrammarId) (s s' : Cloning) :
    Prop where
  begun : Begun gs final s'
  same : ∀ i < s.grammars.length, s'.grammars[i]? = s.grammars[i]?
  filled : ∀ a ∈ final, a ∉ entered → ∃ g, gs[a]? = some g ∧
    s'.grammars[copyOf gs.length final a]? = some (g.mapReferences (copyOf gs.length final))

/-- No more grammars are met than there are. -/
theorem Begun.length_le {entered : List GrammarId} {s : Cloning} (h : Begun gs entered s) :
    entered.length ≤ gs.length := by
  have hsub : entered ⊆ List.range gs.length := fun a ha => List.mem_range.mpr (h.lt a ha)
  have hle := (List.subperm_of_subset h.nodup hsub).length_le
  rwa [List.length_range] at hle

theorem Begun.progress {entered : List GrammarId} {s : Cloning} (h : Begun gs entered s) :
    Progress gs entered entered s s where
  begun := h
  same _ _ := rfl
  filled _ ha hnot := absurd ha hnot

theorem Progress.trans {entered between final refs refs' : List GrammarId} {s t u : Cloning}
    (hs : Begun gs entered s) (h : Progress gs entered between s t)
    (hrefs : Explores gs entered refs between) (h' : Progress gs between final t u)
    (hrefs' : Explores gs between refs' final) : Progress gs entered final s u := by
  have hlength : s.grammars.length ≤ t.grammars.length := by
    rw [hs.length, h.begun.length]
    exact Nat.add_le_add_left hrefs.prefix_final.length_le _
  constructor
  case begun => exact h'.begun
  case same =>
    intro i hi
    rw [h'.same i (Nat.lt_of_lt_of_le hi hlength), h.same i hi]
  case filled =>
    intro a ha hnot
    by_cases hbetween : a ∈ between
    · obtain ⟨g, hg, hcopy⟩ := h.filled a hbetween hnot
      obtain ⟨g', hg', hinside⟩ := hrefs.refers_mem hbetween hnot
      obtain rfl := Option.some.inj (hg.symm.trans hg')
      -- all that the grammar refers to was met, so its references stay
      have hsame : g.mapReferences (copyOf gs.length final)
          = g.mapReferences (copyOf gs.length between) :=
        Grammar.mapReferences_congr fun b hb =>
          copyOf_extended hrefs'.prefix_final (hinside b hb)
      refine ⟨g, hg, ?_⟩
      rw [copyOf_extended hrefs'.prefix_final hbetween, hsame, ← hcopy]
      refine h'.same _ ?_
      rw [h.begun.length]
      exact copyOf_lt hbetween
    · exact h'.filled a ha hbetween

/-- A computation follows references, in order, and gives what a function
    makes of the copies that they come to.  Less than `depth` grammars may
    be left to be met. -/
structure Follows {α : Type} (gs : List Grammar) (depth : Nat) (refs : List GrammarId)
    (m : StateT Cloning Option α) (v : (GrammarId → GrammarId) → α) : Prop where
  congr : ∀ f f', (∀ a ∈ refs, f a = f' a) → v f = v f'
  run : ∀ entered s, Begun gs entered s → gs.length < entered.length + depth →
    ∃ final s', m s = some (v (copyOf gs.length final), s') ∧
      Progress gs entered final s s' ∧ Explores gs entered refs final

section Follows

variable {α β : Type} {depth : Nat}

theorem follows_pure (x : α) : Follows gs depth [] (pure x) fun _ => x where
  congr _ _ _ := rfl
  run entered s hs _ := ⟨entered, s, rfl, hs.progress, .done⟩

theorem Follows.bind {refs refs' : List GrammarId} {m : StateT Cloning Option α}
    {v : (GrammarId → GrammarId) → α} {k : α → StateT Cloning Option β}
    {w : α → (GrammarId → GrammarId) → β} (h : Follows gs depth refs m v)
    (h' : ∀ x, Follows gs depth refs' (k x) (w x)) :
    Follows gs depth (refs ++ refs') (m >>= k) fun f => w (v f) f where
  congr f f' hf := by
    obtain ⟨hrefs, hrefs'⟩ := List.forall_mem_append.mp hf
    rw [h.congr f f' hrefs]
    exact (h' _).congr f f' hrefs'
  run entered s hs hdepth := by
    obtain ⟨between, t, hm, hprogress, hexplores⟩ := h.run entered s hs hdepth
    have hle := hexplores.prefix_final.length_le
    obtain ⟨final, u, hk, hprogress', hexplores'⟩ :=
      (h' (v (copyOf gs.length between))).run between t hprogress.begun (by omega)
    have hvalue : v (copyOf gs.length between) = v (copyOf gs.length final) :=
      h.congr _ _ fun a ha => (copyOf_extended hexplores'.prefix_final
        (hexplores.mem_of_mem_refs ha)).symm
    refine ⟨final, u, ?_, hprogress.trans hs hexplores hprogress' hexplores',
      hexplores.append hexplores'⟩
    show (m s).bind (fun p => k p.1 p.2) = _
    rw [hm, ← hvalue]
    exact hk

theorem Follows.map {refs : List GrammarId} {m : StateT Cloning Option α}
    {v : (GrammarId → GrammarId) → α} (h : Follows gs depth refs m v) (u : α → β) :
    Follows gs depth refs (m >>= fun x => pure (u x)) fun f => u (v f) := by
  have hall := h.bind fun x => follows_pure (u x)
  rwa [List.append_nil] at hall

theorem follows_mapM {k : α → StateT Cloning Option β} {refs : α → List GrammarId}
    {w : α → (GrammarId → GrammarId) → β} (xs : List α)
    (h : ∀ x ∈ xs, Follows gs depth (refs x) (k x) (w x)) :
    Follows gs depth (xs.flatMap refs) (xs.mapM k) fun f => xs.map fun x => w x f := by
  induction xs with
  | nil => exact follows_pure []
  | cons x xs ih =>
      obtain ⟨hx, hxs⟩ := List.forall_mem_cons.mp h
      rw [List.mapM_cons, List.flatMap_cons]
      exact hx.bind fun y => (ih hxs).map (y :: ·)

/-- References are followed where the rule has them. -/
theorem follows_rule {k : GrammarId → StateT Cloning Option GrammarId} (r : Rule)
    (h : ∀ a ∈ r.references, Follows gs depth [a] (k a) fun f => f a) :
    Follows gs depth r.references (r.mapReferencesM k) r.mapReferences := by
  cases r with
  | grammar id => exact (h id List.mem_cons_self).map Rule.grammar
  | patterns ps =>
      have hpattern : ∀ p ∈ ps.toList, Follows gs depth p.inside.toList (p.mapInsideM k)
          fun f => { p with inside := p.inside.map f } := by
        intro p hp
        rw [Pattern.mapInsideM]
        cases hi : p.inside with
        | none =>
            have hself : ({ p with inside := none } : Pattern) = p := by rw [← hi]
            rw [show (fun f : GrammarId → GrammarId => ({ p with inside := Option.map f none }
              : Pattern)) = fun _ => p from funext fun _ => hself]
            exact follows_pure p
        | some a =>
            exact (h a (List.mem_filterMap.mpr ⟨p, hp, hi⟩)).map fun new =>
              { p with inside := some new }
      rw [Rule.references, List.filterMap_eq_flatMap_toList]
      cases ps with
      | single p =>
          have hp := (hpattern p List.mem_cons_self).map Patterns.single
          rw [show (Patterns.single p).toList.flatMap (fun p => p.inside.toList)
            = p.inside.toList from List.append_nil _]
          exact hp.map Rule.patterns
      | alternatives ps =>
          exact ((follows_mapM ps hpattern).map Patterns.alternatives).map Rule.patterns

/-- So they are in the rules of a grammar, one rule after the other. -/
theorem follows_grammar {k : GrammarId → StateT Cloning Option GrammarId} (g : Grammar)
    (h : ∀ a ∈ g.references, Follows gs depth [a] (k a) fun f => f a) :
    Follows gs depth g.references (g.mapReferencesM k) g.mapReferences := by
  have hrule : ∀ r ∈ g.rules, Follows gs depth r.2.references
      (do let rule ← r.2.mapReferencesM k; pure (r.1, rule))
      fun f => (r.1, r.2.mapReferences f) := fun r hr =>
    (follows_rule r.2 fun a ha => h a (List.mem_flatMap.mpr ⟨r, hr, ha⟩)).map (Prod.mk r.1)
  exact (follows_mapM g.rules hrule).map Grammar.mk

end Follows

/-- A grammar that is met first is put behind the others. -/
theorem Begun.enter {entered : List GrammarId} {s : Cloning} (h : Begun gs entered s)
    {a : GrammarId} (ha : a < gs.length) (hnot : a ∉ entered) :
    Begun gs (entered ++ [a]) (s.enter a) where
  nodup := by
    refine List.nodup_append.mpr ⟨h.nodup, List.nodup_singleton a, fun b hb c hc => ?_⟩
    rintro rfl
    exact hnot (List.mem_singleton.mp hc ▸ hb)
  lt b hb := by
    rcases List.mem_append.mp hb with hb | hb
    · exact h.lt b hb
    · rwa [List.mem_singleton.mp hb]
  copies b := by
    by_cases hba : b = a
    · subst hba
      rw [Cloning.enter, List.lookup_cons_self,
        if_pos (List.mem_append_right _ List.mem_cons_self), copyOf_concat hnot, h.length]
    · have hmem : b ∈ entered ++ [a] ↔ b ∈ entered := by simp [hba]
      rw [Cloning.enter, List.lookup_cons, beq_false_of_ne hba]
      simp only
      rw [h.copies b]
      by_cases hb : b ∈ entered
      · rw [if_pos hb, if_pos (hmem.mpr hb), copyOf_extended (List.prefix_append _ _) hb]
      · rw [if_neg hb, if_neg (mt hmem.mp hb)]
  length := by simp [Cloning.enter, h.length, Nat.add_assoc]
  kept b hb := by
    rw [Cloning.enter, List.getElem?_append_left (by rw [h.length]; omega)]
    exact h.kept b hb

/-- Once all that a grammar refers to is copied, its copy is filled. -/
theorem Progress.fill {entered final : List GrammarId} {s t : Cloning} {a : GrammarId} {g : Grammar}
    (hs : Begun gs entered s) (hnot : a ∉ entered) (hg : gs[a]? = some g)
    (hinside : Explores gs (entered ++ [a]) g.references final)
    (h : Progress gs (entered ++ [a]) final (s.enter a) t) :
    Progress gs entered final s
      (t.fill s.grammars.length (g.mapReferences (copyOf gs.length final))) := by
  have ha : a ∈ final :=
    hinside.prefix_final.subset (List.mem_append_right _ List.mem_cons_self)
  have hcopy : copyOf gs.length final a = s.grammars.length := by
    rw [copyOf_extended hinside.prefix_final (List.mem_append_right _ List.mem_cons_self),
      copyOf_concat hnot, hs.length]
  have hlt : s.grammars.length < t.grammars.length := by
    rw [← hcopy, h.begun.length]
    exact copyOf_lt ha
  constructor
  case begun =>
    refine { h.begun with length := ?_, kept := fun b hb => ?_ }
    · rw [Cloning.fill, List.length_set]
      exact h.begun.length
    · rw [Cloning.fill, List.getElem?_set_ne (by rw [hs.length]; omega)]
      exact h.begun.kept b hb
  case same =>
    intro i hi
    rw [Cloning.fill, List.getElem?_set_ne (Nat.ne_of_gt hi),
      h.same i (by simp [Cloning.enter]; omega)]
    exact List.getElem?_append_left hi
  case filled =>
    intro b hb hbnot
    by_cases hba : b = a
    · subst hba
      refine ⟨g, hg, ?_⟩
      rw [hcopy, Cloning.fill, List.getElem?_set_self hlt]
    · obtain ⟨g', hg', hfilled⟩ := h.filled b hb (by simp [hbnot, hba])
      have hother : s.grammars.length ≠ copyOf gs.length final b := by
        rw [← hcopy]
        exact fun heq => hba (copyOf_inj ha heq).symm
      exact ⟨g', hg', (List.getElem?_set_ne hother).trans hfilled⟩

/-- Copying a grammar follows the reference to it. -/
theorem follows_clone (h : Closed gs) (depth : Nat) {a : GrammarId} (ha : a < gs.length) :
    Follows gs depth [a] (clone depth a) fun f => f a := by
  refine ⟨fun f f' hf => hf a List.mem_cons_self, fun entered s hs hdepth => ?_⟩
  induction depth generalizing a entered s with
  | zero => exact absurd hs.length_le (Nat.not_le_of_gt hdepth)
  | succ depth ih =>
      by_cases hmem : a ∈ entered
      · -- it was met before, and the copy is noted
        have hcopy : s.copies.lookup a = some (copyOf gs.length entered a) := by
          rw [hs.copies, if_pos hmem]
        exact ⟨entered, s, clone_of_some hcopy, hs.progress, .known hmem .done⟩
      · have hnone : s.copies.lookup a = none := by rw [hs.copies, if_neg hmem]
        have hg : gs[a]? = some (gs.get ⟨a, ha⟩) := List.getElem?_eq_getElem ha
        have hbegun := hs.enter ha hmem
        have hrules := follows_grammar (gs.get ⟨a, ha⟩) fun b hb =>
          ⟨fun f f' hf => hf b List.mem_cons_self, fun entered s hs hdepth =>
            ih (h _ (List.get_mem gs ⟨a, ha⟩) b hb) entered s hs hdepth⟩
        obtain ⟨final, t, hrun, hprogress, hinside⟩ := hrules.run _ _ hbegun (by
          rw [List.length_append, List.length_singleton]
          omega)
        have hget : (s.enter a).grammars[a]? = some (gs.get ⟨a, ha⟩) := (hbegun.kept a ha).trans hg
        have hnew : copyOf gs.length final a = s.grammars.length := by
          rw [copyOf_extended hinside.prefix_final (List.mem_append_right _ List.mem_cons_self),
            copyOf_concat hmem, hs.length]
        refine ⟨final, _, ?_, hprogress.fill hs hmem hg hinside, .enter hmem hg hinside .done⟩
        rw [hnew]
        exact clone_of_none hnone hget hrun

-- ── Copies of what is reached ────────────────────────────────────────────

/-- Copies have numbers of their own, one after the other. -/
theorem bijOn_copyOf {copied : List GrammarId} (h : copied.Nodup) (start : Nat) :
    Set.BijOn (copyOf start copied) {a | a ∈ copied} (Set.Ico start (start + copied.length)) := by
  refine ⟨fun a ha => ⟨Nat.le_add_right _ _, copyOf_lt ha⟩, fun a ha b _ => copyOf_inj ha, ?_⟩
  rintro i ⟨hstart, hi⟩
  have hlt : i - start < copied.length := Nat.sub_lt_left_of_lt_add hstart hi
  refine ⟨copied[i - start], List.getElem_mem hlt, ?_⟩
  rw [copyOf, h.idxOf_getElem]
  exact Nat.add_sub_cancel' hstart

/-- Before anything is copied. -/
theorem begun_nil (gs : List Grammar) : Begun gs [] ⟨gs, []⟩ where
  nodup := List.nodup_nil
  lt _ ha := absurd ha List.not_mem_nil
  copies _ := (if_neg List.not_mem_nil).symm
  length := rfl
  kept _ _ := rfl

/-- When nothing was copied before, the copies come as they come when it is
    known what there is to copy. -/
theorem Progress.grammars_eq {final : List GrammarId} {s : Cloning}
    (h : Progress gs [] final ⟨gs, []⟩ s) : s.grammars = withCopies gs final := by
  have hlength := length_withCopies h.begun.lt
  refine List.ext_getElem? fun i => ?_
  by_cases hi : i ∈ Set.Ico gs.length (gs.length + final.length)
  · obtain ⟨a, ha, rfl⟩ := (bijOn_copyOf h.begun.nodup gs.length).surjOn hi
    obtain ⟨g, hg, hcopy⟩ := h.filled a ha List.not_mem_nil
    rw [hcopy, withCopies_copyOf h.begun.lt ha, hg]
    rfl
  · rcases Nat.lt_or_ge i gs.length with hlt | hge
    · exact (h.begun.kept i hlt).trans (withCopies_getElem? hlt).symm
    · have hend : gs.length + final.length ≤ i := Nat.le_of_not_lt fun hlt => hi ⟨hge, hlt⟩
      rw [List.getElem?_eq_none (h.begun.length.trans_le hend),
        List.getElem?_eq_none (hlength.trans_le hend)]

/-- Copying as one goes and copying what a walk has found come to the
    same. -/
theorem clone_eq_deepCopy (h : Closed gs) {id : GrammarId} (hid : id < gs.length)
    {found : List GrammarId} (hfound : reachable gs [id] = .ok found) {depth : Nat}
    (hdepth : gs.length < depth) :
    ∃ s, clone depth id ⟨gs, []⟩ = some (copyOf gs.length found id, s) ∧
      s.grammars = withCopies gs found := by
  obtain ⟨final, s, hclone, hprogress, hexplores⟩ :=
    (follows_clone h depth hid).run [] ⟨gs, []⟩ (begun_nil gs)
      (by rwa [List.length_nil, Nat.zero_add])
  obtain rfl := hexplores.unique (explores_of_reachable hfound)
  exact ⟨s, hclone, hprogress.grammars_eq⟩

/-- A copy comes about for every grammar, and following references comes to
    an end.  The grammars that were there stay, and every grammar that can
    be reached has one copy: its rules in their order, with every reference
    leading to the copy.  So no copy refers to an original. -/
theorem deepCopy_bijOn (h : Closed gs) {id : GrammarId} (hid : id < gs.length) :
    ∃ (gs' : List Grammar) (f : GrammarId → GrammarId),
      deepCopy gs id = .ok (f id, gs') ∧
      (∀ depth, gs.length < depth →
        ∃ s, clone depth id ⟨gs, []⟩ = some (f id, s) ∧ s.grammars = gs') ∧
      gs <+: gs' ∧
      Set.BijOn f {a | Reaches gs id a} (Set.Ico gs.length gs'.length) ∧
      (∀ a, Reaches gs id a → ∃ g, gs[a]? = some g ∧ gs'[f a]? = some (g.mapReferences f)) ∧
      ∀ b ∈ Set.Ico gs.length gs'.length, ∀ c, Refers gs' b c →
        c ∈ Set.Ico gs.length gs'.length := by
  have hroots : ∀ r ∈ [id], r < gs.length := fun r hr => by rwa [List.mem_singleton.mp hr]
  obtain ⟨found, hfound⟩ := exists_reachable h hroots
  have hexplores := explores_of_reachable hfound
  have hmem : ∀ a, a ∈ found ↔ Reaches gs id a := by
    intro a
    rw [hexplores.mem_iff]
    exact ⟨fun ⟨r, hr, hra⟩ => List.mem_singleton.mp hr ▸ hra,
      fun ha => ⟨id, List.mem_cons_self, ha⟩⟩
  have hlt : ∀ a ∈ found, a < gs.length := fun a ha => hexplores.lt_length ha
  have hbij := bijOn_copyOf (hexplores.nodup List.nodup_nil) gs.length
  have hcopies : ∀ a, Reaches gs id a → ∃ g, gs[a]? = some g ∧
      (withCopies gs found)[copyOf gs.length found a]?
        = some (g.mapReferences (copyOf gs.length found)) := by
    intro a ha
    obtain ⟨g, hg, -⟩ := hexplores.refers_mem ((hmem a).mpr ha) List.not_mem_nil
    refine ⟨g, hg, ?_⟩
    rw [withCopies_copyOf hlt ((hmem a).mpr ha), hg]
    rfl
  rw [← length_withCopies hlt, show {a | a ∈ found} = {a | Reaches gs id a} from Set.ext hmem]
    at hbij
  refine ⟨withCopies gs found, copyOf gs.length found, ?_,
    fun depth hdepth => clone_eq_deepCopy h hid hfound hdepth, List.prefix_append _ _, hbij,
    hcopies, ?_⟩
  · rw [deepCopy, hfound]
    rfl
  · rintro b hb c ⟨g', hg', hc⟩
    obtain ⟨a, ha, rfl⟩ := hbij.surjOn hb
    obtain ⟨g, hg, hcopy⟩ := hcopies a ha
    obtain rfl := Option.some.inj (hg'.symm.trans hcopy)
    -- a reference of a copy is that of its original, turned to the copy
    obtain ⟨d, hd, rfl⟩ := Grammar.mem_references_mapReferences hc
    exact hbij.mapsTo (ha.tail ⟨g, hg, hd⟩)

/-- Words and numbers with the same letters inside of them.  The letters have
    themselves inside and the words merged into them; comments are in no
    other grammar. -/
def sharedLetters : List Grammar :=
  [⟨[("token", .patterns (.alternatives
        [{ regex := Regex.ofStrings "[a-z]+" "", inside := some 1 },
          { regex := Regex.ofStrings "[0-9]+" "", inside := some 1 }]))]⟩,
    ⟨[("letter", .patterns (.single
        { regex := Regex.ofStrings "[a-z0-9]" "", inside := some 1 })),
      (restName, .grammar 0)]⟩,
    ⟨[("comment", .patterns (.single { regex := Regex.ofStrings "#.*" "", inside := some 0 }))]⟩]

/-- The letters are copied once, with references to copies in the place of
    those to themselves and to the words. -/
theorem deepCopy_bijOn_sharedLetters :
    (Closed sharedLetters ∧ 0 < sharedLetters.length) ∧
      ∃ (gs' : List Grammar) (f : GrammarId → GrammarId),
        deepCopy sharedLetters 0 = .ok (f 0, gs') ∧ sharedLetters <+: gs' ∧
        Set.BijOn f {a | Reaches sharedLetters 0 a} (Set.Ico 3 gs'.length) ∧
        ∃ g, gs'[f 1]? = some g ∧ g.references = [f 1, f 0] := by
  have hclosed : Closed sharedLetters := by
    intro g hg
    simp only [sharedLetters, List.mem_cons, List.not_mem_nil, or_false] at hg
    rcases hg with rfl | rfl | rfl <;> decide
  have hid : 0 < sharedLetters.length := Nat.succ_pos 2
  obtain ⟨gs', f, hcopy, -, hold, hbij, hcopies, -⟩ := deepCopy_bijOn hclosed hid
  have hletters : Reaches sharedLetters 0 1 := .single ⟨_, rfl, List.mem_cons_self⟩
  obtain ⟨g, hg, hg'⟩ := hcopies 1 hletters
  obtain rfl := Option.some.inj hg
  exact ⟨⟨hclosed, hid⟩, gs', f, hcopy, hold, hbij, _, hg', rfl⟩

end Highlighter
