import Highlighter.Proofs.Grammar.Reachability
import Highlighter.Proofs.Tokenizer.Cutting

/-! # What a walk enters

    Going through grammars depth first is a matter of references only: a
    grammar entered before is passed by, another one is entered and its own
    references come next.  `Explores` says so as rules, with the grammars
    in the order of entering.

    The rules leave no choice (`Explores.unique`), so whoever follows them
    enters the same grammars in the same order; a walk does
    (`explores_of_reachable`).  What is entered from nothing is what the
    roots reach, each of it once (`Explores.mem_iff`, `Explores.nodup`). -/

namespace Highlighter

open Relation (ReflTransGen)

variable {gs : List Grammar}

/-- Starting with some grammars entered, references are followed in order,
    and other grammars are entered in the end. -/
inductive Explores (gs : List Grammar) :
    (entered refs final : List GrammarId) → Prop where
  | done {entered : List GrammarId} : Explores gs entered [] entered
  | known {entered refs final : List GrammarId} {a : GrammarId} (ha : a ∈ entered)
      (hrest : Explores gs entered refs final) : Explores gs entered (a :: refs) final
  | enter {entered refs between final : List GrammarId} {a : GrammarId} {g : Grammar}
      (ha : a ∉ entered) (hg : gs[a]? = some g)
      (hinside : Explores gs (entered ++ [a]) g.references between)
      (hrest : Explores gs between refs final) : Explores gs entered (a :: refs) final

namespace Explores

variable {entered refs final : List GrammarId}

/-- References may be followed in two parts. -/
theorem append {more between : List GrammarId} (h : Explores gs entered refs between)
    (h' : Explores gs between more final) : Explores gs entered (refs ++ more) final := by
  induction h with
  | done => exact h'
  | known ha _ ih => exact .known ha (ih h')
  | enter ha hg hinside _ _ ih => exact .enter ha hg hinside (ih h')

theorem of_append {more : List GrammarId} (h : Explores gs entered (refs ++ more) final) :
    ∃ between, Explores gs entered refs between ∧ Explores gs between more final := by
  induction refs generalizing entered with
  | nil => exact ⟨entered, .done, h⟩
  | cons a refs ih =>
      cases h with
      | known ha hrest =>
          obtain ⟨between, hrefs, hmore⟩ := ih hrest
          exact ⟨between, .known ha hrefs, hmore⟩
      | enter ha hg hinside hrest =>
          obtain ⟨between, hrefs, hmore⟩ := ih hrest
          exact ⟨between, .enter ha hg hinside hrefs, hmore⟩

/-- There is one way to follow references. -/
theorem unique {other : List GrammarId} (h : Explores gs entered refs final)
    (h' : Explores gs entered refs other) : final = other := by
  induction h generalizing other with
  | done =>
      cases h'
      rfl
  | known ha _ ih =>
      cases h' with
      | known _ hrest => exact ih hrest
      | enter hnot => exact absurd ha hnot
  | enter hnot hg _ _ ihinside ihrest =>
      cases h' with
      | known ha => exact absurd ha hnot
      | enter _ hg' hinside hrest =>
          obtain rfl := Option.some.inj (hg.symm.trans hg')
          obtain rfl := ihinside hinside
          exact ihrest hrest

/-- What was entered stays so, in its order. -/
theorem prefix_final (h : Explores gs entered refs final) : entered <+: final := by
  induction h with
  | done => exact List.prefix_rfl
  | known _ _ ih => exact ih
  | enter _ _ _ _ ihinside ihrest => exact ((List.prefix_append _ _).trans ihinside).trans ihrest

/-- No grammar is entered twice. -/
theorem nodup (h : Explores gs entered refs final) (hentered : entered.Nodup) : final.Nodup := by
  induction h with
  | done => exact hentered
  | known _ _ ih => exact ih hentered
  | enter ha _ _ _ ihinside ihrest =>
      refine ihrest (ihinside (List.nodup_append.mpr ⟨hentered, by simp, fun b hb c hc => ?_⟩))
      rintro rfl
      exact ha (List.mem_singleton.mp hc ▸ hb)

/-- Every reference that is followed leads to a grammar that is entered. -/
theorem mem_of_mem_refs (h : Explores gs entered refs final) {a : GrammarId} (ha : a ∈ refs) :
    a ∈ final := by
  induction h with
  | done => exact absurd ha List.not_mem_nil
  | known hmem hrest ih =>
      rcases List.mem_cons.mp ha with rfl | ha
      · exact hrest.prefix_final.subset hmem
      · exact ih ha
  | enter _ _ hinside hrest _ ih =>
      rcases List.mem_cons.mp ha with rfl | ha
      · have hfirst := hinside.prefix_final.subset (List.mem_append_right _ List.mem_cons_self)
        exact hrest.prefix_final.subset hfirst
      · exact ih ha

/-- What has been entered on the way exists, and all that it refers to is
    entered as well. -/
theorem refers_mem (h : Explores gs entered refs final) {a : GrammarId} (ha : a ∈ final)
    (hnot : a ∉ entered) :
    ∃ g, gs[a]? = some g ∧ ∀ b ∈ g.references, b ∈ final := by
  induction h with
  | done => exact absurd ha hnot
  | known _ _ ih => exact ih ha hnot
  | @enter entered refs between final b g _ hg hinside hrest ihinside ihrest =>
      by_cases hbetween : a ∈ between
      · by_cases hab : a = b
        · obtain rfl := hab
          exact ⟨g, hg, fun c hc => hrest.prefix_final.subset (hinside.mem_of_mem_refs hc)⟩
        · have hnew : a ∉ entered ++ [b] := by simp [hnot, hab]
          obtain ⟨g', hg', hrefs⟩ := ihinside hbetween hnew
          exact ⟨g', hg', fun c hc => hrest.prefix_final.subset (hrefs c hc)⟩
      · exact ihrest ha hbetween

/-- What is entered on the way is within reach. -/
theorem reaches_of_mem (h : Explores gs entered refs final) {a : GrammarId} (ha : a ∈ final) :
    a ∈ entered ∨ ∃ r ∈ refs, Reaches gs r a := by
  induction h with
  | done => exact .inl ha
  | known _ _ ih =>
      rcases ih ha with hmem | ⟨r, hr, hra⟩
      · exact .inl hmem
      · exact .inr ⟨r, List.mem_cons_of_mem _ hr, hra⟩
  | @enter entered refs between final b g _ hg _ _ ihinside ihrest =>
      rcases ihrest ha with hbetween | ⟨r, hr, hra⟩
      · rcases ihinside hbetween with hmem | ⟨r, hr, hra⟩
        · rcases List.mem_append.mp hmem with hmem | hmem
          · exact .inl hmem
          · rw [List.mem_singleton.mp hmem]
            exact .inr ⟨b, List.mem_cons_self, .refl⟩
        · exact .inr ⟨b, List.mem_cons_self, .head ⟨g, hg, hr⟩ hra⟩
      · exact .inr ⟨r, List.mem_cons_of_mem _ hr, hra⟩

theorem mem_of_refers (h : Explores gs [] refs final) {a b : GrammarId} (ha : a ∈ final)
    (hab : Refers gs a b) : b ∈ final := by
  obtain ⟨g, hg, hrefs⟩ := h.refers_mem ha List.not_mem_nil
  obtain ⟨g', hg', hb⟩ := hab
  obtain rfl := Option.some.inj (hg.symm.trans hg')
  exact hrefs b hb

/-- From nothing, exactly what the roots reach is entered. -/
theorem mem_iff (h : Explores gs [] refs final) {a : GrammarId} :
    a ∈ final ↔ ∃ r ∈ refs, Reaches gs r a := by
  constructor
  · intro ha
    exact (h.reaches_of_mem ha).resolve_left List.not_mem_nil
  · rintro ⟨r, hr, hra⟩
    induction hra with
    | refl => exact h.mem_of_mem_refs hr
    | tail _ hbc ih => exact h.mem_of_refers ih hbc

/-- What has been entered from nothing exists. -/
theorem lt_length (h : Explores gs [] refs final) {a : GrammarId} (ha : a ∈ final) :
    a < gs.length := by
  obtain ⟨g, hg, -⟩ := h.refers_mem ha List.not_mem_nil
  exact (List.getElem?_eq_some_iff.mp hg).1

end Explores

-- ── Walks ────────────────────────────────────────────────────────────────

namespace Walk

/-- The alternatives of a rule lead nowhere. -/
theorem filterMap_alternatives (hint : String) (n : Nat) (ps : List Pattern) :
    (alternatives hint n ps).filterMap Stop.grammar? = [] :=
  List.filterMap_eq_nil_iff.mpr fun _ hs => grammar?_of_mem_alternatives hs

/-- The stops of a rule are its references, in the same order. -/
theorem filterMap_stops (r : String × Rule) :
    (stops r).filterMap Stop.grammar? = r.2.references := by
  obtain ⟨name, rule⟩ := r
  cases rule with
  | grammar id => rfl
  | patterns ps =>
      have hrefs : ((Rule.references (.patterns ps)).map fun id =>
          Stop.reference "inside" id name).filterMap Stop.grammar?
            = Rule.references (.patterns ps) := by
        rw [List.filterMap_map]
        exact List.filterMap_some
      cases ps with
      | single p =>
          rw [stops, List.filterMap_append, hrefs]
          rfl
      | alternatives ps =>
          rw [stops, List.filterMap_append, hrefs, List.filterMap_cons_none rfl,
            filterMap_alternatives]
          rfl

theorem filterMap_rules (g : Grammar) :
    (g.rules.flatMap stops).filterMap Stop.grammar? = g.references := by
  rw [List.filterMap_flatMap, Grammar.references]
  exact congrArg (fun f => g.rules.flatMap f) (funext filterMap_stops)

/-- A walk explores what it has to meet. -/
theorem explores_of_run {entered unseen : List GrammarId} (pending : List Stop)
    (hvisits : ∀ v, .visit v ∈ pending → v.grammar? = none) (hnodup : unseen.Nodup)
    (hunseen : ∀ a, a ∈ unseen ↔ a < gs.length ∧ a ∉ entered) {vs : List Visit}
    (h : run gs unseen pending = .ok vs) :
    Explores gs entered (pending.filterMap Stop.grammar?)
      (entered ++ vs.filterMap Visit.grammar?) := by
  induction unseen, pending using run.induct gs generalizing entered vs with
  | case1 unseen =>
      rw [run] at h
      obtain rfl := Except.ok.inj h
      rw [List.filterMap_nil, List.filterMap_nil, List.append_nil]
      exact .done
  | case2 unseen v pending ih =>
      rw [run] at h
      obtain ⟨ws, hws, hvs⟩ := Tokenizer.exists_of_bind_ok h
      obtain rfl := Except.ok.inj hvs
      have hnone := hvisits v List.mem_cons_self
      rw [List.filterMap_cons_none hnone,
        List.filterMap_cons_none (show Stop.grammar? (.visit v) = none from hnone)]
      exact ih (fun w hw => hvisits w (List.mem_cons_of_mem _ hw)) hnodup hunseen hws
  | case3 unseen key id hint pending hnone =>
      rw [run, hnone] at h
      cases h
  | case4 unseen key id hint pending g hg hmem ih =>
      simp only [List.flatMap_subtype, List.unattach_attach] at ih
      rw [run, hg] at h
      simp only [hmem, if_true] at h
      obtain ⟨ws, hws, hvs⟩ := Tokenizer.exists_of_bind_ok h
      obtain rfl := Except.ok.inj hvs
      have hnext : ∀ v, .visit v ∈ g.rules.flatMap stops ++ pending → v.grammar? = none := by
        intro v hv
        rcases List.mem_append.mp hv with hv | hv
        · obtain ⟨r, -, hv⟩ := List.mem_flatMap.mp hv
          exact grammar?_of_visit_mem_stops hv
        · exact hvisits v (List.mem_cons_of_mem _ hv)
      have hleft : ∀ a, a ∈ unseen.erase id ↔ a < gs.length ∧ a ∉ entered ++ [id] := by
        intro a
        rw [hnodup.mem_erase_iff, hunseen a, List.mem_append, List.mem_singleton, not_or]
        constructor
        · rintro ⟨hne, hlt, hnot⟩
          exact ⟨hlt, hnot, hne⟩
        · rintro ⟨hlt, hnot, hne⟩
          exact ⟨hne, hlt, hnot⟩
      have hall := ih hnext (hnodup.erase id) hleft hws
      rw [List.filterMap_append, filterMap_rules, List.append_assoc] at hall
      obtain ⟨between, hinside, hrest⟩ := hall.of_append
      exact .enter ((hunseen id).mp hmem).2 hg hinside hrest
  | case5 unseen key id hint pending g hg hmem ih =>
      rw [run, hg] at h
      simp only [hmem, if_false] at h
      have hentered : id ∈ entered := by
        by_contra hnot
        exact hmem ((hunseen id).mpr ⟨(List.getElem?_eq_some_iff.mp hg).1, hnot⟩)
      exact .known hentered (ih (fun v hv => hvisits v (List.mem_cons_of_mem _ hv)) hnodup hunseen h)

end Walk

/-- A walk from named grammars starts with nothing entered. -/
theorem explores_of_walk {roots : List (String × GrammarId)} {vs : List Visit}
    (h : walk gs roots = .ok vs) :
    Explores gs [] (roots.map (·.2)) (vs.filterMap Visit.grammar?) := by
  have hrefs : (roots.map fun r => Walk.Stop.reference r.1 r.2 r.1).filterMap Walk.Stop.grammar?
      = roots.map (·.2) := by
    rw [List.filterMap_map]
    exact congrFun List.filterMap_eq_map roots
  have hall : Explores gs [] _ _ :=
    Walk.explores_of_run _ (fun v hv => ?_) List.nodup_range (fun a => ?_) h
  · rw [hrefs] at hall
    exact hall
  · obtain ⟨r, -, hr⟩ := List.mem_map.mp hv
    cases hr
  · rw [List.mem_range]
    exact (and_iff_left List.not_mem_nil).symm

theorem map_snd_unnamed (roots : List GrammarId) : (roots.map (("", ·))).map (·.2) = roots := by
  rw [List.map_map]
  exact List.map_id roots

/-- The grammars that are listed are those entered from nothing. -/
theorem explores_of_reachable {roots found : List GrammarId}
    (h : reachable gs roots = .ok found) : Explores gs [] roots found := by
  obtain ⟨vs, hvs, hids⟩ := Tokenizer.exists_of_bind_ok h
  obtain rfl := Except.ok.inj hids
  have hall := explores_of_walk hvs
  rw [map_snd_unnamed] at hall
  exact hall

/-- The grammars that roots can reach are listed with all that they refer
    to. -/
theorem reachable_complete {roots found : List GrammarId} (h : reachable gs roots = .ok found)
    {a b : GrammarId} (ha : a ∈ found) (hab : Refers gs a b) : b ∈ found :=
  (explores_of_reachable h).mem_of_refers ha hab

/-- In a closed arena walks succeed. -/
theorem exists_walk (h : Closed gs) {roots : List (String × GrammarId)}
    (hroots : ∀ r ∈ roots, r.2 < gs.length) : ∃ vs, walk gs roots = .ok vs := by
  have hsealed : Sealed gs (· < gs.length) :=
    fun _ b _ ⟨g, hg, hb⟩ => h g (List.mem_of_getElem? hg) b hb
  obtain ⟨vs, hvs, -⟩ := Walk.run_sealed hsealed (fun _ hlt => hlt) (List.range gs.length)
    (roots.map fun r => .reference r.1 r.2 r.1) (by
      intro s hs a ha
      obtain ⟨r, hr, rfl⟩ := List.mem_map.mp hs
      obtain rfl := Option.some.inj ha
      exact hroots r hr)
  exact ⟨vs, hvs⟩

/-- In a closed arena what the roots reach can be listed. -/
theorem exists_reachable (h : Closed gs) {roots : List GrammarId}
    (hroots : ∀ r ∈ roots, r < gs.length) : ∃ found, reachable gs roots = .ok found := by
  have hnamed : ∀ r ∈ roots.map (("", ·)), r.2 < gs.length := by
    intro r hr
    obtain ⟨id, hid, rfl⟩ := List.mem_map.mp hr
    exact hroots id hid
  obtain ⟨vs, hvs⟩ := exists_walk h hnamed
  refine ⟨vs.filterMap Visit.grammar?, ?_⟩
  rw [reachable, hvs]
  rfl

end Highlighter
