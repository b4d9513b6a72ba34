import Highlighter.Grammar.Copy
import Highlighter.Proofs.Grammar.Bisimulation
import Mathlib.Logic.Relation

/-! # Where references lead

    Grammars are `Closed` when every reference leads to one of them.  Then
    every grammar has entries, and what is inside of their patterns exists
    again (`Closed.entries`).

    A walk never leaves a set of grammars that is `Sealed`, and looks at no
    other grammar (`Walk.run_sealed`).  So what a grammar can reach can be
    listed in a closed arena, and the list is the same in every arena with
    the same grammars in those places (`reachable_of_closed`).  In the same
    way tokenizing looks only at what a grammar reaches
    (`bisimulation_of_sealed`). -/

namespace Highlighter

open Relation (ReflTransGen)

/-- Every reference leads to a grammar. -/
def Closed (gs : List Grammar) : Prop := ∀ g ∈ gs, ∀ a ∈ g.references, a < gs.length

/-- An arena stays closed when a grammar that refers into it is put in. -/
theorem Closed.set {gs : List Grammar} (h : Closed gs) (p : GrammarId) {g : Grammar}
    (hg : ∀ a ∈ g.references, a < gs.length) : Closed (gs.set p g) := by
  intro g' hg' a ha
  rw [List.length_set]
  rcases List.mem_or_eq_of_mem_set hg' with hg' | rfl
  · exact h g' hg' a ha
  · exact hg a ha

/-- All references of some rules lead to grammars. -/
def RulesWithin (count : Nat) (rules : List (String × Rule)) : Prop :=
  ∀ r ∈ rules, ∀ a ∈ r.2.references, a < count

variable {gs : List Grammar}

theorem rulesWithin_iff {count : Nat} {g : Grammar} :
    RulesWithin count g.rules ↔ ∀ a ∈ g.references, a < count := by
  constructor
  · intro h a ha
    obtain ⟨r, hr, har⟩ := List.mem_flatMap.mp ha
    exact h r hr a har
  · intro h r hr a ha
    exact h a (List.mem_flatMap.mpr ⟨r, hr, ha⟩)

theorem grammarAt_of_lt {id : GrammarId} (h : id < gs.length) :
    ∃ g ∈ gs, grammarAt gs id = .ok g := by
  refine ⟨gs[id], List.getElem_mem h, ?_⟩
  rw [grammarAt, List.getElem?_eq_getElem h]

/-- Merging puts rules in that were in either list. -/
theorem RulesWithin.overlay {count : Nat} {rules others : List (String × Rule)}
    (h : RulesWithin count rules) (h' : RulesWithin count others) :
    RulesWithin count (overlay rules others) := by
  intro r hr
  rcases List.mem_append.mp hr with hr | hr
  · obtain ⟨old, hold, rfl⟩ := List.mem_map.mp hr
    cases hget : OrderedMap.get? old.1 others with
    | none => exact h old hold
    | some rule => exact h' _ (OrderedMap.mem_of_get? hget)
  · exact h' r (List.mem_filter.mp hr).1

/-- In a closed arena the rules of a grammar, with its `rest` merged in,
    refer to grammars. -/
theorem Closed.mergedRules (h : Closed gs) {id : GrammarId} (hid : id < gs.length) :
    ∃ rules, mergedRules gs id = .ok rules ∧ RulesWithin gs.length rules := by
  obtain ⟨g, hg, hat⟩ := grammarAt_of_lt hid
  have hrules := rulesWithin_iff.mpr (h g hg)
  unfold Highlighter.mergedRules
  rw [hat]
  simp only [bind, Except.bind]
  split
  · next rest hrest =>
      have hlt := hrules _ (OrderedMap.mem_of_get? hrest) rest List.mem_cons_self
      obtain ⟨r, hr, hrat⟩ := grammarAt_of_lt hlt
      rw [hrat]
      refine ⟨_, rfl, fun rule hrule => ?_⟩
      exact hrules.overlay (rulesWithin_iff.mpr (h r hr)) rule (List.mem_filter.mp hrule).1
  · exact ⟨_, rfl, hrules⟩

/-- In a closed arena every grammar has entries, and the grammars inside of
    their patterns exist. -/
theorem Closed.entries (h : Closed gs) {id : GrammarId} (hid : id < gs.length) :
    ∃ es, entries gs id = .ok es ∧
      ∀ e ∈ es, ∀ p ∈ e.patterns, ∀ a, p.inside = some a → a < gs.length := by
  obtain ⟨rules, hrules, hwithin⟩ := h.mergedRules hid
  refine ⟨rules.filterMap Entry.ofRule?, by rw [Highlighter.entries, hrules]; rfl, ?_⟩
  intro e he p hp a ha
  obtain ⟨⟨name, rule⟩, hrule, hof⟩ := List.mem_filterMap.mp he
  cases rule with
  | grammar _ => cases hof
  | patterns ps =>
      obtain rfl := Option.some.inj hof
      exact hwithin _ hrule a (List.mem_filterMap.mpr ⟨p, hp, ha⟩)

-- ── Sealed sets ──────────────────────────────────────────────────────────

variable (gs) in
/-- A grammar refers to another one. -/
def Refers (a b : GrammarId) : Prop := ∃ g, gs[a]? = some g ∧ b ∈ g.references

theorem Refers.lt_length {a b : GrammarId} (h : Refers gs a b) : a < gs.length := by
  obtain ⟨g, hg, -⟩ := h
  exact (List.getElem?_eq_some_iff.mp hg).1

variable (gs) in
/-- References lead from a grammar to another one. -/
def Reaches : GrammarId → GrammarId → Prop := ReflTransGen (Refers gs)

variable (gs) in
/-- References do not lead out of a set of grammars. -/
def Sealed (S : GrammarId → Prop) : Prop := ∀ a b, S a → Refers gs a b → S b

theorem sealed_reaches (a : GrammarId) : Sealed gs (Reaches gs a) :=
  fun _ _ hb hbc => hb.tail hbc

/-- What does not reach a grammar refers to nothing that does. -/
theorem sealed_not_reaches (p : GrammarId) : Sealed gs fun a => ¬ Reaches gs a p :=
  fun _ _ ha hab hb => ha (.head hab hb)

theorem Closed.reaches_lt (h : Closed gs) {a b : GrammarId} (ha : a < gs.length)
    (hab : Reaches gs a b) : b < gs.length := by
  induction hab with
  | refl => exact ha
  | tail _ hbc _ =>
      obtain ⟨g, hg, hc⟩ := hbc
      exact h g (List.mem_of_getElem? hg) _ hc

/-- Patterns that refer within a relation's diagonal are alike. -/
theorem Pattern.Alike.of_inside {R : GrammarId → GrammarId → Prop} {p : Pattern}
    (h : ∀ a, p.inside = some a → R a a) : p.Alike R p := by
  refine ⟨p.inside, rfl, ?_⟩
  cases hi : p.inside with
  | none => exact .none
  | some a => exact .some (h a hi)

theorem Grammar.Alike.of_references {R : GrammarId → GrammarId → Prop} {g : Grammar}
    (h : ∀ a ∈ g.references, R a a) : g.Alike R g := by
  refine List.forall₂_same.mpr fun r hr => ⟨rfl, ?_⟩
  have hrefs : ∀ a ∈ r.2.references, R a a :=
    fun a ha => h a (List.mem_flatMap.mpr ⟨r, hr, ha⟩)
  cases hrule : r.2 with
  | grammar id =>
      rw [hrule] at hrefs
      exact .grammar (hrefs id List.mem_cons_self)
  | patterns ps =>
      rw [hrule] at hrefs
      have hall : ∀ p ∈ ps.toList, p.Alike R p := fun p hp =>
        .of_inside fun a ha => hrefs a (List.mem_filterMap.mpr ⟨p, hp, ha⟩)
      cases ps with
      | single p => exact .single (hall p List.mem_cons_self)
      | alternatives ps => exact .alternatives (List.forall₂_same.mpr hall)

/-- Two arenas with the same grammars in a sealed set. -/
theorem bisimulation_of_sealed {hs : List Grammar} {S : GrammarId → Prop} (hS : Sealed gs S)
    (hsame : ∀ a, S a → gs[a]? = hs[a]?) : Bisimulation gs hs fun a b => a = b ∧ S a := by
  rintro a _ ⟨rfl, ha⟩
  refine ⟨?_, fun _ => rfl⟩
  rw [← hsame a ha]
  cases hg : gs[a]? with
  | none => exact .none
  | some g => exact .some (.of_references fun b hb => ⟨rfl, hS a b ha ⟨g, hg, hb⟩⟩)

-- ── Walks ────────────────────────────────────────────────────────────────

namespace Walk

/-- The grammar that a stop enters or has entered. -/
def Stop.grammar? : Stop → Option GrammarId
  | .visit v => v.grammar?
  | .reference _ id _ => some id

theorem grammar?_of_mem_alternatives {hint : String} {n : Nat} {ps : List Pattern} {s : Stop}
    (h : s ∈ alternatives hint n ps) : s.grammar? = none := by
  induction ps generalizing n with
  | nil => exact nomatch h
  | cons p ps ih =>
      rcases List.mem_cons.mp h with rfl | h
      · rfl
      · exact ih h

/-- The stops of a rule lead where its references do. -/
theorem mem_references_of_mem_stops {r : String × Rule} {s : Stop} {a : GrammarId}
    (hs : s ∈ stops r) (ha : s.grammar? = some a) : a ∈ r.2.references := by
  obtain ⟨name, rule⟩ := r
  cases rule with
  | grammar id =>
      obtain rfl := List.mem_singleton.mp hs
      obtain rfl := Option.some.inj ha
      exact List.mem_cons_self
  | patterns ps =>
      simp only [stops, List.mem_append, List.mem_cons, List.mem_map] at hs
      rcases hs with (rfl | hs) | ⟨id, hid, rfl⟩
      · exact nomatch ha
      · cases ps with
        | single p => exact nomatch hs
        | alternatives ps => exact nomatch (grammar?_of_mem_alternatives hs).symm.trans ha
      · obtain rfl := Option.some.inj ha
        exact hid

/-- The stops of a rule that are no references enter nothing. -/
theorem grammar?_of_visit_mem_stops {r : String × Rule} {v : Visit} (h : .visit v ∈ stops r) :
    v.grammar? = none := by
  obtain ⟨name, rule⟩ := r
  cases rule with
  | grammar id => cases List.mem_singleton.mp h
  | patterns ps =>
      simp only [stops, List.mem_append, List.mem_cons, List.mem_map] at h
      rcases h with (h | h) | ⟨id, -, h⟩
      · obtain rfl := Stop.visit.inj h
        rfl
      · cases ps with
        | single p => cases h
        | alternatives ps => exact grammar?_of_mem_alternatives h
      · cases h

/-- A walk within a sealed set of grammars that exist meets grammars of the
    set only, and the same ones wherever those are. -/
theorem run_sealed {S : GrammarId → Prop} (hS : Sealed gs S) (hlt : ∀ a, S a → a < gs.length)
    (unseen : List GrammarId) (pending : List Stop)
    (hpending : ∀ s ∈ pending, ∀ a, s.grammar? = some a → S a) :
    ∃ vs, run gs unseen pending = .ok vs ∧ (∀ v ∈ vs, ∀ a, v.grammar? = some a → S a) ∧
      ∀ hs : List Grammar, (∀ a, S a → gs[a]? = hs[a]?) → run hs unseen pending = .ok vs := by
  induction unseen, pending using run.induct gs with
  | case1 unseen =>
      refine ⟨[], ?_, (fun v hv => nomatch hv), fun hs _ => ?_⟩
      · rw [run]
      · rw [run]
  | case2 unseen v pending ih =>
      obtain ⟨vs, hvs, hin, hsame⟩ := ih fun s hs => hpending s (List.mem_cons_of_mem _ hs)
      refine ⟨v :: vs, by rw [run, hvs]; rfl, ?_, fun hs h => by rw [run, hsame hs h]; rfl⟩
      intro w hw
      rcases List.mem_cons.mp hw with rfl | hw
      · exact hpending _ List.mem_cons_self
      · exact hin w hw
  | case3 unseen key id hint pending hnone =>
      have hid := hlt id (hpending _ List.mem_cons_self id rfl)
      rw [List.getElem?_eq_getElem hid] at hnone
      exact nomatch hnone
  | case4 unseen key id hint pending g hg hmem ih =>
      simp only [List.flatMap_subtype, List.unattach_attach] at ih
      have hid := hpending _ List.mem_cons_self id rfl
      have hnext : ∀ s ∈ g.rules.flatMap stops ++ pending, ∀ a, s.grammar? = some a → S a := by
        intro s hs a ha
        rcases List.mem_append.mp hs with hs | hs
        · obtain ⟨r, hr, hs⟩ := List.mem_flatMap.mp hs
          have href := mem_references_of_mem_stops hs ha
          exact hS id a hid ⟨g, hg, List.mem_flatMap.mpr ⟨r, hr, href⟩⟩
        · exact hpending s (List.mem_cons_of_mem _ hs) a ha
      obtain ⟨vs, hvs, hin, hsame⟩ := ih hnext
      refine ⟨⟨key, .grammar id, hint⟩ :: vs, ?_, ?_, fun hs h => ?_⟩
      · rw [run, hg]
        simp only [hmem, if_true, hvs]
        rfl
      · intro w hw a ha
        rcases List.mem_cons.mp hw with rfl | hw
        · obtain rfl := Option.some.inj ha
          exact hid
        · exact hin w hw a ha
      · rw [run, ← h id hid, hg]
        simp only [hmem, if_true, hsame hs h]
        rfl
  | case5 unseen key id hint pending g hg hmem ih =>
      have hid := hpending _ List.mem_cons_self id rfl
      obtain ⟨vs, hvs, hin, hsame⟩ := ih fun s hs => hpending s (List.mem_cons_of_mem _ hs)
      refine ⟨vs, ?_, hin, fun hs h => ?_⟩
      · rw [run, hg]
        simp only [hmem, if_false, hvs]
      · rw [run, ← h id hid, hg]
        simp only [hmem, if_false, hsame hs h]

end Walk

/-- In a closed arena the grammars that one can reach are listed, itself
    first; and the list is the same in an arena of the same size with the
    same grammars in those places. -/
theorem reachable_of_closed (h : Closed gs) {id : GrammarId} (hid : id < gs.length) :
    ∃ others, reachable gs [id] = .ok (id :: others) ∧ (∀ a ∈ id :: others, Reaches gs id a) ∧
      ∀ hs : List Grammar, hs.length = gs.length → (∀ a, Reaches gs id a → gs[a]? = hs[a]?) →
        reachable hs [id] = .ok (id :: others) := by
  -- the walk enters the grammar, and goes on with its rules
  have hroot : ∀ hs : List Grammar, hs.length = gs.length → ∀ g, hs[id]? = some g →
      reachable hs [id]
        = (Walk.run hs ((List.range gs.length).erase id) (g.rules.flatMap Walk.stops)).bind
            fun vs => .ok (id :: vs.filterMap Visit.grammar?) := by
    intro hs hlength g hg
    have hmem : id ∈ List.range gs.length := List.mem_range.mpr hid
    rw [reachable, walk, hlength]
    show (Walk.run hs (List.range gs.length) [.reference "" id ""] >>= _) = _
    rw [Walk.run, hg]
    simp only [hmem, if_true, List.append_nil, bind_assoc]
    rfl
  have hgs : gs[id]? = some gs[id] := List.getElem?_eq_getElem hid
  obtain ⟨vs, hvs, hin, hsame⟩ := Walk.run_sealed (sealed_reaches id)
    (fun _ ha => h.reaches_lt hid ha) ((List.range gs.length).erase id)
    (gs[id].rules.flatMap Walk.stops) fun s hs a ha => by
      obtain ⟨r, hr, hs⟩ := List.mem_flatMap.mp hs
      exact .single ⟨gs[id], hgs, List.mem_flatMap.mpr
        ⟨r, hr, Walk.mem_references_of_mem_stops hs ha⟩⟩
  refine ⟨vs.filterMap Visit.grammar?, ?_, ?_, ?_⟩
  · rw [hroot gs rfl _ hgs, hvs]
    rfl
  · intro a ha
    rcases List.mem_cons.mp ha with rfl | ha
    · exact .refl
    · obtain ⟨v, hv, hva⟩ := List.mem_filterMap.mp ha
      exact hin v hv a hva
  · intro hs hlength heq
    rw [hroot hs hlength _ ((heq id .refl).symm.trans hgs), hsame hs heq]
    rfl

end Highlighter
