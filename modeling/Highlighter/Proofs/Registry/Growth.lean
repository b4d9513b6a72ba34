import Highlighter.Registry.Load

/-! # What reading a document adds

    Making grammars of a document touches the catalog in two ways only: it
    adds grammars and it links names.  So a relation between catalogs that
    both of these make, and that holds of nothing done and of one thing
    after the other, holds between the catalog before and after, whether
    reading has failed or not (`Load.grammar_keeps`).

    The first such relation is `Grows`: grammars and names are added at the
    end, the new names are reserved and point to new grammars.  Of growth
    everything can be taken back, for what is new can be told from what was
    there by the number it points to (`discard_of_grows`). -/

namespace Highlighter

namespace Catalog

/-- A relation that adding a grammar and linking a name make, one after
    the other or not at all. -/
structure Stepwise (R : Catalog → Catalog → Prop) : Prop where
  refl : ∀ c, R c c
  trans : ∀ a b c, R a b → R b c → R a c
  add : ∀ c g, R c (c.add g).2
  link : ∀ c name, R c (c.link name).2

end Catalog

-- ── Work that keeps a relation ───────────────────────────────────────────

namespace Load

open Document (Reference Descriptor PatternForm PatternsForm)

variable {α β : Type}

/-- Work goes on with what came before it, unless that has failed. -/
theorem bind_apply (m : Load α) (f : α → Load β) (c : Catalog) :
    (m >>= f) c = match m c with
      | (.ok a, c') => f a c'
      | (.error e, c') => (.error e, c') := by
  show (ExceptT.bind m f) c = _
  unfold ExceptT.bind ExceptT.mk
  show (StateT.bind m _) c = _
  unfold StateT.bind
  rcases m c with ⟨r, c'⟩
  cases r <;> rfl

/-- Work after which the catalog is in a relation to the one before. -/
def Keeps (R : Catalog → Catalog → Prop) (m : Load α) : Prop := ∀ c, R c (m c).2

section Keeps

variable {R : Catalog → Catalog → Prop}

theorem Keeps.bind (hR : Catalog.Stepwise R) {m : Load α} {f : α → Load β} (hm : Keeps R m)
    (hf : ∀ a, Keeps R (f a)) : Keeps R (m >>= f) := by
  intro c
  have hc := hm c
  rw [bind_apply]
  rcases h : m c with ⟨r, c'⟩
  rw [h] at hc
  cases r with
  | error e => exact hc
  | ok a => exact hR.trans _ _ _ hc (hf a c')

theorem keeps_pure (hR : Catalog.Stepwise R) (a : α) : Keeps R (pure a : Load α) :=
  fun c => hR.refl c

theorem keeps_regex (hR : Catalog.Stepwise R) (source flags : String) :
    Keeps R (regex source flags) := by
  intro c
  unfold regex
  cases (Regex.ofStrings source flags).program <;> exact hR.refl c

mutual

theorem reference_keeps (hR : Catalog.Stepwise R) : ∀ r, Keeps R (reference r)
  | .language name => by
      rw [reference]
      exact fun c => hR.link c name
  | .inline entries rest => by
      rw [reference]
      refine (rules_keeps hR entries {}).bind hR fun g => ?_
      refine (restRule_keeps hR rest g).bind hR fun g => ?_
      exact fun c => hR.add c g

theorem rules_keeps (hR : Catalog.Stepwise R) : ∀ entries g, Keeps R (rules entries g)
  | [], g => by
      rw [rules]
      exact keeps_pure hR g
  | (name, ps) :: entries, g => by
      rw [rules]
      refine (patterns_keeps hR ps).bind hR fun ps => ?_
      exact rules_keeps hR entries _

theorem restRule_keeps (hR : Catalog.Stepwise R) : ∀ rest g, Keeps R (restRule rest g)
  | none, g => by
      rw [restRule]
      exact keeps_pure hR g
  | some r, g => by
      rw [restRule]
      exact (reference_keeps hR r).bind hR fun id => keeps_pure hR _

theorem patterns_keeps (hR : Catalog.Stepwise R) : ∀ ps, Keeps R (patterns ps)
  | .single p => by
      rw [patterns]
      exact (pattern_keeps hR p).bind hR fun p => keeps_pure hR _
  | .alternatives ps => by
      rw [patterns]
      exact (alternatives_keeps hR ps).bind hR fun ps => keeps_pure hR _

theorem alternatives_keeps (hR : Catalog.Stepwise R) : ∀ ps, Keeps R (alternatives ps)
  | [] => by
      rw [alternatives]
      exact keeps_pure hR []
  | p :: ps => by
      rw [alternatives]
      refine (pattern_keeps hR p).bind hR fun p => ?_
      exact (alternatives_keeps hR ps).bind hR fun ps => keeps_pure hR _

theorem pattern_keeps (hR : Catalog.Stepwise R) : ∀ p, Keeps R (pattern p)
  | .source source => by
      rw [pattern]
      exact (keeps_regex hR source "").bind hR fun regex => keeps_pure hR _
  | .descriptor ⟨source, flags, lookbehind, greedy, aliases, grammar⟩ => by
      rw [pattern]
      refine (keeps_regex hR source flags).bind hR fun regex => ?_
      exact (inside_keeps hR grammar).bind hR fun inside => keeps_pure hR _

theorem inside_keeps (hR : Catalog.Stepwise R) : ∀ r, Keeps R (inside r)
  | none => by
      rw [inside]
      exact keeps_pure hR none
  | some r => by
      rw [inside]
      exact (reference_keeps hR r).bind hR fun id => keeps_pure hR _

end

/-- Reading a document keeps what adding and linking keep. -/
theorem grammar_keeps (hR : Catalog.Stepwise R) (t : Document.Tokens) : Keeps R (grammar t) := by
  rw [grammar]
  exact (rules_keeps hR t.entries {}).bind hR fun g => restRule_keeps hR t.rest g

end Keeps

end Load

-- ── Growth ───────────────────────────────────────────────────────────────

namespace Catalog

/-- A catalog with more grammars and more names than another, all at the
    end; the new names are reserved and point to new grammars. -/
def Grows (c c' : Catalog) : Prop :=
  ∃ gs ns, c'.grammars = c.grammars ++ gs ∧ c'.names = c.names ++ ns ∧
    c'.reserved = (OrderedMap.names ns).reverse ++ c.reserved ∧
    ∀ n ∈ ns, n.1 ∉ OrderedMap.names c.names ∧ c.grammars.length ≤ n.2

theorem grows_stepwise : Stepwise Grows where
  refl c := ⟨[], [], by simp, by simp, by simp [OrderedMap.names], by simp⟩
  trans a b c := by
    rintro ⟨gs, ns, hg, hn, hr, hnew⟩ ⟨gs', ns', hg', hn', hr', hnew'⟩
    refine ⟨gs ++ gs', ns ++ ns', ?_, ?_, ?_, ?_⟩
    · rw [hg', hg, List.append_assoc]
    · rw [hn', hn, List.append_assoc]
    · rw [hr', hr, OrderedMap.names, OrderedMap.names, OrderedMap.names, List.map_append,
        List.reverse_append, List.append_assoc]
    · intro n hmem
      rcases List.mem_append.mp hmem with hmem | hmem
      · exact hnew n hmem
      · obtain ⟨hname, hid⟩ := hnew' n hmem
        rw [hn, OrderedMap.names, List.map_append] at hname
        rw [hg, List.length_append] at hid
        exact ⟨fun h => hname (List.mem_append_left _ h), by omega⟩
  add c g := ⟨[g], [], rfl, by simp [add], by simp [add, OrderedMap.names], by simp⟩
  link c name := by
    cases h : c.target? name with
    | some id =>
        rw [link_of_target? h]
        exact ⟨[], [], by simp, by simp, by simp [OrderedMap.names], by simp⟩
    | none =>
        rw [link_of_target?_eq_none h]
        refine ⟨[{}], [(name, c.grammars.length)], rfl, rfl, rfl, ?_⟩
        intro n hn
        obtain rfl := List.mem_singleton.mp hn
        exact ⟨OrderedMap.get?_eq_none_iff.mp h, Nat.le_refl _⟩

/-- What a catalog has grown by can be taken back, if its names point to
    its grammars and those reserved are among them. -/
theorem discard_of_grows {c c' : Catalog} (h : c.Grows c')
    (hin : ∀ n ∈ c.names, n.2 < c.grammars.length)
    (hres : ∀ n ∈ c.reserved, n ∈ OrderedMap.names c.names) :
    c'.discard c.grammars.length = c := by
  obtain ⟨gs, ns, hg, hn, hr, hnew⟩ := h
  have hold : ∀ n ∈ c.names, decide (n.2 < c.grammars.length) = true := fun n hmem =>
    decide_eq_true (hin n hmem)
  have hgone : ∀ n ∈ ns, ¬ decide (n.2 < c.grammars.length) = true := fun n hmem hlt =>
    absurd (of_decide_eq_true hlt) (Nat.not_lt.mpr (hnew n hmem).2)
  have hnames : c'.names.filter (fun n => decide (n.2 < c.grammars.length)) = c.names := by
    rw [hn, List.filter_append, List.filter_eq_self.mpr hold, List.filter_eq_nil_iff.mpr hgone,
      List.append_nil]
  have hdropped : c'.names.filter (fun n => !decide (n.2 < c.grammars.length)) = ns := by
    rw [hn, List.filter_append]
    have h₁ : c.names.filter (fun n => !decide (n.2 < c.grammars.length)) = [] :=
      List.filter_eq_nil_iff.mpr fun n hmem => by rw [hold n hmem]; exact Bool.noConfusion
    have h₂ : ns.filter (fun n => !decide (n.2 < c.grammars.length)) = ns :=
      List.filter_eq_self.mpr fun n hmem => by
        rw [Bool.eq_false_iff.mpr (hgone n hmem)]; rfl
    rw [h₁, h₂, List.nil_append]
  have hreserved : c'.reserved.filter (fun n => !(OrderedMap.names ns).contains n)
      = c.reserved := by
    rw [hr, List.filter_append]
    have h₁ : (OrderedMap.names ns).reverse.filter (fun n => !(OrderedMap.names ns).contains n)
        = [] := by
      refine List.filter_eq_nil_iff.mpr fun n hmem => ?_
      rw [List.contains_iff_mem.mpr (List.mem_reverse.mp hmem)]
      exact Bool.noConfusion
    have h₂ : c.reserved.filter (fun n => !(OrderedMap.names ns).contains n) = c.reserved := by
      refine List.filter_eq_self.mpr fun n hmem => ?_
      have hnot : n ∉ OrderedMap.names ns := by
        rw [OrderedMap.names, List.mem_map]
        rintro ⟨m, hm, rfl⟩
        exact (hnew m hm).1 (hres m.1 hmem)
      simpa using hnot
    rw [h₁, h₂, List.nil_append]
  have htake : c'.grammars.take c.grammars.length = c.grammars := by
    rw [hg, List.take_left]
  show ({ grammars := _, names := _, reserved := _ } : Catalog) = c
  rw [htake, hnames, hdropped, hreserved]

end Catalog

end Highlighter
