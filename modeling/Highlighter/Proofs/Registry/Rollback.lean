import Highlighter.Proofs.Registry.Growth
import Highlighter.Proofs.Registry.Operation

/-! # Loading that fails

    A document that cannot be loaded leaves no trace: not of the grammars
    it has added by then, nor of the names it has reserved, and names that
    were reserved before stay so.

    Taking back what was added goes by the numbers that names point to,
    which also ends the reservation of every name dropped.  That touches no
    older reservation because a reserved name is always a name of the
    table (`Catalog.Named`), which every operation keeps. -/

namespace Highlighter

namespace Catalog

/-- Every reserved name is in the table of names. -/
def Named (c : Catalog) : Prop := ∀ n ∈ c.reserved, n ∈ OrderedMap.names c.names

/-- More names and fewer reservations do no harm. -/
theorem Named.of_subset {c c' : Catalog} (h : c.Named)
    (hres : ∀ n ∈ c'.reserved, n ∈ c.reserved)
    (hnames : ∀ n ∈ OrderedMap.names c.names, n ∈ OrderedMap.names c'.names) : c'.Named :=
  fun n hn => hnames n (h n (hres n hn))

theorem Named.release {c : Catalog} (h : c.Named) (name : String) : (c.release name).Named :=
  h.of_subset (fun _ hn => (List.mem_filter.mp hn).1) fun _ hn => hn

theorem Named.point {c : Catalog} (h : c.Named) (name : String) (id : GrammarId) :
    (c.point name id).Named :=
  h.of_subset (fun _ hn => hn) fun _ hn => OrderedMap.mem_names_set.mpr (.inr hn)

theorem Named.setLanguage {c : Catalog} (h : c.Named) (name : String) (id : GrammarId) :
    (c.setLanguage name id).Named := by
  have hredirected : ∀ concerned old new, (c.redirect concerned old new).Named :=
    fun _ _ _ => h.of_subset (fun _ hn => hn) fun _ hn => hn
  refine Named.point (Named.release ?_ name) name id
  split
  · split
    · split
      · exact h
      · exact hredirected _ _ _
    · exact h
  · exact h

theorem Named.addLanguage {c : Catalog} (h : c.Named) (name : String) (g : Grammar) :
    (c.addLanguage name g).2.Named := by
  by_cases hname : name ∈ c.reserved
  · cases hplace : c.target? name with
    | none => exact absurd (h name hname) (OrderedMap.get?_eq_none_iff.mp hplace)
    | some place =>
        rw [addLanguage_of_reserved hname hplace]
        exact (h.release name).of_subset (fun _ hn => hn) fun _ hn => hn
  · rw [addLanguage_of_not_reserved hname]
    exact Named.point (h.of_subset (fun _ hn => hn) fun _ hn => hn) name _

theorem Named.addAlias {c : Catalog} (h : c.Named) (name other : String) :
    (c.addAlias name other).Named := by
  rw [Catalog.addAlias]
  split
  · exact h.setLanguage other _
  · exact h

theorem Named.foldl {α : Type} {f : Catalog → α → Catalog} (hf : ∀ c a, c.Named → (f c a).Named)
    {c : Catalog} (h : c.Named) (as : List α) : (as.foldl f c).Named := by
  induction as generalizing c with
  | nil => exact h
  | cons a as ih => exact ih (hf c a h)

theorem named_stepwise : Stepwise fun c c' => c.Named → c'.Named where
  refl c := id
  trans a b c hab hbc h := hbc (hab h)
  add c g h := h.of_subset (fun _ hn => hn) fun _ hn => hn
  link c name h := by
    cases hname : c.target? name with
    | some id =>
        rw [link_of_target? hname]
        exact h
    | none =>
        rw [link_of_target?_eq_none hname]
        intro n hn
        rw [OrderedMap.names, List.map_append]
        rcases List.mem_cons.mp hn with rfl | hn
        · exact List.mem_append_right _ (List.mem_singleton_self _)
        · exact List.mem_append_left _ (h n hn)

/-- A name is dropped with its reservation. -/
theorem Named.discard {c : Catalog} (h : c.Named) (count : Nat) : (c.discard count).Named := by
  intro n hn
  obtain ⟨hmem, hkept⟩ := List.mem_filter.mp hn
  obtain ⟨m, hm, rfl⟩ := List.mem_map.mp (h n hmem)
  refine List.mem_map_of_mem (List.mem_filter.mpr ⟨hm, ?_⟩)
  by_cases hlt : m.2 < count
  · exact decide_eq_true hlt
  · -- else the name was dropped, and its reservation is not kept
    have hdropped : m.1 ∈ OrderedMap.names (c.names.filter fun n => !decide (n.2 < count)) :=
      List.mem_map_of_mem (List.mem_filter.mpr ⟨hm, by simp [hlt]⟩)
    rw [List.contains_iff_mem.mpr hdropped] at hkept
    exact nomatch hkept

theorem Named.load {c : Catalog} (h : c.Named) (d : Document) : (c.load d).2.Named := by
  have hgrown := Load.grammar_keeps named_stepwise d.tokens c h
  rcases hloaded : Load.grammar d.tokens c with ⟨r, loaded⟩
  rw [hloaded] at hgrown
  cases r with
  | error e =>
      rw [load_of_error hloaded]
      exact Named.discard hgrown _
  | ok g =>
      rw [load_of_ok hloaded rfl]
      exact (Named.addLanguage hgrown d.name g).foldl (fun c name h => h.setLanguage name _) _

/-- What a document that cannot be loaded has added is taken back. -/
theorem load_restores {c c' : Catalog} (h : c.Named)
    (hin : ∀ n ∈ c.names, n.2 < c.grammars.length) {d : Document} {e : Error}
    (hload : c.load d = (.error e, c')) : c' = c := by
  have hgrown := Load.grammar_keeps grows_stepwise d.tokens c
  rcases hloaded : Load.grammar d.tokens c with ⟨r, loaded⟩
  rw [hloaded] at hgrown
  cases r with
  | error e' =>
      rw [load_of_error hloaded, discard_of_grows hgrown hin h] at hload
      exact (congrArg Prod.snd hload).symm
  | ok g =>
      rw [load_of_ok hloaded rfl] at hload
      exact nomatch congrArg Prod.fst hload

/-- Names that point elsewhere are names still. -/
theorem Named.of_names_eq {c c' : Catalog} (h : c.Named) (hres : c'.reserved = c.reserved)
    (hnames : OrderedMap.names c'.names = OrderedMap.names c.names) : c'.Named := by
  intro n hn
  rw [hnames]
  rw [hres] at hn
  exact h n hn

theorem copy_names {c c' : Catalog} {id new : GrammarId} (h : c.copy id = .ok (new, c')) :
    c'.names = c.names ∧ c'.reserved = c.reserved := by
  rw [copy] at h
  cases hcopy : deepCopy c.grammars id with
  | error e => rw [hcopy] at h; exact nomatch h
  | ok copied =>
      rw [hcopy] at h
      cases h
      exact ⟨rfl, rfl⟩

theorem insertBefore_names {c c' : Catalog} {id new : GrammarId} {anchor : Option String}
    {rules : List (String × Rule)} (h : c.insertBefore id anchor rules = .ok (new, c')) :
    OrderedMap.names c'.names = OrderedMap.names c.names ∧ c'.reserved = c.reserved := by
  rw [insertBefore] at h
  cases hg : grammarAt c.grammars id with
  | error e => rw [hg] at h; exact nomatch h
  | ok g =>
      cases hl : c.live with
      | error e => rw [hg, hl] at h; exact nomatch h
      | ok live =>
          rw [hg, hl] at h
          cases h
          refine ⟨?_, rfl⟩
          simp only [OrderedMap.names, List.map_map]
          rfl

end Catalog

namespace Registry

theorem extend_names {r r' : Registry} {language : String} {rules : List (String × Rule)}
    {new : GrammarId} (h : r.extend language rules = .ok (new, r')) :
    r'.catalog.names = r.catalog.names ∧ r'.catalog.reserved = r.catalog.reserved := by
  rw [extend] at h
  split at h
  · exact nomatch h
  · split at h
    · exact nomatch h
    · rename_i c' hcopy
      obtain ⟨hnames, hres⟩ := Catalog.copy_names hcopy
      cases h
      exact ⟨hnames, hres⟩

/-- An operation keeps reserved names in the table. -/
theorem run_named {r r' : Registry} {op : Operation} (h : r.catalog.Named)
    (hrun : op.run r = some r') : r'.catalog.Named := by
  cases op with
  | add g =>
      cases hrun
      exact Catalog.named_stepwise.add _ g h
  | setLanguage name id =>
      cases hrun
      exact h.setLanguage name id
  | addLanguage name g =>
      cases hrun
      exact h.addLanguage name g
  | addAlias name other =>
      cases hrun
      exact h.addAlias name other
  | addPlain aliases =>
      cases hrun
      exact (h.addLanguage plainName {}).foldl (fun c other h => h.addAlias plainName other) aliases
  | load d =>
      cases hrun
      exact h.load d
  | copy id =>
      rw [Operation.run] at hrun
      split at hrun
      · rename_i hcopied
        obtain ⟨hnames, hres⟩ := Catalog.copy_names hcopied
        cases hrun
        exact h.of_names_eq hres (congrArg OrderedMap.names hnames)
      · exact nomatch hrun
  | extend language rules =>
      rw [Operation.run] at hrun
      split at hrun
      · rename_i hextended
        obtain ⟨hnames, hres⟩ := extend_names hextended
        cases hrun
        exact h.of_names_eq hres (congrArg OrderedMap.names hnames)
      · exact nomatch hrun
  | insertBefore id anchor rules =>
      rw [Operation.run] at hrun
      split at hrun
      · rename_i hinserted
        obtain ⟨hnames, hres⟩ := Catalog.insertBefore_names hinserted
        cases hrun
        exact h.of_names_eq hres hnames
      · exact nomatch hrun
  | edit id f =>
      rw [Operation.run] at hrun
      split at hrun
      · cases hrun
        exact h.of_names_eq rfl rfl
      · exact nomatch hrun
  | configure hooks renderer =>
      cases hrun
      exact h

/-- In a reachable registry every reserved name is in the table. -/
theorem Reachable.named {r : Registry} (h : r.Reachable) : r.catalog.Named :=
  h.invariant (fun _ hn => nomatch hn) fun _ _ _ hr hrun => run_named hr hrun

/-- A document that cannot be loaded leaves the registry as it was. -/
theorem load_of_error {r r' : Registry} (hnamed : r.catalog.Named)
    (hin : ∀ n ∈ r.catalog.names, n.2 < r.catalog.grammars.length) {d : Document} {e : Error}
    (h : r.load d = (.error e, r')) : r' = r := by
  rcases hload : r.catalog.load d with ⟨result, c'⟩
  rw [load, hload] at h
  obtain ⟨rfl, rfl⟩ := Prod.mk.inj h
  rw [Catalog.load_restores hnamed hin hload]

/-- In a reachable registry whose names point to its grammars, a document
    that cannot be loaded, or a text that cannot be read as one, changes
    nothing: not the grammars, not the names and not what is reserved. -/
theorem load_failure_restores {r r' : Registry} (hr : r.Reachable)
    (hin : ∀ n ∈ r.catalog.names, n.2 < r.catalog.grammars.length) (e : Error) :
    (∀ d, r.load d = (.error e, r') → r' = r) ∧
      ∀ content, r.loadText content = (.error e, r') → r' = r := by
  refine ⟨fun d h => load_of_error hr.named hin h, fun content h => ?_⟩
  rw [loadText] at h
  cases hread : Document.ofString content with
  | ok d =>
      rw [hread] at h
      exact load_of_error hr.named hin h
  | error e' =>
      rw [hread] at h
      exact (congrArg Prod.snd h).symm

/-- A document that refers to two languages, one of them in a grammar
    written in place, and then has a pattern that is broken. -/
def brokenDocument (name known new : String) : Document :=
  { name
    tokens := .ofEntries
      [("outer", Document.one
        { pattern := "a+"
          inside := some (.inline
            [("inner", Document.one { pattern := "b", inside := some (.language known) })]
            (some (.language new))) }),
       ("late", Document.source "(")] }

/-- A language was referred to before; the document refers to it again, and
    to another one, before it fails. -/
theorem load_failure_restores_reserved :
    let r := (({} : Registry).load (.wordsOf "later" "b" [])).2
    let d := brokenDocument "c" "later" "ghost"
    r.Reachable ∧ (∀ n ∈ r.catalog.names, n.2 < r.catalog.grammars.length) ∧
      ∃ e, r.load d = (.error e, (r.load d).2) ∧ (r.load d).2 = r := by
  intro r d
  have hr : r.Reachable := .step (.load _) .empty rfl
  have hin : ∀ n ∈ r.catalog.names, n.2 < r.catalog.grammars.length := by decide
  exact ⟨hr, hin, _, rfl, (load_failure_restores hr hin _).1 d rfl⟩

end Registry

end Highlighter
