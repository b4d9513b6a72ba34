import Highlighter.Proofs.OrderedMap
import Highlighter.Proofs.Registry.Copying
import Highlighter.Proofs.Registry.Giving
import Highlighter.Proofs.Registry.Rollback

/-! # What operations do to a catalog

    Each of the operations comes down to a few changes of the tables, said
    here once: giving a name turns references, or fills a place, or only
    points the name (`Catalog.setLanguage_cases`,
    `Catalog.addLanguage_cases`); a load reads, and then gives names or
    drops what was read (`Catalog.load_cases`); copying, extending and
    inserting add grammars at the end (`Catalog.copy_cases`,
    `Registry.extend_cases`, `Catalog.insertBefore_cases`).  What every one
    of them keeps is proved from these cases.

    The rules of a derived grammar are those of the one it comes from and
    those that are given (`mem_rules_inserted`).  A language stays one
    whatever names are given and documents loaded (`IsLanguage.load`). -/

namespace Highlighter

-- ── Rules of derived grammars ────────────────────────────────────────────

/-- A rule of a grammar with rules inserted is its own or an inserted one. -/
theorem mem_rules_inserted {g : Grammar} {anchor : Option String} {rules : List (String × Rule)}
    {r : String × Rule} (h : r ∈ (Catalog.inserted g anchor rules).rules) :
    r ∈ g.rules ∨ r ∈ rules := by
  cases anchor with
  | none => exact OrderedMap.mem_setAll h
  | some name =>
      simp only [Catalog.inserted] at h
      split at h
      · rcases OrderedMap.mem_setAll h with h | h
        · rcases OrderedMap.mem_setAll h with h | h
          · exact .inl ((List.takeWhile_prefix _).subset h)
          · exact .inr h
        · exact .inl ((List.dropWhile_suffix _).subset h)
      · exact OrderedMap.mem_setAll h

/-- A grammar with rules inserted is empty when it was and none are. -/
theorem inserted_eq_empty_iff {g : Grammar} {anchor : Option String}
    {rules : List (String × Rule)} :
    Catalog.inserted g anchor rules = {} ↔ g = {} ∧ rules = [] := by
  have hempty : ∀ h : Grammar, h = {} ↔ h.rules = [] := fun h =>
    ⟨fun heq => congrArg Grammar.rules heq, fun heq => congrArg Grammar.mk heq⟩
  have hset : ∀ h : Grammar, h.setAll rules = {} ↔ h = {} ∧ rules = [] := fun h => by
    rw [hempty, hempty]
    exact OrderedMap.setAll_eq_nil_iff
  cases anchor with
  | none => exact hset g
  | some name =>
      simp only [Catalog.inserted]
      split
      · next hname =>
          -- the anchor is a rule, so the grammar is not empty
          have hrules : g.rules ≠ [] := by
            intro hnil
            simp [Grammar.names, OrderedMap.names, hnil] at hname
          rw [hempty, hempty]
          refine iff_of_false (fun h => hrules ?_) fun h => hrules h.1
          obtain ⟨hfront, hback⟩ := OrderedMap.setAll_eq_nil_iff.mp h
          obtain ⟨hfront, -⟩ := OrderedMap.setAll_eq_nil_iff.mp hfront
          rw [← List.takeWhile_append_dropWhile (p := fun r => r.1 != name) (l := g.rules)]
          exact List.append_eq_nil_iff.mpr ⟨hfront, hback⟩
      · exact hset g

theorem Grammar.mapReferences_eq_empty_iff {f : GrammarId → GrammarId} {g : Grammar} :
    g.mapReferences f = {} ↔ g = {} := by
  obtain ⟨rules⟩ := g
  cases rules with
  | nil => exact Iff.rfl
  | cons r rules =>
      refine iff_of_false (fun h => ?_) fun h => ?_
      · exact List.cons_ne_nil _ _ (congrArg Grammar.rules h)
      · exact List.cons_ne_nil _ _ (congrArg Grammar.rules h)

/-- A grammar whose own references stay what they are does not change. -/
theorem Grammar.mapReferences_of_references {f : GrammarId → GrammarId} {g : Grammar}
    (h : ∀ a ∈ g.references, f a = a) : g.mapReferences f = g :=
  (mapReferences_congr h).trans (mapReferences_eq_self (fun _ => rfl) g)

-- ── Grammars that were changed ───────────────────────────────────────────

theorem mem_modify {gs : List Grammar} {id : GrammarId} {f : Grammar → Grammar} {g : Grammar}
    (h : g ∈ gs.modify id f) : ∃ old ∈ gs, g = old ∨ g = f old := by
  obtain ⟨i, hi⟩ := List.mem_iff_getElem?.mp h
  rw [List.getElem?_modify] at hi
  obtain ⟨old, hold, rfl⟩ := Option.map_eq_some_iff.mp hi
  refine ⟨old, List.mem_of_getElem? hold, ?_⟩
  split
  · exact .inr rfl
  · exact .inl rfl

theorem mem_withCopies {gs : List Grammar} {copied : List GrammarId} {g : Grammar}
    (h : g ∈ withCopies gs copied) :
    g ∈ gs ∨ ∃ a ∈ copied, ∃ old, gs[a]? = some old ∧
      g = old.mapReferences (copyOf gs.length copied) := by
  rcases List.mem_append.mp h with h | h
  · exact .inl h
  · obtain ⟨a, ha, hcopy⟩ := List.mem_filterMap.mp h
    obtain ⟨old, hold, rfl⟩ := Option.map_eq_some_iff.mp hcopy
    exact .inr ⟨a, ha, old, hold, rfl⟩

theorem Catalog.mem_redirect {c : Catalog} {concerned : GrammarId → Bool} {old new : GrammarId}
    {g : Grammar} (h : g ∈ (c.redirect concerned old new).grammars) :
    ∃ before ∈ c.grammars, g = before ∨
      g = before.mapReferences fun id => if id = old then new else id := by
  obtain ⟨i, hi, rfl⟩ := List.mem_mapIdx.mp h
  refine ⟨_, List.getElem_mem hi, ?_⟩
  split
  · exact .inr rfl
  · exact .inl rfl

-- ── Giving names ─────────────────────────────────────────────────────────

namespace Catalog

theorem not_mem_release (c : Catalog) (name : String) : name ∉ (c.release name).reserved :=
  fun h => Bool.false_ne_true ((bne_self_eq_false name).symm.trans (List.mem_filter.mp h).2)

theorem mem_release_iff {c : Catalog} {name n : String} :
    n ∈ (c.release name).reserved ↔ n ∈ c.reserved ∧ n ≠ name := by
  rw [release, List.mem_filter, bne_iff_ne]

/-- Making a grammar a language points the name; a name that is reserved
    for another one has the references to that turned first. -/
theorem setLanguage_cases (c : Catalog) (name : String) (id : GrammarId) :
    c.setLanguage name id = (c.release name).point name id ∨
      ∃ place, name ∈ c.reserved ∧ c.target? name = some place ∧ c.setLanguage name id
        = ((c.redirect (fun _ => true) place id).release name).point name id := by
  by_cases hname : name ∈ c.reserved
  · cases hplace : c.target? name with
    | none =>
        refine .inl ?_
        rw [setLanguage, List.contains_iff_mem.mpr hname]
        simp only [if_true, hplace]
    | some place =>
        by_cases hid : place = id
        · refine .inl ?_
          rw [setLanguage, List.contains_iff_mem.mpr hname]
          simp only [if_true, hplace, hid]
        · exact .inr ⟨place, hname, rfl, setLanguage_of_reserved hname hplace hid⟩
  · refine .inl ?_
    rw [setLanguage_of_not_reserved hname, release_of_not_reserved hname]

/-- Adding a language fills the place of its name, or adds the grammar at
    the end and points the name there. -/
theorem addLanguage_cases (c : Catalog) (name : String) (g : Grammar) :
    (∃ place, name ∈ c.reserved ∧ c.target? name = some place ∧
      c.addLanguage name g = (place, { c.release name with grammars := c.grammars.set place g })) ∨
    c.addLanguage name g
      = (c.grammars.length, ((c.release name).add g).2.point name c.grammars.length) := by
  have hnew : (((c.release name).add g).2.setLanguage name c.grammars.length)
      = ((c.release name).add g).2.point name c.grammars.length :=
    setLanguage_of_not_reserved (c := ((c.release name).add g).2) (not_mem_release c name) _
  by_cases hname : name ∈ c.reserved
  · cases hplace : c.target? name with
    | none =>
        refine .inr ?_
        rw [addLanguage, List.contains_iff_mem.mpr hname, hplace]
        exact congrArg (Prod.mk _) hnew
    | some place => exact .inl ⟨place, hname, rfl, addLanguage_of_reserved hname hplace g⟩
  · refine .inr ?_
    rw [addLanguage_of_not_reserved hname, release_of_not_reserved hname]

/-- An alias of a language is one more name of its grammar. -/
theorem addAlias_cases (c : Catalog) (name other : String) :
    c.addAlias name other = c ∨
      ∃ id, c.grammarId? name = some id ∧ c.addAlias name other = c.setLanguage other id := by
  rw [addAlias]
  split
  · next id hid => exact .inr ⟨id, hid, rfl⟩
  · exact .inl rfl

/-- Loading reads the tokens.  If that fails, what was added is dropped; if
    not, the names are given to the grammar. -/
theorem load_cases (c : Catalog) (d : Document) :
    (∃ e l, Load.grammar d.tokens c = (.error e, l) ∧
      c.load d = (.error e, l.discard c.grammars.length)) ∨
    ∃ g l, Load.grammar d.tokens c = (.ok g, l) ∧
      c.load d = (.ok (l.addLanguage d.name g).1,
        d.aliases.foldl (fun c name => c.setLanguage name (l.addLanguage d.name g).1)
          (l.addLanguage d.name g).2) := by
  rcases hrun : Load.grammar d.tokens c with ⟨result, l⟩
  cases result with
  | error e => exact .inl ⟨e, l, rfl, load_of_error hrun⟩
  | ok g => exact .inr ⟨g, l, rfl, load_of_ok hrun rfl⟩

-- ── Languages ────────────────────────────────────────────────────────────

/-- A language is a name that a grammar is found for. -/
theorem exists_grammarId?_iff {c : Catalog} {n : String} :
    (∃ id, c.grammarId? n = some id) ↔ n ∈ c.languages := by
  rw [mem_languages_iff]
  constructor
  · rintro ⟨id, hid⟩
    exact ⟨OrderedMap.mem_names_of_get? (Registry.target?_of_grammarId? hid),
      Registry.not_reserved_of_grammarId? hid⟩
  · intro h
    rw [h.grammarId?]
    exact OrderedMap.exists_get?_of_mem_names h.1

theorem grammarId?_eq_none_iff {c : Catalog} {n : String} :
    c.grammarId? n = none ↔ n ∉ c.languages := by
  rw [← exists_grammarId?_iff, Option.eq_none_iff_forall_ne_some, not_exists]

section IsLanguage

variable {c : Catalog} {n : String}

theorem IsLanguage.release (h : c.IsLanguage n) (name : String) : (c.release name).IsLanguage n :=
  ⟨h.1, fun hn => h.2 (mem_release_iff.mp hn).1⟩

theorem IsLanguage.point (h : c.IsLanguage n) (name : String) (id : GrammarId) :
    (c.point name id).IsLanguage n :=
  ⟨OrderedMap.mem_names_set.mpr (.inr h.1), h.2⟩

/-- A language stays one when a name is given. -/
theorem IsLanguage.setLanguage (h : c.IsLanguage n) (name : String) (id : GrammarId) :
    (c.setLanguage name id).IsLanguage n := by
  rcases setLanguage_cases c name id with heq | ⟨place, -, -, heq⟩
  · rw [heq]
    exact (h.release name).point name id
  · -- turning references changes no name
    have hturned : (c.redirect (fun _ => true) place id).IsLanguage n := h
    rw [heq]
    exact (hturned.release name).point name id

theorem IsLanguage.addLanguage (h : c.IsLanguage n) (name : String) (g : Grammar) :
    (c.addLanguage name g).2.IsLanguage n := by
  rcases addLanguage_cases c name g with ⟨place, -, -, heq⟩ | heq
  · rw [heq]
    exact h.release name
  · have hadded : ((c.release name).add g).2.IsLanguage n := h.release name
    rw [heq]
    exact hadded.point name _

/-- A language stays one when a document is loaded. -/
theorem IsLanguage.load (h : c.IsLanguage n) {d : Document} {id : GrammarId} {c' : Catalog}
    (hload : c.load d = (.ok id, c')) : c'.IsLanguage n := by
  rcases load_cases c d with ⟨e, l, -, heq⟩ | ⟨g, l, hrun, heq⟩
  · cases hload.symm.trans heq
  · obtain rfl := (Prod.mk.inj (hload.symm.trans heq)).2
    have hgrows : c.Grows l := by
      have hkept := Load.grammar_keeps grows_stepwise d.tokens c
      rwa [hrun] at hkept
    have hadded := (hgrows.isLanguage_iff.mpr h).addLanguage d.name g
    exact d.aliases.foldlRecOn (motive := fun c : Catalog => c.IsLanguage n) _ hadded
      fun c hc name _ => hc.setLanguage name _

end IsLanguage

-- ── Deriving grammars ────────────────────────────────────────────────────

/-- A copy adds a copy of every grammar that can be reached. -/
theorem copy_cases {c c' : Catalog} {id new : GrammarId} (h : c.copy id = .ok (new, c')) :
    ∃ copied, reachable c.grammars [id] = .ok copied ∧
      new = copyOf c.grammars.length copied id ∧
      c' = { c with grammars := withCopies c.grammars copied } := by
  rw [copy, deepCopy] at h
  cases hreach : reachable c.grammars [id] with
  | error e =>
      rw [hreach] at h
      cases h
  | ok copied =>
      rw [hreach] at h
      cases h
      exact ⟨copied, rfl, rfl, rfl⟩

/-- Rules can be inserted into every grammar, if walking from the languages
    stays within the grammars. -/
theorem exists_insertBefore {c : Catalog} (hclosed : Closed c.grammars)
    (hnames : ∀ n ∈ c.names, n.2 < c.grammars.length) {id : GrammarId}
    (hid : id < c.grammars.length) (anchor : Option String) (rules : List (String × Rule)) :
    ∃ inserted, c.insertBefore id anchor rules = .ok inserted := by
  have hroots : ∀ r ∈ c.names.map (·.2), r < c.grammars.length := by
    intro r hr
    obtain ⟨n, hn, rfl⟩ := List.mem_map.mp hr
    exact hnames n hn
  obtain ⟨live, hlive⟩ : ∃ live, c.live = .ok live := exists_reachable hclosed hroots
  rw [insertBefore, grammarAt, List.getElem?_eq_getElem hid, hlive]
  exact ⟨_, rfl⟩

/-- Inserting adds one grammar and puts it in the place of the other. -/
theorem insertBefore_cases {c c' : Catalog} {id new : GrammarId} {anchor : Option String}
    {rules : List (String × Rule)} (h : c.insertBefore id anchor rules = .ok (new, c')) :
    ∃ g live, c.grammars[id]? = some g ∧ c.live = .ok live ∧ new = c.grammars.length ∧
      c' = { (c.add (inserted g anchor rules)).2.redirect
          (fun i => i == c.grammars.length || live.contains i) id c.grammars.length with
        names := c.names.map fun n => (n.1, if n.2 = id then c.grammars.length else n.2) } := by
  rw [insertBefore, grammarAt] at h
  cases hg : c.grammars[id]? with
  | none =>
      rw [hg] at h
      cases h
  | some g =>
      cases hlive : c.live with
      | error e =>
          rw [hg, hlive] at h
          cases h
      | ok live =>
          rw [hg, hlive] at h
          cases h
          exact ⟨g, live, rfl, rfl, rfl, rfl⟩

end Catalog

/-- An extension is a copy with rules set on it. -/
theorem Registry.extend_cases {r r' : Registry} {language : String} {rules : List (String × Rule)}
    {new : GrammarId} (h : r.extend language rules = .ok (new, r')) :
    ∃ id c, r.catalog.grammarId? language = some id ∧ r.catalog.copy id = .ok (new, c) ∧
      r' = { r with catalog := { c with
        grammars := c.grammars.modify new fun g => g.setAll rules } } := by
  rw [extend] at h
  split at h
  · cases h
  · next id hid =>
      split at h
      · cases h
      · next new' c hcopy =>
          cases h
          exact ⟨id, c, hid, hcopy, rfl⟩

-- ── Operations that may not be possible ──────────────────────────────────

namespace Operation

variable {r r' : Registry} {id : GrammarId}

theorem run_copy (h : (copy id).run r = some r') :
    ∃ new c, r.catalog.copy id = .ok (new, c) ∧ r' = { r with catalog := c } := by
  simp only [run] at h
  split at h
  · next new c hcopy => exact ⟨new, c, hcopy, (Option.some.inj h).symm⟩
  · cases h

theorem run_extend {language : String} {rules : List (String × Rule)}
    (h : (extend language rules).run r = some r') :
    ∃ new, r.extend language rules = .ok (new, r') := by
  simp only [run] at h
  split at h
  · next new extended hextend =>
      rw [Option.some.inj h] at hextend
      exact ⟨new, hextend⟩
  · cases h

theorem run_insertBefore {anchor : Option String} {rules : List (String × Rule)}
    (h : (insertBefore id anchor rules).run r = some r') :
    ∃ new c, r.catalog.insertBefore id anchor rules = .ok (new, c) ∧
      r' = { r with catalog := c } := by
  simp only [run] at h
  split at h
  · next new c hinsert => exact ⟨new, c, hinsert, (Option.some.inj h).symm⟩
  · cases h

theorem run_edit {f : Grammar → Grammar} (h : (edit id f).run r = some r') :
    id < r.catalog.grammars.length ∧
      r' = { r with catalog :=
        { r.catalog with grammars := r.catalog.grammars.modify id f } } := by
  simp only [run] at h
  split at h
  · next hlt => exact ⟨hlt, (Option.some.inj h).symm⟩
  · cases h

end Operation

end Highlighter
