import Highlighter.Proofs.Registry.Runs

/-! # Languages that do not depend on a document

    Loading a document writes into grammars that were there: a missing
    language that it defines has its place filled, or what refers to the
    place is turned to the new grammar, once for every name.  A language
    sees nothing of that if it reaches none of these places
    (`Registry.load_independent`).

    For what a grammar reaches is a sealed set, and tokenizing looks at no
    other grammar.  No reference within the set leads to a place that is
    given up, so turning the references to it changes no grammar of the
    set.  That the set is spared is kept by each step of a load
    (`Catalog.Spares`). -/

namespace Highlighter

namespace Catalog

variable {gs : List Grammar} {S : GrammarId → Prop} {names : List String} {c c' : Catalog}

/-- The grammars of a set are what they are in `gs`, and the places of the
    names are not among them. -/
structure Spares (gs : List Grammar) (S : GrammarId → Prop) (names : List String)
    (c : Catalog) : Prop where
  same : ∀ a, S a → gs[a]? = c.grammars[a]?
  apart : ∀ n ∈ names, n ∈ c.reserved → ∀ place, c.target? n = some place → ¬ S place

/-- Places that are left stay apart. -/
theorem Spares.leave (h : c.Spares gs S names) (hsame : ∀ a, S a → gs[a]? = c'.grammars[a]?)
    (hplace : ∀ n ∈ c'.reserved, n ∈ c.reserved ∧ c'.target? n = c.target? n) :
    c'.Spares gs S names where
  same := hsame
  apart n hn hreserved place hid := by
    obtain ⟨hold, htarget⟩ := hplace n hreserved
    exact h.apart n hn hold place (htarget ▸ hid)

/-- Pointing a name leaves the places of the others. -/
theorem mem_release_point {name n : String} {id : GrammarId}
    (h : n ∈ ((c.release name).point name id).reserved) :
    n ∈ c.reserved ∧ ((c.release name).point name id).target? n = c.target? n := by
  obtain ⟨hn, hne⟩ := mem_release_iff.mp h
  refine ⟨hn, ?_⟩
  rw [target?_point, if_neg hne]
  rfl

/-- What a catalog has grown by is new, the places too. -/
theorem Spares.grows (h : c.Spares gs S names) (hlt : ∀ a, S a → a < c.grammars.length)
    (hgrows : c.Grows c') : c'.Spares gs S names where
  same a ha := by
    rw [h.same a ha, List.getElem?_eq_getElem (hlt a ha)]
    exact (hgrows.getElem? (List.getElem?_eq_getElem (hlt a ha))).symm
  apart n hn hreserved place hplace ha := by
    by_cases hold : n ∈ OrderedMap.names c.names
    · obtain ⟨id, hid⟩ := OrderedMap.exists_get?_of_mem_names hold
      obtain rfl := Option.some.inj ((hgrows.target? hid).symm.trans hplace)
      exact h.apart n hn ((hgrows.mem_reserved_iff hold).mp hreserved) id hid ha
    · exact Nat.not_lt_of_le (hgrows.target?_of_not_mem hold hplace).2 (hlt place ha)

/-- Turning the references to a place changes nothing where there are none. -/
theorem Spares.redirect (hS : Sealed gs S) (h : c.Spares gs S names)
    (concerned : GrammarId → Bool) {place : GrammarId} (hplace : ¬ S place) (id : GrammarId) :
    (c.redirect concerned place id).Spares gs S names := by
  refine h.leave (fun a ha => ?_) fun n hn => ⟨hn, rfl⟩
  rw [Catalog.redirect, List.getElem?_mapIdx, ← h.same a ha]
  cases hg : gs[a]? with
  | none => rfl
  | some g =>
      have hkept : ∀ b ∈ g.references, (if b = place then id else b) = b := by
        intro b hb
        rw [if_neg]
        rintro rfl
        exact hplace (hS a b ha ⟨g, hg, hb⟩)
      rw [Option.map_some, Grammar.mapReferences_of_references hkept, ite_self]

theorem Spares.setLanguage (hS : Sealed gs S) (h : c.Spares gs S names) {name : String}
    (hname : name ∈ names) (id : GrammarId) : (c.setLanguage name id).Spares gs S names := by
  rcases setLanguage_cases c name id with heq | ⟨place, hreserved, hplace, heq⟩
  · rw [heq]
    exact h.leave h.same fun n hn => mem_release_point hn
  · have hturned := h.redirect hS (fun _ => true) (h.apart name hname hreserved place hplace) id
    rw [heq]
    exact hturned.leave hturned.same fun n hn => mem_release_point hn

theorem Spares.addLanguage (h : c.Spares gs S names) (hlt : ∀ a, S a → a < c.grammars.length)
    {name : String} (hname : name ∈ names) (g : Grammar) :
    (c.addLanguage name g).2.Spares gs S names := by
  rcases addLanguage_cases c name g with ⟨place, hreserved, hplace, heq⟩ | heq
  · rw [heq]
    refine h.leave (fun a ha => ?_) fun n hn => ⟨(mem_release_iff.mp hn).1, rfl⟩
    have hother : place ≠ a := by
      rintro rfl
      exact h.apart name hname hreserved place hplace ha
    rw [List.getElem?_set_ne hother]
    exact h.same a ha
  · rw [heq]
    refine h.leave (fun a ha => ?_) fun n hn => mem_release_point (c := (c.add g).2) hn
    rw [h.same a ha]
    exact (List.getElem?_append_left (hlt a ha)).symm

/-- Grammars of a sealed set are what they were after a document was loaded
    or could not be, if none of them is a place for one of its names. -/
theorem load_getElem? (hS : Sealed c.grammars S) (hlt : ∀ a, S a → a < c.grammars.length)
    {d : Document}
    (hd : ∀ n ∈ d.given, n ∈ c.reserved → ∀ place, c.target? n = some place → ¬ S place)
    {a : GrammarId} (ha : S a) : c.grammars[a]? = (c.load d).2.grammars[a]? := by
  have hspares : c.Spares c.grammars S d.given := ⟨fun _ _ => rfl, hd⟩
  have hgrows := Load.grammar_keeps grows_stepwise d.tokens c
  rcases load_cases c d with ⟨e, l, hrun, hload⟩ | ⟨g, l, hrun, hload⟩
  · -- what was added is dropped again, by the numbers of the grammars
    rw [hrun] at hgrows
    rw [hload]
    show _ = (l.grammars.take c.grammars.length)[a]?
    rw [List.getElem?_take_of_lt (hlt a ha)]
    exact (hspares.grows hlt hgrows).same a ha
  · rw [hrun] at hgrows
    have hread := hspares.grows hlt hgrows
    have hadded := hread.addLanguage
      (fun b hb => Nat.lt_of_lt_of_le (hlt b hb) hgrows.length_le) List.mem_cons_self g
    have hnamed : (c.load d).2.Spares c.grammars S d.given := by
      rw [hload]
      exact d.aliases.foldlRecOn _ hadded fun _ h name hname =>
        h.setLanguage hS (List.mem_cons_of_mem _ hname) _
    exact hnamed.same a ha

end Catalog

namespace Registry

/-- A grammar reaches no place of a missing language that the document
    defines. -/
def Independent (r : Registry) (id : GrammarId) (d : Document) : Prop :=
  ∀ n ∈ d.given, n ∈ r.catalog.missing → ∀ place, r.catalog.target? n = some place →
    ¬ Reaches r.catalog.grammars id place

theorem load_tokenize {r : Registry} (hclosed : Closed r.catalog.grammars) {id : GrammarId}
    (hid : id < r.catalog.grammars.length) {d : Document} (hd : r.Independent id d)
    (text : String) : (r.load d).2.tokenize id text = r.tokenize id text := by
  refine tokenize_of_sealed (sealed_reaches id) (fun a ha => ?_) .refl text
  refine Catalog.load_getElem? (sealed_reaches id) (fun b hb => hclosed.reaches_lt hid hb) ?_ ha
  exact fun n hn hreserved => hd n hn (List.mem_mergeSort.mpr hreserved)

/-- What cannot be read as a document changes nothing. -/
theorem loadRead_tokenize {r : Registry} (hclosed : Closed r.catalog.grammars) {id : GrammarId}
    (hid : id < r.catalog.grammars.length) {read : Except Error Document}
    (hread : ∀ d, read = .ok d → r.Independent id d) (text : String) :
    (r.loadRead read).2.tokenize id text = r.tokenize id text := by
  cases read with
  | error e => rfl
  | ok d => exact load_tokenize hclosed hid (hread d rfl) text

/-- A grammar tokenizes every text after a document was loaded as it did
    before, if it reaches no place of a missing language that the document
    defines; and so it does if the document cannot be loaded or read, and
    whether it is given as such, as a text or in a file. -/
theorem load_independent {r : Registry} (hclosed : Closed r.catalog.grammars) {id : GrammarId}
    (hid : id < r.catalog.grammars.length) :
    (∀ d, r.Independent id d → ∀ text, (r.load d).2.tokenize id text = r.tokenize id text) ∧
      (∀ content, (∀ d, Document.ofString content = .ok d → r.Independent id d) →
        ∀ text, (r.loadText content).2.tokenize id text = r.tokenize id text) ∧
      ∀ content, (∀ d, Document.ofFile content = .ok d → r.Independent id d) →
        ∀ text, (r.loadFile content).2.tokenize id text = r.tokenize id text :=
  ⟨fun _ hd => load_tokenize hclosed hid hd, fun _ hread => loadRead_tokenize hclosed hid hread,
    fun _ hread => loadRead_tokenize hclosed hid hread⟩

/-- One language has a missing one inside, and another has not.  The missing
    one is loaded, with the name of the first for an alias: the other one
    stays what it is.  It does so when a document fails. -/
theorem load_independent_words :
    let r := (wordsOfMissing.load (.words "m" [])).2
    (Closed r.catalog.grammars ∧ 2 < r.catalog.grammars.length ∧
      r.Independent 2 (.words "n" ["l"]) ∧ "n" ∈ r.catalog.missing) ∧
      (∀ text, (r.load (.words "n" ["l"])).2.tokenize 2 text = r.tokenize 2 text) ∧
      ∀ text, (r.load (brokenDocument "n" "l" "ghost")).2.tokenize 2 text = r.tokenize 2 text := by
  intro r
  have hrun : Run Returns _ r := .step (.load (.words "m" []))
    (.step (.load (.wordsOf "n" "l" [])) .empty trivial rfl) trivial rfl
  have hclosed : Closed r.catalog.grammars := hrun.consistent.1.closed
  have hid : 2 < r.catalog.grammars.length := Nat.lt_succ_self 2
  -- the grammar has no references, so it reaches only itself
  have hreaches : ∀ place, Reaches r.catalog.grammars 2 place → place = 2 := by
    intro place h
    rcases h.cases_head with rfl | ⟨b, ⟨g, hg, hb⟩, -⟩
    · rfl
    · obtain rfl := Option.some.inj hg
      cases hb
  have hindependent : ∀ d, r.Independent 2 d := by
    intro d n _ hn place hplace hreach
    obtain rfl := hreaches place hreach
    obtain rfl : n = "n" := List.mem_singleton.mp (List.mem_mergeSort.mp hn)
    cases hplace
  obtain ⟨hload, -⟩ := load_independent hclosed hid
  exact ⟨⟨hclosed, hid, hindependent _, List.mem_mergeSort.mpr List.mem_cons_self⟩,
    hload _ (hindependent _), hload _ (hindependent _)⟩

end Registry

end Highlighter
