import Highlighter.Proofs.Grammar.Reachability
import Highlighter.Proofs.Registry.Operation
import Highlighter.Proofs.Tokenizer.Depth

/-! # Extending a language and supplying another one

    An extension is a copy of a language and of all that it can reach, with
    rules set on it.  A name that is missing has a place, which is filled
    when its language is supplied.

    When the place is out of the language's reach, it makes no difference
    which comes first: the registries are the same.  When it is within
    reach, the place has been copied as well, and only the original is
    filled; so an extension made before the language is supplied goes on
    without it (`extend_withLanguage`).  An extension made afterwards has
    it, and then the two do not tokenize alike
    (`extend_withLanguage_not_commuting`). -/

namespace Highlighter

/-- The references of a catalog and its names lead to grammars of it. -/
structure Catalog.InRange (c : Catalog) : Prop where
  closed : Closed c.grammars
  names : ∀ name id, c.target? name = some id → id < c.grammars.length

-- ── Copies ───────────────────────────────────────────────────────────────

/-- References that go to the same places change in the same way. -/
theorem Rule.mapReferences_congr {f f' : GrammarId → GrammarId} {r : Rule}
    (h : ∀ a ∈ r.references, f a = f' a) : r.mapReferences f = r.mapReferences f' := by
  cases r with
  | grammar id => exact congrArg Rule.grammar (h id List.mem_cons_self)
  | patterns ps =>
      have hpattern : ∀ p ∈ ps.toList,
          { p with inside := p.inside.map f } = { p with inside := p.inside.map f' } := by
        intro p hp
        cases hi : p.inside with
        | none => rfl
        | some a =>
            have ha : f a = f' a := h a (List.mem_filterMap.mpr ⟨p, hp, hi⟩)
            rw [Option.map_some, Option.map_some, ha]
      cases ps with
      | single p =>
          exact congrArg (Rule.patterns ∘ Patterns.single) (hpattern p List.mem_cons_self)
      | alternatives ps =>
          exact congrArg (Rule.patterns ∘ Patterns.alternatives) (List.map_congr_left hpattern)

theorem Grammar.mapReferences_congr {f f' : GrammarId → GrammarId} {g : Grammar}
    (h : ∀ a ∈ g.references, f a = f' a) : g.mapReferences f = g.mapReferences f' := by
  refine congrArg Grammar.mk (List.map_congr_left fun r hr => ?_)
  have hrule : r.2.mapReferences f = r.2.mapReferences f' :=
    Rule.mapReferences_congr fun a ha => h a (List.mem_flatMap.mpr ⟨r, hr, ha⟩)
  rw [hrule]

theorem Grammar.references_mapReferences (f : GrammarId → GrammarId) (g : Grammar) :
    (g.mapReferences f).references = g.references.map f := by
  simp [references, mapReferences, List.flatMap_map, List.map_flatMap]

theorem Grammar.mem_references_mapReferences {f : GrammarId → GrammarId} {g : Grammar}
    {a : GrammarId} (h : a ∈ (g.mapReferences f).references) : ∃ b ∈ g.references, f b = a := by
  rw [references_mapReferences] at h
  exact List.mem_map.mp h

theorem Grammar.mem_references_set {g : Grammar} {name : String} {rule : Rule} {a : GrammarId}
    (h : a ∈ (g.set name rule).references) : a ∈ g.references ∨ a ∈ rule.references := by
  obtain ⟨r, hr, ha⟩ := List.mem_flatMap.mp h
  rcases OrderedMap.mem_set hr with rfl | hr
  · exact .inr ha
  · exact .inl (List.mem_flatMap.mpr ⟨r, hr, ha⟩)

theorem Grammar.mem_references_setAll {g : Grammar} {rules : List (String × Rule)} {a : GrammarId}
    (h : a ∈ (g.setAll rules).references) :
    a ∈ g.references ∨ a ∈ (Grammar.mk rules).references := by
  induction rules generalizing g with
  | nil => exact .inl h
  | cons r rules ih =>
      rcases ih (g := g.set r.1 r.2) h with h | h
      · rcases mem_references_set h with h | h
        · exact .inl h
        · exact .inr (List.mem_flatMap.mpr ⟨r, List.mem_cons_self, h⟩)
      · obtain ⟨s, hs, ha⟩ := List.mem_flatMap.mp h
        exact .inr (List.mem_flatMap.mpr ⟨s, List.mem_cons_of_mem _ hs, ha⟩)

variable {gs : List Grammar}

/-- What was there stays in front of the copies. -/
theorem withCopies_getElem? {copied : List GrammarId} {a : GrammarId} (h : a < gs.length) :
    (withCopies gs copied)[a]? = gs[a]? :=
  List.getElem?_append_left h

/-- Copies refer to copies only. -/
theorem length_le_of_mem_copy {copied : List GrammarId} {a b : GrammarId} {g : Grammar}
    (ha : gs.length ≤ a) (hg : (withCopies gs copied)[a]? = some g) (hb : b ∈ g.references) :
    gs.length ≤ b := by
  rw [withCopies, List.getElem?_append_right ha] at hg
  obtain ⟨x, -, hx⟩ := List.mem_filterMap.mp (List.mem_of_getElem? hg)
  obtain ⟨h, -, rfl⟩ := Option.map_eq_some_iff.mp hx
  obtain ⟨y, -, rfl⟩ := Grammar.mem_references_mapReferences hb
  exact Nat.le_add_right _ _

/-- Copying does not look at a place that is not copied. -/
theorem withCopies_set {copied : List GrammarId} {p : GrammarId} (hp : p < gs.length)
    (h : p ∉ copied) (g : Grammar) :
    withCopies (gs.set p g) copied = (withCopies gs copied).set p g := by
  have hcopies : copied.filterMap (fun id =>
        ((gs.set p g)[id]?).map (Grammar.mapReferences (copyOf gs.length copied)))
      = copied.filterMap fun id =>
        (gs[id]?).map (Grammar.mapReferences (copyOf gs.length copied)) := by
    refine List.filterMap_congr fun a ha => ?_
    have hne : p ≠ a := fun heq => h (by rw [heq]; exact ha)
    rw [List.getElem?_set_ne hne]
  rw [withCopies, withCopies, List.length_set, hcopies, List.set_append_left _ _ hp]

/-- Changing one grammar and filling another place commute. -/
theorem modify_set {a p : GrammarId} (h : a ≠ p) (f : Grammar → Grammar) (g : Grammar) :
    (gs.set p g).modify a f = (gs.modify a f).set p g := by
  refine List.ext_getElem? fun i => ?_
  simp only [List.getElem?_modify, List.getElem?_set, List.length_modify]
  by_cases hi : p = i
  · subst hi
    simp [h]
  · simp [hi]

-- ── Extensions ───────────────────────────────────────────────────────────

namespace Registry

/-- The registry with a grammar as the language of a name. -/
def withLanguage (r : Registry) (name : String) (g : Grammar) : Registry :=
  { r with catalog := (r.catalog.addLanguage name g).2 }

/-- Supplying a missing language fills its place. -/
theorem withLanguage_of_reserved {r : Registry} {name : String} {place : GrammarId}
    (h : name ∈ r.catalog.reserved) (hplace : r.catalog.target? name = some place) (g : Grammar) :
    r.withLanguage name g = { r with
      catalog := { r.catalog.release name with
        grammars := r.catalog.grammars.set place g } } := by
  rw [withLanguage, Catalog.addLanguage_of_reserved h hplace]

/-- The grammars of an extension by rules, the copied ones being listed. -/
def extended (gs : List Grammar) (copied : List GrammarId) (rules : List (String × Rule)) :
    List Grammar :=
  (withCopies gs copied).modify gs.length fun g => g.setAll rules

/-- An extension is the first of the copies. -/
theorem extend_eq {r : Registry} (language : String) {id : GrammarId} {others : List GrammarId}
    (hknown : r.catalog.grammarId? language = some id)
    (hreach : reachable r.catalog.grammars [id] = .ok (id :: others))
    (rules : List (String × Rule)) :
    r.extend language rules = .ok (r.catalog.grammars.length,
      { r with catalog := { r.catalog with
          grammars := extended r.catalog.grammars (id :: others) rules } }) := by
  have hcopy : r.catalog.copy id = .ok (r.catalog.grammars.length,
      { r.catalog with grammars := withCopies r.catalog.grammars (id :: others) }) := by
    rw [Catalog.copy, deepCopy, hreach]
    simp only [bind, Except.bind, copyOf, List.idxOf_cons_self, Nat.add_zero]
  rw [extend, hknown]
  simp only [hcopy]
  rfl

theorem not_reserved_of_grammarId? {c : Catalog} {name : String} {id : GrammarId}
    (h : c.grammarId? name = some id) : name ∉ c.reserved := by
  intro hmem
  rw [Catalog.grammarId?, List.contains_iff_mem.mpr hmem] at h
  exact nomatch h

theorem target?_of_grammarId? {c : Catalog} {name : String} {id : GrammarId}
    (h : c.grammarId? name = some id) : c.target? name = some id := by
  rw [Catalog.grammarId?, if_neg (by simpa using not_reserved_of_grammarId? h)] at h
  exact h

/-- Another missing language can be supplied without a language changing. -/
theorem grammarId?_withLanguage {r : Registry} {language name : String} {id place : GrammarId}
    (hknown : r.catalog.grammarId? language = some id) (h : name ∈ r.catalog.reserved)
    (hplace : r.catalog.target? name = some place) (g : Grammar) :
    (r.withLanguage name g).catalog.grammarId? language = some id := by
  have hreserved := not_reserved_of_grammarId? hknown
  rw [withLanguage_of_reserved h hplace, Catalog.grammarId?,
    if_neg (by simp [Catalog.release, hreserved])]
  have htarget := target?_of_grammarId? hknown
  exact htarget

/-- In an extension, what does not reach a place stays away from it: the
    copies refer to copies, and what else there is to what it did. -/
theorem sealed_extended {copied : List GrammarId} {p : GrammarId} {overrides : Grammar}
    (hrules : ∀ a ∈ overrides.references, ¬ Reaches gs a p) :
    Sealed (extended gs copied overrides.rules)
      fun a => gs.length ≤ a ∨ ¬ Reaches gs a p := by
  rintro a b ha ⟨g, hg, hb⟩
  rw [extended, List.getElem?_modify] at hg
  obtain ⟨old, hold, rfl⟩ := Option.map_eq_some_iff.mp hg
  rcases Nat.lt_or_ge a gs.length with hlt | hge
  · -- one of the grammars from before
    rw [withCopies_getElem? hlt] at hold
    rw [if_neg (Nat.ne_of_gt hlt)] at hb
    have hnot := ha.resolve_left (Nat.not_le_of_lt hlt)
    exact .inr (sealed_not_reaches p a b hnot ⟨old, hold, hb⟩)
  · by_cases hnew : gs.length = a
    · rw [if_pos hnew] at hb
      rcases Grammar.mem_references_setAll hb with hb | hb
      · exact .inl (length_le_of_mem_copy hge hold hb)
      · exact .inr (hrules b hb)
    · rw [if_neg hnew] at hb
      exact .inl (length_le_of_mem_copy hge hold hb)

/-- Extending does not look at a place that is not copied. -/
theorem extended_set {copied : List GrammarId} {p : GrammarId} (hp : p < gs.length)
    (h : p ∉ copied) (rules : List (String × Rule)) (g : Grammar) :
    extended (gs.set p g) copied rules = (extended gs copied rules).set p g := by
  rw [extended, extended, withCopies_set hp h, List.length_set,
    modify_set (Nat.ne_of_gt hp)]

/-- Filling a place changes nothing for an extension that keeps away from it. -/
theorem tokenize_extended_set {copied : List GrammarId} {p : GrammarId} (hp : p < gs.length)
    {overrides : Grammar} (hrules : ∀ a ∈ overrides.references, ¬ Reaches gs a p) (g : Grammar)
    (text : String) :
    Tokenizer.tokenize ((extended gs copied overrides.rules).set p g) gs.length text
      = Tokenizer.tokenize (extended gs copied overrides.rules) gs.length text := by
  have hsame : ∀ a, gs.length ≤ a ∨ ¬ Reaches gs a p →
      (extended gs copied overrides.rules)[a]?
        = ((extended gs copied overrides.rules).set p g)[a]? := by
    intro a ha
    have hne : p ≠ a := by
      rintro rfl
      rcases ha with hle | hnot
      · exact Nat.not_le_of_lt hp hle
      · exact hnot .refl
    rw [List.getElem?_set_ne hne]
  exact (Tokenizer.tokenize_eq_of_bisimulation
    (bisimulation_of_sealed (sealed_extended hrules) hsame) ⟨rfl, .inl (Nat.le_refl _)⟩ text).symm

/-- A language is extended and another one, which is missing, is supplied.
    If the first one does not reach the place of the other, the order makes
    no difference.  In any case an extension made first goes on as if the
    other one were still missing, as long as the rules set on it do not
    reach the place. -/
theorem extend_withLanguage {r : Registry} (hrange : r.catalog.InRange) {language name : String}
    {id place : GrammarId} (hknown : r.catalog.grammarId? language = some id)
    (hmissing : name ∈ r.catalog.reserved) (hplace : r.catalog.target? name = some place)
    (overrides : Grammar) {g : Grammar} (hg : ∀ a ∈ g.references, a < r.catalog.grammars.length) :
    ∃ new first second, r.extend language overrides.rules = .ok (new, first) ∧
      (r.withLanguage name g).extend language overrides.rules = .ok (new, second) ∧
      (¬ Reaches r.catalog.grammars id place → first.withLanguage name g = second) ∧
      ((∀ a ∈ overrides.references, ¬ Reaches r.catalog.grammars a place) →
        ∀ text, (first.withLanguage name g).tokenize new text = first.tokenize new text) := by
  have hid := hrange.names language id (target?_of_grammarId? hknown)
  have hp := hrange.names name place hplace
  have hfilled := withLanguage_of_reserved hmissing hplace g
  have hgrammars : (r.withLanguage name g).catalog.grammars = r.catalog.grammars.set place g := by
    rw [hfilled]
  have hlength : (r.catalog.grammars.set place g).length = r.catalog.grammars.length :=
    List.length_set
  have hclosed : Closed (r.catalog.grammars.set place g) := hrange.closed.set place hg
  obtain ⟨others, hreach, hin, hsame⟩ := reachable_of_closed hrange.closed hid
  obtain ⟨others', hreach', -, -⟩ := reachable_of_closed hclosed (by rw [hlength]; exact hid)
  have hfirst := extend_eq language hknown hreach overrides.rules
  have hsecond := extend_eq language (grammarId?_withLanguage hknown hmissing hplace g)
    (by rw [hgrammars]; exact hreach') overrides.rules
  rw [hgrammars, hlength] at hsecond
  refine ⟨_, _, _, hfirst, hsecond, fun hnot => ?_, fun hrules text => ?_⟩
  · -- the walk does not come to the place, so the same grammars are copied
    have hcopied : reachable (r.catalog.grammars.set place g) [id] = .ok (id :: others) := by
      refine hsame _ hlength fun a ha => ?_
      have hne : place ≠ a := by
        rintro rfl
        exact hnot ha
      rw [List.getElem?_set_ne hne]
    obtain rfl : others = others' := by
      have heq := Except.ok.inj (hcopied.symm.trans hreach')
      exact (List.cons.inj heq).2
    rw [withLanguage_of_reserved (by exact hmissing) (by exact hplace), hfilled,
      extended_set hp (fun hmem => hnot (hin place hmem))]
    rfl
  · rw [withLanguage_of_reserved (by exact hmissing) (by exact hplace)]
    exact tokenize_extended_set hp hrules g text

/-- A language with words, which have tokens of a language that is missing. -/
def wordsOfMissing : Registry := (({} : Registry).load (.wordsOf "n" "l" [])).2

/-- The grammar of the language. -/
def words : Grammar :=
  ⟨[("word", .patterns (.single { regex := { source := "[a-z]+" }, inside := some 0 }))]⟩

theorem wordsOfMissing_inRange : wordsOfMissing.catalog.InRange where
  closed := by
    have hrefs : wordsOfMissing.catalog.grammars.map Grammar.references = [[], [0]] := rfl
    intro g hg a ha
    have hmem := List.mem_map_of_mem (f := Grammar.references) hg
    rw [hrefs] at hmem
    rcases List.mem_cons.mp hmem with hnil | hmem
    · rw [hnil] at ha
      exact nomatch ha
    · rw [List.mem_singleton.mp hmem] at ha
      rw [List.mem_singleton.mp ha]
      exact Nat.zero_lt_two
  names := by
    intro name id h
    have hmem : (name, id) ∈ [("n", 0), ("l", 1)] := OrderedMap.mem_of_get? h
    rcases List.mem_cons.mp hmem with heq | hmem
    · rw [(Prod.mk.inj heq).2]
      exact Nat.zero_lt_two
    · rw [(Prod.mk.inj (List.mem_singleton.mp hmem)).2]
      exact Nat.one_lt_two

/-- A grammar with letters for tokens. -/
def letters : Grammar := ⟨[("letter", .patterns (.single { regex := { source := "[a-z]" } }))]⟩

/-- The language with the missing one inside is extended by no rules. -/
theorem extend_withLanguage_words :
    (wordsOfMissing.catalog.InRange ∧ wordsOfMissing.catalog.grammarId? "l" = some 1 ∧
      "n" ∈ wordsOfMissing.catalog.reserved ∧ wordsOfMissing.catalog.target? "n" = some 0 ∧
      ∀ a ∈ letters.references, a < wordsOfMissing.catalog.grammars.length) ∧
      ∃ new first second, wordsOfMissing.extend "l" [] = .ok (new, first) ∧
        (wordsOfMissing.withLanguage "n" letters).extend "l" [] = .ok (new, second) ∧
        (¬ Reaches wordsOfMissing.catalog.grammars 1 0 →
          first.withLanguage "n" letters = second) ∧
        ((∀ a ∈ (Grammar.mk []).references, ¬ Reaches wordsOfMissing.catalog.grammars a 0) →
          ∀ text, (first.withLanguage "n" letters).tokenize new text = first.tokenize new text) := by
  have hletters : ∀ a ∈ letters.references, a < wordsOfMissing.catalog.grammars.length := nofun
  have hmissing : "n" ∈ wordsOfMissing.catalog.reserved := List.mem_cons_self
  exact ⟨⟨wordsOfMissing_inRange, rfl, hmissing, rfl, hletters⟩,
    extend_withLanguage wordsOfMissing_inRange rfl hmissing rfl ⟨[]⟩ hletters⟩

/-- A walk from a grammar with one other grammar inside of its pattern. -/
theorem reachable_inside {g : Grammar} {name : String} {p : Pattern} {visits : List Visit}
    (hp : p.inside = some 0)
    (hg : Walk.run [g, ⟨[(name, .patterns (.single p))]⟩] [] (g.rules.flatMap Walk.stops)
      = .ok visits) :
    reachable [g, ⟨[(name, .patterns (.single p))]⟩] [1]
      = .ok (1 :: 0 :: visits.filterMap Visit.grammar?) := by
  have hrun : Walk.run [g, ⟨[(name, .patterns (.single p))]⟩] [0, 1] [.reference "" 1 ""]
      = .ok (⟨"", .grammar 1, ""⟩ :: ⟨name, .patterns (.single p), name⟩
        :: ⟨"inside", .grammar 0, name⟩ :: visits) := by
    simp [Walk.run, Walk.stops, Patterns.toList, Rule.references, hp, hg, bind, Except.bind]
  show (Walk.run _ [0, 1] [.reference "" 1 ""] >>= _) = _
  rw [hrun]
  rfl

/-- When the place is within reach, the order makes a difference. -/
theorem extend_withLanguage_not_commuting :
    ¬ ∀ (r : Registry) (language name : String) (id place : GrammarId) (overrides g : Grammar)
      (new new' : GrammarId) (first second : Registry),
      r.catalog.InRange → r.catalog.grammarId? language = some id → name ∈ r.catalog.reserved →
      r.catalog.target? name = some place → Reaches r.catalog.grammars id place →
      (∀ a ∈ overrides.references, a < r.catalog.grammars.length) →
      (∀ a ∈ g.references, a < r.catalog.grammars.length) →
      r.extend language overrides.rules = .ok (new, first) →
      (r.withLanguage name g).extend language overrides.rules = .ok (new', second) →
      ∀ text, (first.withLanguage name g).tokenize new text = second.tokenize new' text := by
  intro h
  have hreaches : Reaches wordsOfMissing.catalog.grammars 1 0 :=
    .single ⟨_, rfl, List.mem_cons_self⟩
  -- the language reaches the place, be it empty or filled
  have hempty : reachable [{}, words] [1] = .ok [1, 0] :=
    reachable_inside rfl (by rw [List.flatMap_nil, Walk.run])
  have hfilled : reachable [letters, words] [1] = .ok [1, 0] := by
    have hvisits : Walk.run [letters, words] [] (letters.rules.flatMap Walk.stops)
        = .ok [⟨"letter", .patterns (.single { regex := { source := "[a-z]" } }), "letter"⟩] := by
      simp [Walk.run, Walk.stops, letters, Patterns.toList, Rule.references, bind, Except.bind]
    exact reachable_inside rfl hvisits
  have hfirst := extend_eq (r := wordsOfMissing) "l" rfl hempty []
  have hsecond := extend_eq (r := wordsOfMissing.withLanguage "n" letters) "l" rfl hfilled []
  have hnothing : ∀ a ∈ (⟨[]⟩ : Grammar).references, a < wordsOfMissing.catalog.grammars.length :=
    fun _ ha => absurd ha List.not_mem_nil
  have hletters : ∀ a ∈ letters.references, a < wordsOfMissing.catalog.grammars.length :=
    fun _ ha => absurd ha List.not_mem_nil
  have hsame := h wordsOfMissing "l" "n" 1 0 ⟨[]⟩ letters 2 2 _ _ wordsOfMissing_inRange rfl
    List.mem_cons_self rfl hreaches hnothing hletters hfirst hsecond "ab"
  -- the word of the first has text inside, that of the second has letters
  have hword : Except.ok [.node ⟨"word", [], 2, false⟩ [.raw "ab"]]
      = (Except.ok [.node ⟨"word", [], 2, false⟩ [.leaf ⟨"letter", [], 1, false⟩ "a",
        .leaf ⟨"letter", [], 1, false⟩ "b"]] : Except Tokenizer.Fault (List Fragment)) := hsame
  cases hword

end Registry

end Highlighter
