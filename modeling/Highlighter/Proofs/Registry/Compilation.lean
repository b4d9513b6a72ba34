import Highlighter.Proofs.Document.Keyed
import Highlighter.Proofs.Registry.Loading

/-! # What a document compiles to

    Loading makes numbered grammars of what a document nests.  Read back
    from the number it returns, they are the document again: a grammar has
    the rules of its entries in their order, then that of its `rest`; a
    pattern is the one that is written, and what it has inside is compiled
    in turn; a name stands for the number in the table of names
    (`Reference.Compiled`).  A view of the catalog has the setting of one
    rule after the other instead, which is the same thing where no key
    comes twice (`Reference.Unfolds.compiled`).

    Reading the tokens comes first and giving the names second.  In between
    the names of the document may have places, at the numbers of which
    references hold; giving the names turns these to the grammar, so that
    all references are as they should be in the end (`Given.maps`). -/

namespace Highlighter

open Document (Reference PatternForm PatternsForm)

-- ── Compiled references ──────────────────────────────────────────────────

namespace Document

mutual

/-- A reference to a language is the number of its name, with a grammar
    without rules if the language is missing; one that is written in place
    is a grammar of its own with the rules that are written. -/
def Reference.Compiled (c : Catalog) : Reference → GrammarId → Prop
  | .language name, id =>
      c.target? name = some id ∧ (name ∈ c.reserved → c.grammars[id]? = some {})
  | .inline entries rest, id =>
      ∃ rules more, EntriesCompiled c entries rules ∧ RestCompiled c rest more ∧
        c.grammars[id]? = some ⟨rules ++ more⟩

/-- The rules have the keys of the entries, in their order, and are their
    patterns. -/
def EntriesCompiled (c : Catalog) :
    List (String × PatternsForm Reference) → List (String × Rule) → Prop
  | [], rules => rules = []
  | (name, ps) :: entries, rules =>
      ∃ qs more, PatternsCompiled c ps qs ∧ EntriesCompiled c entries more ∧
        rules = (name, .patterns qs) :: more

/-- What is merged in is a rule of its own. -/
def RestCompiled (c : Catalog) : Option Reference → List (String × Rule) → Prop
  | none, rules => rules = []
  | some r, rules => ∃ id, r.Compiled c id ∧ rules = [(restName, .grammar id)]

/-- One pattern is one pattern and alternatives are alternatives. -/
def PatternsCompiled (c : Catalog) : PatternsForm Reference → Patterns → Prop
  | .single p, qs => ∃ q, PatternCompiled c p q ∧ qs = .single q
  | .alternatives ps, qs => ∃ rs, AlternativesCompiled c ps rs ∧ qs = .alternatives rs

/-- Alternatives have the same number and order. -/
def AlternativesCompiled (c : Catalog) : List (PatternForm Reference) → List Pattern → Prop
  | [], qs => qs = []
  | p :: ps, qs => ∃ r rs, PatternCompiled c p r ∧ AlternativesCompiled c ps rs ∧ qs = r :: rs

/-- A pattern has the source, the flags, the labels and the grammar inside
    that are written. -/
def PatternCompiled (c : Catalog) : PatternForm Reference → Pattern → Prop
  | .source source, q => q = { regex := Regex.ofStrings source "" }
  | .descriptor ⟨source, flags, lookbehind, greedy, aliases, grammar⟩, q =>
      ∃ inside, InsideCompiled c grammar inside ∧
        q = { regex := Regex.ofStrings source flags, lookbehind, greedy
              aliases := aliases.toList, inside }

/-- There is a grammar inside just when one is written. -/
def InsideCompiled (c : Catalog) : Option Reference → Option GrammarId → Prop
  | none, i => i = none
  | some r, i => ∃ id, r.Compiled c id ∧ i = some id

end

-- ── From unfolding ───────────────────────────────────────────────────────

section Compiled

variable {c : Catalog}

mutual

/-- What a reference with distinct keys unfolds to is what is written. -/
theorem Reference.Unfolds.compiled (hc : c.Placed) : ∀ {r : Reference} {id : GrammarId},
    r.Unfolds c.view id → r.Keyed → r.Compiled c id
  | .language name, id, h, _ => by
      rw [Reference.Unfolds] at h
      rw [Reference.Compiled]
      refine ⟨h, fun hres => ?_⟩
      obtain ⟨place, hplace, hempty⟩ := hc.place name hres
      obtain rfl := Option.some.inj (hplace.symm.trans h)
      exact hempty
  | .inline entries rest, id, h, hk => by
      rw [Reference.Unfolds] at h
      obtain ⟨g, g', hrules, hrest, hg'⟩ := h
      rw [Reference.Keyed] at hk
      obtain ⟨⟨hnodup, hmem⟩, hentries, hinside⟩ := hk
      obtain ⟨rules, hcompiled, hnames, rfl⟩ :=
        RulesUnfold.compiled hc hrules hentries hnodup nofun
      have hnew : restName ∉ OrderedMap.names rules := by
        rw [hnames]
        exact hmem
      obtain ⟨more, hmore, rfl⟩ := RestUnfolds.compiled hc hrest hinside hnew
      rw [Reference.Compiled]
      exact ⟨rules, more, hcompiled, hmore, hg'.1⟩

/-- Rules that are set one after the other, under new keys, are added at the
    end. -/
theorem RulesUnfold.compiled (hc : c.Placed) : ∀ {entries : List (String × PatternsForm Reference)}
    {g h : Grammar}, RulesUnfold c.view entries g h → RulesKeyed entries →
      (OrderedMap.names entries).Nodup →
      (∀ n ∈ OrderedMap.names entries, n ∉ OrderedMap.names g.rules) →
      ∃ rules, EntriesCompiled c entries rules ∧
        OrderedMap.names rules = OrderedMap.names entries ∧ h = ⟨g.rules ++ rules⟩
  | [], g, h, hr, _, _, _ => by
      rw [RulesUnfold] at hr
      refine ⟨[], ?_, rfl, ?_⟩
      · rw [EntriesCompiled]
      · rw [hr, List.append_nil]
  | (name, ps) :: entries, g, h, hr, hk, hnodup, hnew => by
      rw [RulesUnfold] at hr
      obtain ⟨qs, hps, hr⟩ := hr
      rw [RulesKeyed] at hk
      rw [OrderedMap.names, List.map_cons, List.nodup_cons] at hnodup
      obtain ⟨hname, hnew⟩ := List.forall_mem_cons.mp hnew
      have hset : g.set name (.patterns qs) = ⟨g.rules ++ [(name, .patterns qs)]⟩ :=
        congrArg Grammar.mk (OrderedMap.set_of_not_mem hname _)
      have hlater : ∀ n ∈ OrderedMap.names entries,
          n ∉ OrderedMap.names (g.set name (.patterns qs)).rules := fun n hn hmem =>
        (OrderedMap.mem_names_set.mp hmem).elim (fun heq => hnodup.1 (heq ▸ hn)) (hnew n hn)
      obtain ⟨rules, hrules, hnames, rfl⟩ := RulesUnfold.compiled hc hr hk.2 hnodup.2 hlater
      refine ⟨(name, .patterns qs) :: rules, ?_, ?_, ?_⟩
      · rw [EntriesCompiled]
        exact ⟨qs, rules, PatternsUnfold.compiled hc hps hk.1, hrules, rfl⟩
      · exact congrArg (name :: ·) hnames
      · rw [hset, List.append_assoc, List.singleton_append]

/-- What is merged in comes behind the other rules. -/
theorem RestUnfolds.compiled (hc : c.Placed) : ∀ {rest : Option Reference} {g h : Grammar},
    RestUnfolds c.view rest g h → InsideKeyed rest → restName ∉ OrderedMap.names g.rules →
      ∃ rules, RestCompiled c rest rules ∧ h = ⟨g.rules ++ rules⟩
  | none, g, h, hr, _, _ => by
      rw [RestUnfolds] at hr
      refine ⟨[], ?_, ?_⟩
      · rw [RestCompiled]
      · rw [hr, List.append_nil]
  | some r, g, h, hr, hk, hnew => by
      rw [RestUnfolds] at hr
      obtain ⟨id, hid, rfl⟩ := hr
      rw [InsideKeyed] at hk
      refine ⟨[(restName, .grammar id)], ?_, ?_⟩
      · rw [RestCompiled]
        exact ⟨id, Reference.Unfolds.compiled hc hid hk, rfl⟩
      · exact congrArg Grammar.mk (OrderedMap.set_of_not_mem hnew _)

theorem PatternsUnfold.compiled (hc : c.Placed) : ∀ {ps : PatternsForm Reference} {qs : Patterns},
    PatternsUnfold c.view ps qs → PatternsKeyed ps → PatternsCompiled c ps qs
  | .single p, qs, h, hk => by
      rw [PatternsUnfold] at h
      rw [PatternsKeyed] at hk
      obtain ⟨q, hq, rfl⟩ := h
      rw [PatternsCompiled]
      exact ⟨q, PatternUnfolds.compiled hc hq hk, rfl⟩
  | .alternatives ps, qs, h, hk => by
      rw [PatternsUnfold] at h
      rw [PatternsKeyed] at hk
      obtain ⟨rs, hrs, rfl⟩ := h
      rw [PatternsCompiled]
      exact ⟨rs, AlternativesUnfold.compiled hc hrs hk, rfl⟩

theorem AlternativesUnfold.compiled (hc : c.Placed) : ∀ {ps : List (PatternForm Reference)} {qs : List Pattern},
    AlternativesUnfold c.view ps qs → AlternativesKeyed ps → AlternativesCompiled c ps qs
  | [], qs, h, _ => by
      rw [AlternativesUnfold] at h
      rw [AlternativesCompiled, h]
  | p :: ps, qs, h, hk => by
      rw [AlternativesUnfold] at h
      rw [AlternativesKeyed] at hk
      obtain ⟨r, rs, hr, hrs, rfl⟩ := h
      rw [AlternativesCompiled]
      exact ⟨r, rs, PatternUnfolds.compiled hc hr hk.1, AlternativesUnfold.compiled hc hrs hk.2, rfl⟩

theorem PatternUnfolds.compiled (hc : c.Placed) : ∀ {p : PatternForm Reference} {q : Pattern},
    PatternUnfolds c.view p q → PatternKeyed p → PatternCompiled c p q
  | .source source, q, h, _ => by
      rw [PatternUnfolds] at h
      rw [PatternCompiled]
      exact h.2
  | .descriptor ⟨source, flags, lookbehind, greedy, aliases, grammar⟩, q, h, hk => by
      rw [PatternUnfolds] at h
      rw [PatternKeyed] at hk
      obtain ⟨-, inside, hinside, rfl⟩ := h
      rw [PatternCompiled]
      exact ⟨inside, InsideUnfolds.compiled hc hinside hk, rfl⟩

theorem InsideUnfolds.compiled (hc : c.Placed) : ∀ {r : Option Reference} {i : Option GrammarId},
    InsideUnfolds c.view r i → InsideKeyed r → InsideCompiled c r i
  | none, i, h, _ => by
      rw [InsideUnfolds] at h
      rw [InsideCompiled, h]
  | some r, i, h, hk => by
      rw [InsideUnfolds] at h
      rw [InsideKeyed] at hk
      obtain ⟨id, hid, rfl⟩ := h
      rw [InsideCompiled]
      exact ⟨id, Reference.Unfolds.compiled hc hid hk, rfl⟩

end

/-- The grammar at a number is the tokens, if it is what they unfold to. -/
theorem TokensUnfold.compiled (hc : c.Placed) {t : Tokens} {g : Grammar}
    (ht : TokensUnfold c.view t g) (hk : t.Keyed) {id : GrammarId}
    (hid : c.grammars[id]? = some g) :
    (Reference.ofTokens t).Compiled c id := by
  obtain ⟨g', hrules, hrest⟩ := ht
  obtain ⟨rules, hcompiled, hnames, rfl⟩ := RulesUnfold.compiled hc hrules hk.rules hk.nodup nofun
  have hnew : restName ∉ OrderedMap.names rules := by
    rw [hnames]
    exact hk.rest_not_mem
  obtain ⟨more, hmore, rfl⟩ := RestUnfolds.compiled hc hrest hk.rest hnew
  rw [Reference.ofTokens, Reference.Compiled]
  exact ⟨rules, more, hcompiled, hmore, hid⟩

end Compiled

end Document

-- ── Giving the names ─────────────────────────────────────────────────────

namespace Catalog

/-- A name whose places are turned stands for the number it is turned to,
    when none of the names given was that of a language. -/
theorem Given.maps {l c : Catalog} {g : Grammar} {id : GrammarId} {names : List String}
    (hl : l.Placed) (h : Given l g id names c) (hnew : ∀ n ∈ names, ¬ l.IsLanguage n) :
    l.view.Maps c.view (l.turn names id) where
  holds _ _ hx := h.holds hx
  names n x hx := by
    change l.target? n = some x at hx
    change c.target? n = some (l.turn names id x)
    by_cases hn : n ∈ names
    · have hres : n ∈ l.reserved := Classical.byContradiction fun hres =>
        hnew n hn ⟨OrderedMap.mem_names_of_get? hx, hres⟩
      rw [turn_of_place hn hres hx, h.here n hn]
    · have hplace : ∀ m ∈ names, m ∈ l.reserved → l.target? m ≠ some x := by
        intro m hm hres hmx
        exact hn (hl.own m hres n x hmx hx ▸ hm)
      rw [turn_of_not_place hplace, h.elsewhere n hn, hx]

end Catalog

-- ── Loading ──────────────────────────────────────────────────────────────

namespace Registry

/-- A document that is read from a text, none of whose names is known yet,
    compiles to itself: after the load its names are those of the grammar
    that is returned, and this one, with all the grammars it refers to, is
    what is written. -/
theorem load_compiled {medium : Json.Medium} {text : String} {d : Document}
    (hread : Document.read medium text = .ok d) {ds : List Document}
    (hnew : ∀ n ∈ d.given, (({} : Registry).loadEach ds).catalog.grammarId? n = none)
    {id : GrammarId} {r : Registry}
    (hload : (({} : Registry).loadEach ds).load d = (.ok id, r)) :
    (∀ n ∈ d.given, r.catalog.grammarId? n = some id) ∧
      (Reference.ofTokens d.tokens).Compiled r.catalog id := by
  have hplaced : (({} : Registry).loadEach ds).catalog.Placed := by
    rw [loadEach_catalog]
    exact Catalog.placed_empty.loadEach ds
  obtain ⟨l, g, hgrows, hl, -, htokens, hgiven⟩ :=
    Catalog.load_given hplaced (load_catalog hload)
  have hr : r.catalog.Placed := hgiven.placed hl
  have hnolang : ∀ n ∈ d.given, ¬ l.IsLanguage n := by
    intro n hn hlang
    have hlang' := hgrows.isLanguage_iff.mp hlang
    obtain ⟨x, hx⟩ := OrderedMap.exists_get?_of_mem_names hlang'.1
    exact nomatch (hnew n hn).symm.trans (hlang'.grammarId?.trans hx)
  refine ⟨fun n hn => ?_, ?_⟩
  · have hlang : r.catalog.IsLanguage n := hgiven.isLanguage_iff.mpr (.inr hn)
    rw [hlang.grammarId?, hgiven.here n hn]
  · have hmapped := htokens.map (hgiven.maps hl hnolang)
    exact hmapped.compiled hr (Document.keyed_of_read hread) hgiven.filled

/-- A document of two names, with a grammar in place that refers to the
    second one, and with a language to be merged in. -/
def nestedText : String :=
  "\x7b\"name\":\"b\",\"aliases\":[\"c\"],\"tokens\":\x7b\"w\":\x7b\"pattern\":\"x\",\"flags\":\"i\"," ++
    "\"inside\":\x7b\"u\":[\x7b\"pattern\":\"y\",\"inside\":\"c\"\x7d]\x7d\x7d,\"rest\":\"m\"\x7d\x7d"

/-- What the text says. -/
def nestedDocument : Document where
  name := "b"
  aliases := ["c"]
  tokens :=
    { entries :=
        [("w", Document.one
          { pattern := "x", flags := "i"
            inside := some (.inline
              [("u", .alternatives
                [.descriptor { pattern := "y", inside := some (.language "c") }])]
              none) })]
      rest := some (.language "m") }

/-- A language that was loaded before refers to the document by its first
    name; of the languages it mentions itself one is missing. -/
theorem load_compiled_nested :
    let before := ({} : Registry).loadEach [.wordsOf "b" "a" []]
    let after := (before.load nestedDocument).2
    (Document.read .memory nestedText = .ok nestedDocument ∧
      (∀ n ∈ nestedDocument.given, before.catalog.grammarId? n = none) ∧
      before.load nestedDocument = (.ok 0, after)) ∧
      (∀ n ∈ nestedDocument.given, after.catalog.grammarId? n = some 0) ∧
      (Reference.ofTokens nestedDocument.tokens).Compiled after.catalog 0 := by
  intro before after
  have hread : Document.read .memory nestedText = .ok nestedDocument := by cbv
  have hnew : ∀ n ∈ nestedDocument.given, before.catalog.grammarId? n = none := by decide
  have hload : before.load nestedDocument = (.ok 0, after) := rfl
  exact ⟨⟨hread, hnew, hload⟩, load_compiled hread hnew hload⟩

end Registry

end Highlighter
