import Highlighter.Proofs.Registry.Places
import Highlighter.Proofs.Tokenizer.Founded

/-! # Documents that stand on their own

    A document that mentions no language is loaded bottom up: a grammar is
    numbered after all that it refers to.  So loading such documents, if
    all their patterns are sound, always succeeds and leads to a catalog in
    which every reference goes to a smaller number (`Catalog.Founded.load`),
    and where every text can be tokenized with every language, unless a
    match is given up (`Catalog.Founded.tokenize_ok`). -/

namespace Highlighter

open Fragment (texts)
open Html (Unquoted)
open Document (Reference Descriptor PatternForm PatternsForm)

-- ── Catalogs ─────────────────────────────────────────────────────────────

/-- Every grammar refers to earlier ones only, names stand for grammars and
    none of them is missing. -/
structure Catalog.Founded (c : Catalog) : Prop where
  grammars : Highlighter.Founded c.grammars
  names : ∀ n ∈ c.names, n.2 < c.grammars.length
  reserved : c.reserved = []

theorem Catalog.founded_empty : ({} : Catalog).Founded where
  grammars _ _ h := nomatch h
  names _ h := nomatch h
  reserved := rfl

theorem Catalog.Founded.add {c : Catalog} (h : c.Founded) {g : Grammar}
    (hg : RulesFounded c.grammars.length g.rules) : (c.add g).2.Founded where
  grammars := by
    intro id g' hid
    rw [Catalog.add, List.getElem?_append] at hid
    split at hid
    · exact h.grammars id g' hid
    · next hlt =>
        rw [List.getElem?_singleton] at hid
        split at hid
        · next hzero =>
            obtain rfl := Option.some.inj hid
            exact hg.mono (by omega)
        · cases hid
  names := by
    intro n hn
    rw [Catalog.add, List.length_append]
    exact Nat.lt_add_right _ (h.names n hn)
  reserved := h.reserved

theorem Catalog.Founded.point {c : Catalog} (h : c.Founded) (name : String) {id : GrammarId}
    (hid : id < c.grammars.length) : (c.point name id).Founded where
  grammars := h.grammars
  names := by
    intro n hn
    rcases OrderedMap.mem_set hn with rfl | hn
    · exact hid
    · exact h.names n hn
  reserved := h.reserved

theorem Catalog.Founded.not_reserved {c : Catalog} (h : c.Founded) (name : String) :
    name ∉ c.reserved := by
  rw [h.reserved]
  exact List.not_mem_nil

theorem Catalog.Founded.grammarId? {c : Catalog} (h : c.Founded) (name : String) :
    c.grammarId? name = c.target? name := by
  rw [Catalog.grammarId?, h.reserved]
  rfl

/-- Every name in the table is a language. -/
theorem Catalog.Founded.mem_languages_iff {c : Catalog} (h : c.Founded) {n : String} :
    n ∈ c.languages ↔ n ∈ OrderedMap.names c.names :=
  Catalog.mem_languages_iff.trans (and_iff_left (h.not_reserved n))

/-- A grammar gets its name and stays the last one. -/
theorem Catalog.Founded.addLanguage {c : Catalog} (h : c.Founded) (name : String) {g : Grammar}
    (hg : RulesFounded c.grammars.length g.rules) :
    (c.addLanguage name g).2.Founded ∧
      (c.addLanguage name g).1 < (c.addLanguage name g).2.grammars.length ∧
      ∀ n, n ∈ OrderedMap.names (c.addLanguage name g).2.names ↔
        n = name ∨ n ∈ OrderedMap.names c.names := by
  rw [Catalog.addLanguage_of_not_reserved (h.not_reserved name)]
  have hlt : c.grammars.length < (c.add g).2.grammars.length := by
    rw [Catalog.add, List.length_append]
    exact Nat.lt_succ_self _
  exact ⟨(h.add hg).point name hlt, hlt, fun n => OrderedMap.mem_names_set⟩

/-- A grammar gets further names. -/
theorem Catalog.Founded.setLanguages {id : GrammarId} (names : List String) :
    ∀ {c : Catalog}, c.Founded → id < c.grammars.length →
      (names.foldl (fun c name => c.setLanguage name id) c).Founded ∧
        ∀ n, n ∈ OrderedMap.names (names.foldl (fun c name => c.setLanguage name id) c).names ↔
          n ∈ names ∨ n ∈ OrderedMap.names c.names := by
  induction names with
  | nil => exact fun h _ => ⟨h, fun n => (or_iff_right List.not_mem_nil).symm⟩
  | cons name names ih =>
      intro c h hid
      rw [List.foldl_cons, Catalog.setLanguage_of_not_reserved (h.not_reserved name)]
      obtain ⟨hfounded, hnames⟩ := ih (h.point name hid) hid
      refine ⟨hfounded, fun n => ?_⟩
      rw [hnames, List.mem_cons, or_assoc, or_left_comm]
      exact or_congr_right OrderedMap.mem_names_set

-- ── Documents ────────────────────────────────────────────────────────────

namespace Document

/-- What is read from the descriptor is a sound pattern. -/
structure Descriptor.Sound (d : Descriptor Reference) : Prop where
  program : ∃ e, (Regex.ofStrings d.pattern d.flags).program = .ok e ∧
    (d.lookbehind = true → e.leadsWithGroup = true)
  aliases : ∀ a ∈ d.aliases.toList, Unquoted a

theorem Descriptor.Sound.readable {d : Descriptor Reference} (h : d.Sound) :
    Readable d.pattern d.flags := by
  obtain ⟨e, he, -⟩ := h.program
  exact ⟨e, he⟩

mutual

/-- No language is mentioned in the reference, and its patterns are sound. -/
def Reference.SelfContained : Reference → Prop
  | .language _ => False
  | .inline entries rest => RulesContained entries ∧ InsideContained rest

/-- No language is mentioned in rules with unquoted names. -/
def RulesContained : List (String × PatternsForm Reference) → Prop
  | [] => True
  | (name, ps) :: entries => Unquoted name ∧ PatternsContained ps ∧ RulesContained entries

/-- No language is mentioned in the patterns of a token. -/
def PatternsContained : PatternsForm Reference → Prop
  | .single p => PatternContained p
  | .alternatives ps => AlternativesContained ps

/-- No language is mentioned in patterns in a row. -/
def AlternativesContained : List (PatternForm Reference) → Prop
  | [] => True
  | p :: ps => PatternContained p ∧ AlternativesContained ps

/-- No language is mentioned in a pattern, which is sound. -/
def PatternContained : PatternForm Reference → Prop
  | .source source => Descriptor.Sound { pattern := source }
  | .descriptor ⟨source, flags, lookbehind, greedy, aliases, grammar⟩ =>
      Descriptor.Sound ⟨source, flags, lookbehind, greedy, aliases, none⟩ ∧ InsideContained grammar

/-- No language is mentioned in a grammar inside, if there is one. -/
def InsideContained : Option Reference → Prop
  | none => True
  | some r => r.SelfContained

end

/-- The tokens mention no language, and their patterns are sound. -/
structure Tokens.SelfContained (t : Tokens) : Prop where
  rules : RulesContained t.entries
  rest : InsideContained t.rest

end Document

-- ── Loading ──────────────────────────────────────────────────────────────

namespace Load

variable {α β : Type}

/-- In a founded catalog of so many grammars or more the work succeeds, the
    catalog stays founded and has the same names, and what is made has the
    property with respect to the number of grammars in the end. -/
def Founds (bound : Nat) (P : Nat → α → Prop) (m : Load α) : Prop :=
  ∀ c : Catalog, c.Founded → bound ≤ c.grammars.length →
    ∃ a c', m c = (.ok a, c') ∧ c'.Founded ∧ c'.names = c.names ∧
      bound ≤ c'.grammars.length ∧ P c'.grammars.length a

variable {bound : Nat} {P : Nat → α → Prop} {Q : Nat → β → Prop}

theorem Founds.bind {m : Load α} {f : α → Load β} (hm : Founds bound P m)
    (hf : ∀ a more, bound ≤ more → P more a → Founds more Q (f a)) : Founds bound Q (m >>= f) := by
  intro c hc hle
  obtain ⟨a, c₁, hrun, hc₁, hnames₁, hle₁, ha⟩ := hm c hc hle
  obtain ⟨b, c₂, hrun', hc₂, hnames₂, hle₂, hb⟩ := hf a _ hle₁ ha c₁ hc₁ (Nat.le_refl _)
  refine ⟨b, c₂, ?_, hc₂, hnames₂.trans hnames₁, Nat.le_trans hle₁ hle₂, hb⟩
  rw [bind_apply, hrun]
  exact hrun'

theorem founds_pure {a : α} (h : ∀ more, bound ≤ more → P more a) :
    Founds bound P (pure a : Load α) :=
  fun c hc hle => ⟨a, c, rfl, hc, rfl, hle, h _ hle⟩

theorem founds_regex {source flags : String} (h : Document.Readable source flags) :
    Founds bound (fun _ r => r = Regex.ofStrings source flags) (regex source flags) := by
  intro c hc hle
  obtain ⟨e, he⟩ := h
  refine ⟨_, c, ?_, hc, rfl, hle, rfl⟩
  rw [regex]
  simp only [he]
  rfl

theorem founds_add {g : Grammar} (hg : RulesFounded bound g.rules) :
    Founds bound (fun count id => id < count) (add g) := by
  intro c hc hle
  refine ⟨_, _, rfl, hc.add (hg.mono hle), rfl, ?_, ?_⟩
  · rw [Catalog.add, List.length_append]
    exact Nat.le_add_right_of_le hle
  · rw [Catalog.add, List.length_append]
    exact Nat.lt_succ_self _

open Document

mutual

theorem reference_founds : ∀ {r : Reference} (bound : Nat), r.SelfContained →
    Founds bound (fun count id => id < count) (reference r)
  | .language name, bound, h => by
      rw [Reference.SelfContained] at h
      exact h.elim
  | .inline entries rest, bound, h => by
      rw [Reference.SelfContained] at h
      rw [reference]
      -- what is read first gets the smaller numbers
      refine (rules_founds bound h.1 (rulesFounded_nil bound)).bind fun g more _ hg => ?_
      refine (restRule_founds more h.2 hg).bind fun g more _ hg => ?_
      exact founds_add hg

theorem rules_founds : ∀ {entries : List (String × PatternsForm Reference)} (bound : Nat)
    {g : Grammar}, RulesContained entries → RulesFounded bound g.rules →
      Founds bound (fun count g => RulesFounded count g.rules) (rules entries g)
  | [], bound, g, _, hg => by
      rw [rules]
      exact founds_pure fun more hle => hg.mono hle
  | (name, ps) :: entries, bound, g, h, hg => by
      rw [RulesContained] at h
      rw [rules]
      refine (patterns_founds bound h.2.1).bind fun qs more hle hqs => ?_
      exact rules_founds more h.2.2 ((hg.mono hle).set h.1 hqs)

theorem restRule_founds : ∀ {rest : Option Reference} (bound : Nat) {g : Grammar},
    InsideContained rest → RulesFounded bound g.rules →
      Founds bound (fun count g => RulesFounded count g.rules) (restRule rest g)
  | none, bound, g, _, hg => by
      rw [restRule]
      exact founds_pure fun more hle => hg.mono hle
  | some r, bound, g, h, hg => by
      rw [InsideContained] at h
      rw [restRule]
      refine (reference_founds bound h).bind fun id more hle hid => founds_pure fun more' hle' => ?_
      exact (hg.mono (Nat.le_trans hle hle')).set (by decide)
        (Rule.Founded.mono (r := .grammar id) hid hle')

theorem patterns_founds : ∀ {ps : PatternsForm Reference} (bound : Nat), PatternsContained ps →
    Founds bound (fun count qs => Rule.Founded count (.patterns qs)) (patterns ps)
  | .single p, bound, h => by
      rw [PatternsContained] at h
      rw [patterns]
      refine (pattern_founds bound h).bind fun q more _ hq => founds_pure fun more' hle => ?_
      intro q' hq'
      obtain rfl := List.mem_singleton.mp hq'
      exact hq.mono hle
  | .alternatives ps, bound, h => by
      rw [PatternsContained] at h
      rw [patterns]
      refine (alternatives_founds bound h).bind fun qs more _ hqs => founds_pure fun more' hle => ?_
      exact Rule.Founded.mono (r := .patterns (.alternatives qs)) hqs hle

theorem alternatives_founds : ∀ {ps : List (PatternForm Reference)} (bound : Nat),
    AlternativesContained ps →
      Founds bound (fun count qs => Rule.Founded count (.patterns (.alternatives qs)))
        (alternatives ps)
  | [], bound, _ => by
      rw [alternatives]
      exact founds_pure fun _ _ q hq => absurd hq List.not_mem_nil
  | p :: ps, bound, h => by
      rw [AlternativesContained] at h
      rw [alternatives]
      refine (pattern_founds bound h.1).bind fun q more _ hq => ?_
      refine (alternatives_founds more h.2).bind fun qs more' hle hqs => ?_
      refine founds_pure fun more'' hle' => ?_
      intro q' hq'
      rcases List.mem_cons.mp hq' with rfl | hq'
      · exact hq.mono (Nat.le_trans hle hle')
      · exact (hqs q' hq').mono hle'

theorem pattern_founds : ∀ {p : PatternForm Reference} (bound : Nat), PatternContained p →
    Founds bound (fun count q => q.Founded count) (pattern p)
  | .source source, bound, h => by
      rw [PatternContained] at h
      rw [pattern]
      refine (founds_regex h.readable).bind fun r more _ hr => founds_pure fun more' _ => ?_
      obtain ⟨e, he, hleads⟩ := h.program
      rw [← hr] at he
      exact ⟨⟨⟨e, he, hleads⟩, h.aliases⟩, fun a ha => absurd ha.symm (Option.some_ne_none a)⟩
  | .descriptor ⟨source, flags, lookbehind, greedy, aliases, grammar⟩, bound, h => by
      rw [PatternContained] at h
      rw [pattern]
      refine (founds_regex h.1.readable).bind fun r more _ hr => ?_
      refine (inside_founds more h.2).bind fun i more' _ hi => founds_pure fun more'' hle => ?_
      obtain ⟨e, he, hleads⟩ := h.1.program
      rw [← hr] at he
      exact ⟨⟨⟨e, he, hleads⟩, h.1.aliases⟩, fun a ha => Nat.lt_of_lt_of_le (hi a ha) hle⟩

theorem inside_founds : ∀ {r : Option Reference} (bound : Nat), InsideContained r →
    Founds bound (fun count i => ∀ a, i = some a → a < count) (inside r)
  | none, bound, _ => by
      rw [inside]
      exact founds_pure fun _ _ a ha => absurd ha.symm (Option.some_ne_none a)
  | some r, bound, h => by
      rw [InsideContained] at h
      rw [inside]
      refine (reference_founds bound h).bind fun id more _ hid => founds_pure fun more' hle' => ?_
      intro a ha
      obtain rfl := Option.some.inj ha
      exact Nat.lt_of_lt_of_le hid hle'

end

theorem grammar_founds {t : Document.Tokens} (ht : t.SelfContained) (bound : Nat) :
    Founds bound (fun count g => RulesFounded count g.rules) (grammar t) := by
  refine (rules_founds bound ht.rules (rulesFounded_nil bound)).bind fun g more _ hg => ?_
  exact restRule_founds more ht.rest hg

end Load

namespace Catalog.Founded

variable {c : Catalog}

/-- A document that mentions no language can be loaded, and the names it
    gives are known then. -/
theorem load (h : c.Founded) {d : Document} (hd : d.tokens.SelfContained) :
    ∃ id c', c.load d = (.ok id, c') ∧ c'.Founded ∧
      ∀ n, n ∈ OrderedMap.names c'.names ↔ n ∈ d.given ∨ n ∈ OrderedMap.names c.names := by
  obtain ⟨g, loaded, hrun, hloaded, hsame, -, hg⟩ := Load.grammar_founds hd 0 c h (Nat.zero_le _)
  obtain ⟨hnamed, hlt, hname⟩ := hloaded.addLanguage d.name hg
  obtain ⟨hgiven, hnames⟩ := hnamed.setLanguages d.aliases hlt
  refine ⟨_, _, Catalog.load_of_ok hrun (Prod.eta _).symm, hgiven, fun n => ?_⟩
  rw [hnames, hname, hsame, Document.given, List.mem_cons, or_assoc, or_left_comm]

theorem foldl_addAlias {name : String} {id : GrammarId} (others : List String) :
    ∀ {c : Catalog}, c.Founded → id < c.grammars.length → c.grammarId? name = some id →
      others.foldl (fun c other => c.addAlias name other) c =
        others.foldl (fun c other => c.setLanguage other id) c := by
  induction others with
  | nil => exact fun _ _ _ => rfl
  | cons other others ih =>
      intro c h hlt hid
      have hpoint := h.point other hlt
      rw [List.foldl_cons, List.foldl_cons, Catalog.addAlias, hid]
      simp only
      rw [setLanguage_of_not_reserved (h.not_reserved other)]
      refine ih hpoint hlt ?_
      rw [hpoint.grammarId?, target?_point, ← h.grammarId?, hid, ite_self]

/-- Adding the plain language is loading a document without tokens. -/
theorem addPlain_eq_load (h : c.Founded) (aliases : List String) :
    (c.addPlain aliases).2 = (c.load { name := plainName, aliases, tokens := {} }).2 := by
  obtain ⟨hplain, hlt, -⟩ := h.addLanguage plainName (rulesFounded_nil c.grammars.length)
  have hid : (c.addLanguage plainName {}).2.grammarId? plainName =
      some (c.addLanguage plainName {}).1 := by
    rw [hplain.grammarId?, addLanguage_of_not_reserved (h.not_reserved plainName), target?_point,
      if_pos rfl]
  have hempty : Load.grammar {} c = (.ok {}, c) := rfl
  rw [Catalog.load_of_ok hempty (Prod.eta _).symm]
  exact foldl_addAlias aliases hplain hlt hid

theorem lt_of_grammarId? (h : c.Founded) {name : String} {id : GrammarId}
    (hid : c.grammarId? name = some id) : id < c.grammars.length := by
  rw [h.grammarId?] at hid
  exact h.names _ (OrderedMap.mem_of_get? hid)

/-- Every text can be tokenized with the grammar of every language, unless
    a match is given up. -/
theorem tokenize_ok (h : c.Founded) {name : String} (hname : name ∈ c.languages) (text : String) :
    ∃ id, c.grammarId? name = some id ∧
      ((∃ fs, Tokenizer.tokenize c.grammars id text = .ok fs ∧ texts fs = text ∧
          Fragment.AllUnquoted fs) ∨
        ∃ regex, Tokenizer.tokenize c.grammars id text = .error (.gaveUp regex) ∧
          Tokenizer.GivesUp c.grammars text regex) := by
  obtain ⟨id, hid⟩ := OrderedMap.exists_get?_of_mem_names (h.mem_languages_iff.mp hname)
  have hgrammar : c.grammarId? name = some id := (h.grammarId? name).trans hid
  exact ⟨id, hgrammar, h.grammars.tokenize_ok (h.lt_of_grammarId? hgrammar) text⟩

end Catalog.Founded

end Highlighter
