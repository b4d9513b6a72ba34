import Highlighter.Proofs.Registry.Places

/-! # What the rules of a document refer to

    Reading a document makes rules.  Every regex in them can be read, for a
    broken one ends the work; and every number in them was got from the
    catalog, by linking a name or by adding a grammar whose rules were made
    before (`Rule.Made`).

    `Catalog.UpheldIn` says what is asked of an invariant of catalogs, of a
    property of numbers and of one of the grammar in the making, so that
    reading keeps the first and yields the others.  That reading does so is
    a triple for each form of the syntax, `Load.Upholds`, with growth beside
    the invariant: what was made before is still good in the catalog that
    has grown since (`Load.grammar_upholdsIn`).  For grammars of rules that
    were made, the invariant and the numbers are all there is to ask
    (`Catalog.Upheld`). -/

namespace Highlighter

-- ── Rules that were made ─────────────────────────────────────────────────

/-- The regexes of the patterns of a rule. -/
def Rule.regexes : Rule → List Regex
  | .patterns ps => ps.toList.map Pattern.regex
  | .grammar _ => []

@[simp] theorem Rule.regexes_mapReferences (f : GrammarId → GrammarId) (r : Rule) :
    (r.mapReferences f).regexes = r.regexes := by
  cases r with
  | grammar id => rfl
  | patterns ps =>
      simp only [Rule.mapReferences, Rule.regexes, Patterns.toList_map, List.map_map]
      rfl

/-- A regex whose source can be read. -/
def Regex.Readable (r : Regex) : Prop := ∃ e, r.program = .ok e

/-- A rule with regexes that can be read and with numbers that have a
    property. -/
structure Rule.Made (X : GrammarId → Prop) (r : Rule) : Prop where
  regexes : ∀ x ∈ r.regexes, x.Readable
  references : ∀ a ∈ r.references, X a

/-- A grammar all of whose rules were made. -/
def Grammar.Made (X : GrammarId → Prop) (g : Grammar) : Prop := ∀ r ∈ g.rules, r.2.Made X

section Made

variable {X Y : GrammarId → Prop}

theorem Rule.Made.mono {r : Rule} (h : r.Made X) (hXY : ∀ a, X a → Y a) : r.Made Y :=
  ⟨h.regexes, fun a ha => hXY a (h.references a ha)⟩

theorem Rule.made_grammar {a : GrammarId} (h : X a) : (Rule.grammar a).Made X where
  regexes x hx := absurd hx List.not_mem_nil
  references b hb := by
    rw [List.mem_singleton.mp hb]
    exact h

theorem Rule.made_single {p : Pattern} (hp : p.regex.Readable)
    (hinside : ∀ a, p.inside = some a → X a) : (Rule.patterns (.single p)).Made X where
  regexes x hx := by
    rw [List.mem_singleton.mp hx]
    exact hp
  references a ha := by
    obtain ⟨q, hq, hqa⟩ := List.mem_filterMap.mp ha
    rw [List.mem_singleton.mp hq] at hqa
    exact hinside a hqa

theorem Rule.made_nil : (Rule.patterns (.alternatives [])).Made X where
  regexes _ hx := absurd hx List.not_mem_nil
  references _ ha := absurd ha List.not_mem_nil

/-- Alternatives are made one after the other. -/
theorem Rule.Made.cons {p : Pattern} {ps : List Pattern} (h : (Rule.patterns (.single p)).Made X)
    (hs : (Rule.patterns (.alternatives ps)).Made X) :
    (Rule.patterns (.alternatives (p :: ps))).Made X where
  regexes x hx := by
    rcases List.mem_cons.mp hx with rfl | hx
    · exact h.regexes _ List.mem_cons_self
    · exact hs.regexes x hx
  references a ha := by
    obtain ⟨q, hq, hinside⟩ := List.mem_filterMap.mp ha
    rcases List.mem_cons.mp hq with rfl | hq
    · exact h.references a (List.mem_filterMap.mpr ⟨q, List.mem_cons_self, hinside⟩)
    · exact hs.references a (List.mem_filterMap.mpr ⟨q, hq, hinside⟩)

theorem Grammar.made_empty : ({} : Grammar).Made X := fun _ hr => absurd hr List.not_mem_nil

theorem Grammar.Made.mono {g : Grammar} (h : g.Made X) (hXY : ∀ a, X a → Y a) : g.Made Y :=
  fun r hr => (h r hr).mono hXY

theorem Grammar.Made.set {g : Grammar} (h : g.Made X) (name : String) {r : Rule} (hr : r.Made X) :
    (g.set name r).Made X := by
  intro e he
  rcases OrderedMap.mem_set he with rfl | he
  · exact hr
  · exact h e he

theorem Grammar.Made.references {g : Grammar} (h : g.Made X) : ∀ a ∈ g.references, X a := by
  intro a ha
  obtain ⟨r, hr, ha⟩ := List.mem_flatMap.mp ha
  exact (h r hr).references a ha

end Made

-- ── What reading keeps ───────────────────────────────────────────────────

/-- An invariant of catalogs and a property of numbers that the steps of
    reading uphold: what they have the property of, keeps it as catalogs
    grow. -/
structure Catalog.Upheld (I : Catalog → Prop) (X : Catalog → GrammarId → Prop) : Prop where
  grows : ∀ {c c' : Catalog} {a : GrammarId}, c.Grows c' → X c a → X c' a
  link : ∀ {c : Catalog} (name : String), I c →
    I (c.link name).2 ∧ X (c.link name).2 (c.link name).1
  add : ∀ {c : Catalog} {g : Grammar}, I c → g.Made (X c) →
    I (c.add g).2 ∧ X (c.add g).2 (c.add g).1

/-- An invariant of catalogs, a property of numbers and one of grammars
    that the steps of reading uphold.  What is made keeps its property as
    catalogs grow. -/
structure Catalog.UpheldIn (I : Catalog → Prop) (X : Catalog → GrammarId → Prop)
    (G : Catalog → Grammar → Prop) : Prop where
  grows : ∀ {c c' : Catalog} {a : GrammarId}, c.Grows c' → X c a → X c' a
  keeps : ∀ {c c' : Catalog} {g : Grammar}, c.Grows c' → G c g → G c' g
  link : ∀ {c : Catalog} (name : String), I c →
    I (c.link name).2 ∧ X (c.link name).2 (c.link name).1
  empty : ∀ {c : Catalog}, G c {}
  set : ∀ {c : Catalog} {g : Grammar} {r : Rule} (name : String), G c g → r.Made (X c) →
    G c (g.set name r)
  add : ∀ {c : Catalog} {g : Grammar}, I c → G c g →
    I (c.add g).2 ∧ X (c.add g).2 (c.add g).1

theorem Catalog.Upheld.made {I : Catalog → Prop} {X : Catalog → GrammarId → Prop}
    (h : Catalog.Upheld I X) : Catalog.UpheldIn I X fun c g => g.Made (X c) where
  grows := h.grows
  keeps hgrows hg := hg.mono fun _ => h.grows hgrows
  link := h.link
  empty := Grammar.made_empty
  set name hg hr := hg.set name hr
  add := h.add

namespace Load

variable {α β : Type} {I : Catalog → Prop} {X : Catalog → GrammarId → Prop}
  {G : Catalog → Grammar → Prop} {P : Catalog → α → Prop} {Q : Catalog → β → Prop}

/-- In the catalog `c` the work keeps the invariant, lets the catalog grow,
    and what it makes has the property in the catalog that it leaves. -/
def Upholds (I : Catalog → Prop) (P : Catalog → α → Prop) (c : Catalog) (m : Load α) : Prop :=
  I c → c.Grows (m c).2 ∧ I (m c).2 ∧ ∀ a, (m c).1 = .ok a → P (m c).2 a

theorem Upholds.bind {c : Catalog} {m : Load α} {f : α → Load β} (hm : Upholds I P c m)
    (hf : ∀ a c', c.Grows c' → P c' a → Upholds I Q c' (f a)) : Upholds I Q c (m >>= f) := by
  intro hc
  obtain ⟨hgrows, hI, hP⟩ := hm hc
  rw [bind_apply]
  rcases h : m c with ⟨r, c'⟩
  rw [h] at hgrows hI hP
  cases r with
  | error e => exact ⟨hgrows, hI, fun b hb => nomatch hb⟩
  | ok a =>
      obtain ⟨hgrows', hI', hQ⟩ := hf a c' hgrows (hP a rfl) hI
      exact ⟨Catalog.grows_stepwise.trans _ _ _ hgrows hgrows', hI', hQ⟩

theorem upholds_pure {c : Catalog} {a : α} (h : P c a) : Upholds I P c (pure a : Load α) := by
  intro hc
  refine ⟨Catalog.grows_stepwise.refl c, hc, fun b hb => ?_⟩
  rw [← Except.ok.inj hb]
  exact h

theorem regex_upholds (c : Catalog) (source flags : String) :
    Upholds I (fun _ r => r.Readable) c (regex source flags) := by
  intro hc
  unfold regex
  cases hread : (Regex.ofStrings source flags).program with
  | error e => exact ⟨Catalog.grows_stepwise.refl c, hc, fun r hr => nomatch hr⟩
  | ok e =>
      refine ⟨Catalog.grows_stepwise.refl c, hc, fun r hr => ?_⟩
      rw [← Except.ok.inj hr]
      exact ⟨e, hread⟩

section Upholds

open Document

theorem link_upholds (hX : Catalog.UpheldIn I X G) (c : Catalog) (name : String) :
    Upholds I X c (link name) := by
  intro hc
  obtain ⟨hI, hid⟩ := hX.link name hc
  refine ⟨Catalog.grows_stepwise.link c name, hI, fun a ha => ?_⟩
  rw [← Except.ok.inj ha]
  exact hid

theorem add_upholds (hX : Catalog.UpheldIn I X G) {c : Catalog} {g : Grammar} (hg : G c g) :
    Upholds I X c (add g) := by
  intro hc
  obtain ⟨hI, hid⟩ := hX.add hc hg
  refine ⟨Catalog.grows_stepwise.add c g, hI, fun a ha => ?_⟩
  rw [← Except.ok.inj ha]
  exact hid

mutual

theorem reference_upholds (hX : Catalog.UpheldIn I X G) : ∀ (c : Catalog) (r : Reference),
    Upholds I X c (reference r)
  | c, .language name => by
      rw [reference]
      exact link_upholds hX c name
  | c, .inline entries rest => by
      rw [reference]
      refine (rules_upholds hX c entries hX.empty).bind fun g c₁ _ hg => ?_
      refine (restRule_upholds hX c₁ rest hg).bind fun g c₂ _ hg => ?_
      exact add_upholds hX hg

theorem rules_upholds (hX : Catalog.UpheldIn I X G) : ∀ (c : Catalog)
    (entries : List (String × PatternsForm Reference)) {g : Grammar},
    G c g → Upholds I G c (rules entries g)
  | c, [], g, hg => by
      rw [rules]
      exact upholds_pure hg
  | c, (name, ps) :: entries, g, hg => by
      rw [rules]
      refine (patterns_upholds hX c ps).bind fun qs c₁ hgrows hqs => ?_
      -- the rules made before are good in the catalog that has grown
      exact rules_upholds hX c₁ entries (hX.set name (hX.keeps hgrows hg) hqs)

theorem restRule_upholds (hX : Catalog.UpheldIn I X G) : ∀ (c : Catalog) (rest : Option Reference)
    {g : Grammar}, G c g → Upholds I G c (restRule rest g)
  | c, none, g, hg => by
      rw [restRule]
      exact upholds_pure hg
  | c, some r, g, hg => by
      rw [restRule]
      refine (reference_upholds hX c r).bind fun id c₁ hgrows hid => upholds_pure ?_
      exact hX.set restName (hX.keeps hgrows hg) (Rule.made_grammar hid)

theorem patterns_upholds (hX : Catalog.UpheldIn I X G) : ∀ (c : Catalog)
    (ps : PatternsForm Reference),
    Upholds I (fun c qs => (Rule.patterns qs).Made (X c)) c (patterns ps)
  | c, .single p => by
      rw [patterns]
      exact (pattern_upholds hX c p).bind fun q c₁ _ hq => upholds_pure hq
  | c, .alternatives ps => by
      rw [patterns]
      exact (alternatives_upholds hX c ps).bind fun qs c₁ _ hqs => upholds_pure hqs

theorem alternatives_upholds (hX : Catalog.UpheldIn I X G) : ∀ (c : Catalog)
    (ps : List (PatternForm Reference)),
    Upholds I (fun c qs => (Rule.patterns (.alternatives qs)).Made (X c)) c (alternatives ps)
  | c, [] => by
      rw [alternatives]
      exact upholds_pure Rule.made_nil
  | c, p :: ps => by
      rw [alternatives]
      refine (pattern_upholds hX c p).bind fun q c₁ _ hq => ?_
      refine (alternatives_upholds hX c₁ ps).bind fun qs c₂ hgrows hqs => upholds_pure ?_
      exact (hq.mono fun _ => hX.grows hgrows).cons hqs

theorem pattern_upholds (hX : Catalog.UpheldIn I X G) : ∀ (c : Catalog) (p : PatternForm Reference),
    Upholds I (fun c q => (Rule.patterns (.single q)).Made (X c)) c (pattern p)
  | c, .source source => by
      rw [pattern]
      refine (regex_upholds c source "").bind fun r c₁ _ hr => upholds_pure ?_
      exact Rule.made_single hr nofun
  | c, .descriptor ⟨source, flags, lookbehind, greedy, aliases, grammar⟩ => by
      rw [pattern]
      refine (regex_upholds c source flags).bind fun r c₁ _ hr => ?_
      refine (inside_upholds hX c₁ grammar).bind fun i c₂ _ hi => upholds_pure ?_
      exact Rule.made_single hr hi

theorem inside_upholds (hX : Catalog.UpheldIn I X G) : ∀ (c : Catalog) (r : Option Reference),
    Upholds I (fun c i => ∀ a, i = some a → X c a) c (inside r)
  | c, none => by
      rw [inside]
      exact upholds_pure nofun
  | c, some r => by
      rw [inside]
      refine (reference_upholds hX c r).bind fun id c₁ _ hid => upholds_pure fun a ha => ?_
      rw [← Option.some.inj ha]
      exact hid

end

/-- Reading tokens keeps the invariant, and the grammar has the property
    of those in the making. -/
theorem grammar_upholdsIn (hX : Catalog.UpheldIn I X G) (c : Catalog) (t : Tokens) :
    Upholds I G c (grammar t) := by
  rw [grammar]
  refine (rules_upholds hX c t.entries hX.empty).bind fun g c₁ _ hg => ?_
  exact restRule_upholds hX c₁ t.rest hg

/-- Reading tokens keeps the invariant, and every rule of the grammar has
    been made, whether it is read to the end or not. -/
theorem grammar_upholds (hX : Catalog.Upheld I X) (c : Catalog) (t : Tokens) :
    Upholds I (fun c g => g.Made (X c)) c (grammar t) :=
  grammar_upholdsIn hX.made c t

end Upholds

end Load

end Highlighter
