import Highlighter.Proofs.Registry.Giving
import Highlighter.Proofs.Registry.Rollback

/-! # What loading a document does

    Reading the tokens of a document makes the grammar that is written,
    as far as can be seen from any later catalog, and makes the languages
    it mentions known (`Load.grammar_makes`).  Whether that works depends on
    the document alone (`Load.grammar_succeeds`).

    So a load has one of two outcomes.  If the document can be loaded, the
    catalog grows by what is read and then has the names of the document
    given to its grammar (`Catalog.load_given`); if not, it stays as it is
    (`Catalog.load_of_not_loadable`).  What both steps keep, a sequence of
    loads keeps (`Catalog.loadEach_keeps`); for one, a language is what some
    document has given (`Catalog.isLanguage_loadEach_iff`). -/

namespace Highlighter

open Document (View Readable Reference Descriptor PatternForm PatternsForm)

namespace Load

variable {α β : Type}

-- ── What reading makes ───────────────────────────────────────────────────

/-- Work that mentions the names `ns`.  When it succeeds, the catalog has
    grown, knows them and no others in addition, and what has been made
    satisfies `P` in every catalog that grows from there. -/
def Makes (ns : List String) (P : View → α → Prop) (m : Load α) : Prop :=
  ∀ c : Catalog, c.Placed → ∀ a c', m c = (.ok a, c') →
    c.Grows c' ∧ c'.Placed ∧
      (∀ n, n ∈ OrderedMap.names c'.names ↔ n ∈ OrderedMap.names c.names ∨ n ∈ ns) ∧
      ∀ later, c'.Grows later → P later.view a

/-- Work that succeeds has succeeded in both its parts. -/
theorem bind_ok {m : Load α} {f : α → Load β} {c c' : Catalog} {b : β}
    (h : (m >>= f) c = (.ok b, c')) :
    ∃ a c₁, m c = (.ok a, c₁) ∧ f a c₁ = (.ok b, c') := by
  rw [bind_apply] at h
  rcases hm : m c with ⟨r, c₁⟩
  rw [hm] at h
  cases r with
  | error e => exact nomatch congrArg Prod.fst h
  | ok a => exact ⟨a, c₁, rfl, h⟩

section Makes

variable {ns ns' : List String} {P : View → α → Prop} {Q : View → β → Prop}

theorem Makes.bind {m : Load α} {f : α → Load β} (hm : Makes ns P m)
    (hf : ∀ a, Makes ns' (fun V b => P V a → Q V b) (f a)) :
    Makes (ns ++ ns') Q (m >>= f) := by
  intro c hc b c' h
  obtain ⟨a, c₁, ha, hb⟩ := bind_ok h
  obtain ⟨hgrows, hplaced, hnames, hP⟩ := hm c hc a c₁ ha
  obtain ⟨hgrows', hplaced', hnames', hQ⟩ := hf a c₁ hplaced b c' hb
  refine ⟨Catalog.grows_stepwise.trans _ _ _ hgrows hgrows', hplaced', fun n => ?_,
    fun later hlater => ?_⟩
  · rw [hnames', hnames, List.mem_append, or_assoc]
  · exact hQ later hlater (hP later (Catalog.grows_stepwise.trans _ _ _ hgrows' hlater))

theorem makes_pure {a : α} (h : ∀ V, P V a) : Makes [] P (pure a : Load α) := by
  intro c hc b c' hb
  cases hb
  exact ⟨Catalog.grows_stepwise.refl c, hc, by simp, fun later _ => h later.view⟩

theorem Makes.mono {P' : View → α → Prop} {m : Load α} (hm : Makes ns P m)
    (h : ∀ V a, P V a → P' V a) : Makes ns P' m := by
  intro c hc a c' ha
  obtain ⟨hgrows, hplaced, hnames, hP⟩ := hm c hc a c' ha
  exact ⟨hgrows, hplaced, hnames, fun later hlater => h later.view a (hP later hlater)⟩

/-- Work whose result is changed at the end. -/
theorem Makes.map {m : Load α} {f : α → β} (hm : Makes ns P m)
    (hf : ∀ V a, P V a → Q V (f a)) : Makes ns Q (m >>= fun a => pure (f a)) := by
  have := hm.bind (Q := Q) fun a => makes_pure (a := f a) fun V => hf V a
  rw [List.append_nil] at this
  exact this

theorem regex_makes (source flags : String) :
    Makes [] (fun _ r => Readable source flags ∧ r = Regex.ofStrings source flags)
      (regex source flags) := by
  intro c hc r c' h
  unfold regex at h
  cases hread : (Regex.ofStrings source flags).program with
  | ok e =>
      rw [hread] at h
      cases h
      exact ⟨Catalog.grows_stepwise.refl c, hc, by simp, fun _ _ => ⟨⟨e, hread⟩, rfl⟩⟩
  | error e =>
      rw [hread] at h
      exact nomatch congrArg Prod.fst h

theorem link_makes (name : String) :
    Makes [name] (fun V id => V.names name id) (link name) := by
  intro c hc id c' h
  have hgrows := Catalog.grows_stepwise.link c name
  have hplaced := hc.link name
  rw [link] at h
  obtain ⟨hid, rfl⟩ := Prod.mk.inj h
  cases hid
  have htarget : (c.link name).2.target? name = some (c.link name).1
      ∧ ∀ n, n ∈ OrderedMap.names (c.link name).2.names
        ↔ n ∈ OrderedMap.names c.names ∨ n ∈ [name] := by
    cases hname : c.target? name with
    | some id =>
        rw [Catalog.link_of_target? hname]
        refine ⟨hname, fun n => ⟨.inl, fun hn => hn.elim (fun hn => hn) fun hn => ?_⟩⟩
        rw [List.mem_singleton.mp hn]
        exact OrderedMap.mem_names_of_get? hname
    | none =>
        refine ⟨?_, fun n => ?_⟩
        · rw [Catalog.target?_link hname, if_pos rfl, Catalog.link_of_target?_eq_none hname]
        · rw [Catalog.link_of_target?_eq_none hname, OrderedMap.names, List.map_append,
            List.mem_append]
          rfl
  exact ⟨hgrows, hplaced, htarget.2, fun later hlater => hlater.target? htarget.1⟩

theorem add_makes (g : Grammar) : Makes [] (fun V id => V.holds id g) (add g) := by
  intro c hc id c' h
  have hgrows := Catalog.grows_stepwise.add c g
  have hplaced := hc.add g
  rw [add] at h
  obtain ⟨hid, rfl⟩ := Prod.mk.inj h
  cases hid
  refine ⟨hgrows, hplaced, by simp [Catalog.add], fun later hlater => ?_⟩
  refine hlater.holds hplaced ⟨List.getElem?_concat_length .., fun hplace => ?_⟩
  -- a place is older than the grammar
  exact absurd (hc.isPlace_lt hplace) (Nat.lt_irrefl _)

open Document

mutual

theorem reference_makes : ∀ r : Reference,
    Makes r.mentions (fun V id => r.Unfolds V id) (reference r)
  | .language name => by
      simp only [Reference.mentions, Reference.Unfolds, reference]
      exact link_makes name
  | .inline entries rest => by
      simp only [Reference.mentions, Reference.Unfolds, reference]
      refine (rules_makes entries {}).bind fun g => ?_
      have := (restRule_makes rest g).bind fun h => (add_makes h).mono
        fun V id hid (hrest : RestUnfolds V rest g h) (hrules : RulesUnfold V entries {} g) =>
          show ∃ g h, RulesUnfold V entries {} g ∧ RestUnfolds V rest g h ∧ V.holds id h from
            ⟨g, h, hrules, hrest, hid⟩
      rw [List.append_nil] at this
      exact this

theorem rules_makes : ∀ (entries : List (String × PatternsForm Reference)) (g : Grammar),
    Makes (rulesMention entries) (fun V h => RulesUnfold V entries g h) (rules entries g)
  | [], g => by
      simp only [rulesMention, RulesUnfold, rules]
      exact makes_pure fun _ => rfl
  | (name, ps) :: entries, g => by
      simp only [rulesMention, RulesUnfold, rules]
      exact (patterns_makes ps).bind fun qs =>
        (rules_makes entries _).mono fun V h hentries hqs => ⟨qs, hqs, hentries⟩

theorem restRule_makes : ∀ (rest : Option Reference) (g : Grammar),
    Makes (insideMentions rest) (fun V h => RestUnfolds V rest g h) (restRule rest g)
  | none, g => by
      simp only [insideMentions, RestUnfolds, restRule]
      exact makes_pure fun _ => rfl
  | some r, g => by
      simp only [insideMentions, RestUnfolds, restRule]
      exact (reference_makes r).map fun V id hid => ⟨id, hid, rfl⟩

theorem patterns_makes : ∀ ps : PatternsForm Reference,
    Makes (patternsMention ps) (fun V qs => PatternsUnfold V ps qs) (patterns ps)
  | .single p => by
      simp only [patternsMention, PatternsUnfold, patterns]
      exact (pattern_makes p).map fun V q hq => ⟨q, hq, rfl⟩
  | .alternatives ps => by
      simp only [patternsMention, PatternsUnfold, patterns]
      exact (alternatives_makes ps).map fun V qs hqs => ⟨qs, hqs, rfl⟩

theorem alternatives_makes : ∀ ps : List (PatternForm Reference),
    Makes (alternativesMention ps) (fun V qs => AlternativesUnfold V ps qs) (alternatives ps)
  | [] => by
      simp only [alternativesMention, AlternativesUnfold, alternatives]
      exact makes_pure fun _ => rfl
  | p :: ps => by
      simp only [alternativesMention, AlternativesUnfold, alternatives]
      exact (pattern_makes p).bind fun q =>
        (alternatives_makes ps).map fun V qs hqs hq => ⟨q, qs, hq, hqs, rfl⟩

theorem pattern_makes : ∀ p : PatternForm Reference,
    Makes (patternMentions p) (fun V q => PatternUnfolds V p q) (pattern p)
  | .source source => by
      simp only [patternMentions, PatternUnfolds, pattern]
      exact (regex_makes source "").map fun V r hr => ⟨hr.1, by rw [hr.2]⟩
  | .descriptor ⟨source, flags, lookbehind, greedy, aliases, grammar⟩ => by
      simp only [patternMentions, PatternUnfolds, pattern]
      exact (regex_makes source flags).bind fun r =>
        (inside_makes grammar).map fun V i hi hr => ⟨hr.1, i, hi, by rw [hr.2]⟩

theorem inside_makes : ∀ r : Option Reference,
    Makes (insideMentions r) (fun V i => InsideUnfolds V r i) (inside r)
  | none => by
      simp only [insideMentions, InsideUnfolds, inside]
      exact makes_pure fun _ => rfl
  | some r => by
      simp only [insideMentions, InsideUnfolds, inside]
      exact (reference_makes r).map fun V id hid => ⟨id, hid, rfl⟩

end

/-- Reading tokens makes the grammar that is written. -/
theorem grammar_makes (t : Tokens) :
    Makes t.mentions (fun V g => TokensUnfold V t g) (grammar t) := by
  refine (rules_makes t.entries {}).bind fun g => ?_
  exact (restRule_makes t.rest g).mono fun V h hrest hrules => ⟨g, hrules, hrest⟩

end Makes

-- ── When reading succeeds ────────────────────────────────────────────────

/-- Work that succeeds whatever the catalog. -/
def Succeeds (m : Load α) : Prop := ∀ c : Catalog, ∃ a c', m c = (.ok a, c')

theorem Succeeds.bind {m : Load α} {f : α → Load β} (hm : Succeeds m)
    (hf : ∀ a, Succeeds (f a)) : Succeeds (m >>= f) := by
  intro c
  obtain ⟨a, c₁, ha⟩ := hm c
  obtain ⟨b, c', hb⟩ := hf a c₁
  refine ⟨b, c', ?_⟩
  rw [bind_apply, ha]
  exact hb

theorem succeeds_pure (a : α) : Succeeds (pure a : Load α) := fun c => ⟨a, c, rfl⟩

theorem regex_succeeds {source flags : String} (h : Readable source flags) :
    Succeeds (regex source flags) := by
  obtain ⟨e, he⟩ := h
  intro c
  unfold regex
  rw [he]
  exact succeeds_pure _ c

section Succeeds

open Document

variable {V : View}

mutual

theorem reference_succeeds :
    ∀ {r : Reference} {id : GrammarId}, r.Unfolds V id → Succeeds (reference r)
  | .language name, id, _ => by
      rw [reference]
      exact fun c => ⟨_, _, rfl⟩
  | .inline entries rest, id, h => by
      rw [Reference.Unfolds] at h
      obtain ⟨g, g', hrules, hrest, -⟩ := h
      rw [reference]
      refine (rules_succeeds hrules {}).bind fun g => ?_
      refine (restRule_succeeds hrest g).bind fun g => ?_
      exact fun c => ⟨_, _, rfl⟩

theorem rules_succeeds :
    ∀ {entries : List (String × PatternsForm Reference)} {g h : Grammar},
      RulesUnfold V entries g h → ∀ g', Succeeds (rules entries g')
  | [], g, h, _ => fun g' => by
      rw [rules]
      exact succeeds_pure g'
  | (name, ps) :: entries, g, h, hr => fun g' => by
      rw [RulesUnfold] at hr
      obtain ⟨qs, hps, hr⟩ := hr
      rw [rules]
      exact (patterns_succeeds hps).bind fun ps => rules_succeeds hr _

theorem restRule_succeeds :
    ∀ {rest : Option Reference} {g h : Grammar}, RestUnfolds V rest g h →
      ∀ g', Succeeds (restRule rest g')
  | none, g, h, _ => fun g' => by
      rw [restRule]
      exact succeeds_pure g'
  | some r, g, h, hr => fun g' => by
      rw [RestUnfolds] at hr
      obtain ⟨id, hid, -⟩ := hr
      rw [restRule]
      exact (reference_succeeds hid).bind fun id => succeeds_pure _

theorem patterns_succeeds :
    ∀ {ps : PatternsForm Reference} {qs : Patterns}, PatternsUnfold V ps qs →
      Succeeds (patterns ps)
  | .single p, qs, h => by
      rw [PatternsUnfold] at h
      obtain ⟨q, hq, -⟩ := h
      rw [patterns]
      exact (pattern_succeeds hq).bind fun q => succeeds_pure _
  | .alternatives ps, qs, h => by
      rw [PatternsUnfold] at h
      obtain ⟨rs, hrs, -⟩ := h
      rw [patterns]
      exact (alternatives_succeeds hrs).bind fun rs => succeeds_pure _

theorem alternatives_succeeds :
    ∀ {ps : List (PatternForm Reference)} {qs : List Pattern}, AlternativesUnfold V ps qs →
      Succeeds (alternatives ps)
  | [], qs, _ => by
      rw [alternatives]
      exact succeeds_pure []
  | p :: ps, qs, h => by
      rw [AlternativesUnfold] at h
      obtain ⟨r, rs, hr, hrs, -⟩ := h
      rw [alternatives]
      refine (pattern_succeeds hr).bind fun r => ?_
      exact (alternatives_succeeds hrs).bind fun rs => succeeds_pure _

theorem pattern_succeeds :
    ∀ {p : PatternForm Reference} {q : Pattern}, PatternUnfolds V p q → Succeeds (pattern p)
  | .source source, q, h => by
      rw [PatternUnfolds] at h
      rw [pattern]
      exact (regex_succeeds h.1).bind fun r => succeeds_pure _
  | .descriptor ⟨source, flags, lookbehind, greedy, aliases, grammar⟩, q, h => by
      rw [PatternUnfolds] at h
      obtain ⟨hreadable, i, hi, -⟩ := h
      rw [pattern]
      refine (regex_succeeds hreadable).bind fun r => ?_
      exact (inside_succeeds hi).bind fun i => succeeds_pure _

theorem inside_succeeds :
    ∀ {r : Option Reference} {i : Option GrammarId}, InsideUnfolds V r i → Succeeds (inside r)
  | none, i, _ => by
      rw [inside]
      exact succeeds_pure none
  | some r, i, h => by
      rw [InsideUnfolds] at h
      obtain ⟨id, hid, -⟩ := h
      rw [inside]
      exact (reference_succeeds hid).bind fun id => succeeds_pure _

end

/-- Tokens that unfold anywhere can be read everywhere. -/
theorem grammar_succeeds {t : Tokens} {g : Grammar} (h : TokensUnfold V t g) :
    Succeeds (grammar t) := by
  obtain ⟨g', hrules, hrest⟩ := h
  exact (rules_succeeds hrules {}).bind fun g => restRule_succeeds hrest g

end Succeeds

end Load

-- ── One load ─────────────────────────────────────────────────────────────

/-- Whether a document can be loaded. -/
def Document.loadable (d : Document) : Bool := (({} : Catalog).load d).1.isOk

namespace Catalog

variable {c c' : Catalog} {d : Document}

/-- A load that succeeds: the catalog grows to `l`, in which the tokens are
    those of the grammar `g`, and there all names are given to `g`. -/
theorem load_given (hc : c.Placed) {id : GrammarId} (h : c.load d = (.ok id, c')) :
    ∃ l g, c.Grows l ∧ l.Placed ∧
      (∀ n, n ∈ OrderedMap.names l.names ↔
        n ∈ OrderedMap.names c.names ∨ n ∈ d.tokens.mentions) ∧
      Document.TokensUnfold l.view d.tokens g ∧ Given l g id d.given c' := by
  rcases hl : Load.grammar d.tokens c with ⟨r, l⟩
  cases r with
  | error e =>
      rw [load_of_error hl] at h
      exact nomatch congrArg Prod.fst h
  | ok g =>
      obtain ⟨hgrows, hplaced, hnames, hunfolds⟩ := Load.grammar_makes d.tokens c hc g l hl
      rw [load_of_ok hl rfl] at h
      obtain ⟨hid, rfl⟩ := Prod.mk.inj h
      cases hid
      exact ⟨l, g, hgrows, hplaced, hnames, hunfolds l (grows_stepwise.refl l),
        (given_addLanguage hplaced d.name g).setLanguages hplaced d.aliases⟩

/-- A load that fails. -/
theorem load_failed (hc : c.Placed) {e : Error} (h : c.load d = (.error e, c')) : c' = c :=
  load_restores (fun _ hn => hc.mem_names hn) (fun _ hn => hc.lt_of_mem hn) h

/-- A document that can be loaded somewhere can be loaded everywhere. -/
theorem load_succeeds (hc : c.Placed) {id : GrammarId} (h : c.load d = (.ok id, c'))
    (c₁ : Catalog) : ∃ id₁ c₁', c₁.load d = (.ok id₁, c₁') := by
  obtain ⟨l, g, -, -, -, hunfolds, -⟩ := load_given hc h
  obtain ⟨g₁, l₁, hl₁⟩ := Load.grammar_succeeds hunfolds c₁
  exact ⟨_, _, load_of_ok hl₁ rfl⟩

theorem loadable_of_load (hc : c.Placed) {id : GrammarId} (h : c.load d = (.ok id, c')) :
    d.loadable = true := by
  obtain ⟨id₁, c₁, h₁⟩ := load_succeeds hc h {}
  rw [Document.loadable, h₁]
  rfl

theorem load_of_loadable (h : d.loadable = true) (c : Catalog) :
    ∃ id c', c.load d = (.ok id, c') := by
  rcases hload : ({} : Catalog).load d with ⟨r, c₀⟩
  cases r with
  | error e =>
      rw [Document.loadable, hload] at h
      exact nomatch h
  | ok id => exact load_succeeds placed_empty hload c

theorem load_of_not_loadable (hc : c.Placed) (h : d.loadable = false) : (c.load d).2 = c := by
  rcases hload : c.load d with ⟨r, c'⟩
  cases r with
  | error e => exact load_failed hc hload
  | ok id =>
      rw [loadable_of_load hc hload] at h
      exact nomatch h

theorem Placed.load (hc : c.Placed) (d : Document) : (c.load d).2.Placed := by
  rcases hload : c.load d with ⟨r, c'⟩
  cases r with
  | error e =>
      rw [load_failed hc hload]
      exact hc
  | ok id =>
      obtain ⟨l, g, -, hl, -, -, hgiven⟩ := load_given hc hload
      exact hgiven.placed hl

-- ── One load after the other ─────────────────────────────────────────────

/-- Loads documents one after the other, as far as they can be loaded. -/
def loadEach (c : Catalog) (ds : List Document) : Catalog :=
  ds.foldl (fun c d => (c.load d).2) c

theorem loadEach_append_cons (c : Catalog) (ds₁ ds₂ : List Document) (d : Document) :
    c.loadEach (ds₁ ++ d :: ds₂) = (((c.loadEach ds₁).load d).2).loadEach ds₂ := by
  rw [loadEach, List.foldl_append, List.foldl_cons]
  rfl

theorem Placed.loadEach (hc : c.Placed) (ds : List Document) : (c.loadEach ds).Placed := by
  induction ds generalizing c with
  | nil => exact hc
  | cons d ds ih => exact ih (hc.load d)

end Catalog

/-- Whether a document, when it is loaded, gives a name to its grammar. -/
def Document.gives (d : Document) (n : String) : Bool := d.loadable && d.given.contains n

/-- How often documents give a name. -/
def timesGiven (n : String) (ds : List Document) : Nat := ds.countP (·.gives n)

theorem timesGiven_cons (n : String) (d : Document) (ds : List Document) :
    timesGiven n (d :: ds) = timesGiven n ds + if d.gives n then 1 else 0 :=
  List.countP_cons ..

namespace Catalog

/-- What growing keeps, and giving names keeps when these are counted,
    loading documents one after the other keeps when the names they give are
    counted. -/
theorem loadEach_keeps {P : Catalog → (String → Nat) → Prop}
    (hgrows : ∀ c l k, c.Placed → c.Grows l → P c k → P l k)
    (hgiven : ∀ l c g id names k, l.Placed → Given l g id names c → P l k →
      P c fun n => k n + if n ∈ names then 1 else 0)
    {c : Catalog} {k : String → Nat} (hc : c.Placed) (h : P c k) (ds : List Document) :
    P (c.loadEach ds) fun n => k n + timesGiven n ds := by
  induction ds generalizing c k with
  | nil => exact h
  | cons d ds ih =>
      have hload : P (c.load d).2 fun n => k n + if d.gives n then 1 else 0 := by
        cases hd : d.loadable with
        | false =>
            rw [load_of_not_loadable hc hd]
            simp only [Document.gives, hd, Bool.false_and]
            exact h
        | true =>
            obtain ⟨id, c', hload⟩ := load_of_loadable hd c
            obtain ⟨l, g, hl, hplaced, -, -, hnamed⟩ := load_given hc hload
            rw [hload]
            simp only [Document.gives, hd, Bool.true_and, List.contains_iff_mem]
            exact hgiven l c' g id d.given k hplaced hnamed (hgrows c l k hc hl h)
      have hcount : ∀ n, k n + timesGiven n (d :: ds)
          = k n + (if d.gives n then 1 else 0) + timesGiven n ds := by
        intro n
        rw [timesGiven_cons, Nat.add_assoc, Nat.add_comm (timesGiven n ds)]
      rw [funext hcount]
      exact ih (hc.load d) hload

/-- A language is what some document has given. -/
theorem isLanguage_loadEach_iff (ds : List Document) (n : String) :
    (({} : Catalog).loadEach ds).IsLanguage n ↔ 0 < timesGiven n ds := by
  have hkeeps := loadEach_keeps (P := fun c k => ∀ n, c.IsLanguage n ↔ 0 < k n)
    (fun c l k _ hl h n => hl.isLanguage_iff.trans (h n))
    (fun l c g id names k _ hnamed h n => by
      rw [hnamed.isLanguage_iff, h n]
      by_cases hn : n ∈ names <;> simp [hn])
    placed_empty (fun n => iff_of_false (fun hn => nomatch hn.1) (Nat.lt_irrefl 0)) ds n
  rw [hkeeps]
  exact iff_of_eq (congrArg (0 < ·) (Nat.zero_add _))

/-- The names of the table after documents that can all be loaded. -/
theorem mem_names_loadEach {ds : List Document} (hds : ∀ d ∈ ds, d.loadable = true)
    {c : Catalog} (hc : c.Placed) {n : String} :
    n ∈ OrderedMap.names (c.loadEach ds).names ↔
      n ∈ OrderedMap.names c.names ∨ ∃ d ∈ ds, n ∈ d.tokens.mentions ∨ n ∈ d.given := by
  induction ds generalizing c with
  | nil => exact (or_iff_left fun ⟨_, hd, _⟩ => nomatch hd).symm
  | cons d ds ih =>
      obtain ⟨hd, hds⟩ := List.forall_mem_cons.mp hds
      obtain ⟨id, c', hload⟩ := load_of_loadable hd c
      obtain ⟨l, g, -, -, hnames, -, hgiven⟩ := load_given hc hload
      have hc' := hc.load d
      rw [hload] at hc'
      rw [loadEach, List.foldl_cons, hload, ← loadEach, ih hds hc', hgiven.mem_names_iff, hnames,
        or_assoc, or_assoc, List.exists_mem_cons_iff, or_assoc]

end Catalog

namespace Registry

/-- Loads documents one after the other, as far as they can be loaded. -/
def loadEach (r : Registry) (ds : List Document) : Registry :=
  ds.foldl (fun r d => (r.load d).2) r

theorem loadEach_catalog (r : Registry) (ds : List Document) :
    (r.loadEach ds).catalog = r.catalog.loadEach ds := by
  induction ds generalizing r with
  | nil => rfl
  | cons d ds ih => exact ih (r.load d).2

theorem load_catalog {r r' : Registry} {d : Document} {x : Except Error GrammarId}
    (h : r.load d = (x, r')) : r.catalog.load d = (x, r'.catalog) := by
  rcases hload : r.catalog.load d with ⟨y, c⟩
  rw [load, hload] at h
  cases h
  rfl

end Registry

/-- The one reference in the grammar of such a document. -/
theorem Document.references_wordsOf {V : View} {language name : String} {aliases : List String}
    {g : Grammar} (h : TokensUnfold V (wordsOf language name aliases).tokens g) :
    ∃ x, V.names language x ∧ g.references = [x] := by
  obtain ⟨g', hrules, hrest⟩ := h
  simp only [wordsOf, Tokens.ofEntries, one, RulesUnfold, PatternsUnfold, PatternUnfolds,
    InsideUnfolds, Reference.Unfolds] at hrules
  obtain ⟨_, ⟨_, ⟨-, _, ⟨x, hx, rfl⟩, rfl⟩, rfl⟩, rfl⟩ := hrules
  exact ⟨x, hx, congrArg Grammar.references hrest⟩

end Highlighter
