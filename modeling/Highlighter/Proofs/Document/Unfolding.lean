import Highlighter.Document.Basic
import Highlighter.Proofs.Grammar.Bisimulation

/-! # What documents stand for

    A document refers to grammars by name or writes them in place; once it
    is loaded, both have become numbers.  A view says what grammars there
    are and what numbers the names stand for, and a reference unfolds to a
    number in a view when the grammar there is the one that is written,
    and so on inside.

    Two facts carry what is said of loading.  When numbers are changed
    throughout, what a reference unfolds to changes with them
    (`Reference.Unfolds.map`).  And what the same references unfold to in two
    views is written alike (`TokensUnfold.alike`), so that the common
    unfoldings of two views are a bisimulation but for the names. -/

namespace Highlighter

namespace Document

/-- What grammars there are and what names stand for. -/
structure View where
  holds : GrammarId → Grammar → Prop
  names : String → GrammarId → Prop

/-- A source and flags that are those of a regex. -/
def Readable (source flags : String) : Prop :=
  ∃ e, (Regex.ofStrings source flags).program = .ok e

mutual

/-- What a reference stands for. -/
def Reference.Unfolds (V : View) : Reference → GrammarId → Prop
  | .language name, id => V.names name id
  | .inline entries rest, id =>
      ∃ g h, RulesUnfold V entries {} g ∧ RestUnfolds V rest g h ∧ V.holds id h

/-- The grammar with the rules of tokens set on another. -/
def RulesUnfold (V : View) : List (String × PatternsForm Reference) → Grammar → Grammar → Prop
  | [], g, h => h = g
  | (name, ps) :: entries, g, h =>
      ∃ qs, PatternsUnfold V ps qs ∧ RulesUnfold V entries (g.set name (.patterns qs)) h

/-- The grammar with the rule for what is merged in. -/
def RestUnfolds (V : View) : Option Reference → Grammar → Grammar → Prop
  | none, g, h => h = g
  | some r, g, h => ∃ id, r.Unfolds V id ∧ h = g.set restName (.grammar id)

/-- The patterns of a token. -/
def PatternsUnfold (V : View) : PatternsForm Reference → Patterns → Prop
  | .single p, qs => ∃ q, PatternUnfolds V p q ∧ qs = .single q
  | .alternatives ps, qs => ∃ rs, AlternativesUnfold V ps rs ∧ qs = .alternatives rs

/-- Patterns one after the other. -/
def AlternativesUnfold (V : View) : List (PatternForm Reference) → List Pattern → Prop
  | [], qs => qs = []
  | p :: ps, qs => ∃ r rs, PatternUnfolds V p r ∧ AlternativesUnfold V ps rs ∧ qs = r :: rs

/-- A pattern whose regex can be read. -/
def PatternUnfolds (V : View) : PatternForm Reference → Pattern → Prop
  | .source source, q => Readable source "" ∧ q = { regex := Regex.ofStrings source "" }
  | .descriptor ⟨source, flags, lookbehind, greedy, aliases, grammar⟩, q =>
      Readable source flags ∧ ∃ inside, InsideUnfolds V grammar inside ∧
        q = { regex := Regex.ofStrings source flags, lookbehind, greedy
              aliases := aliases.toList, inside }

/-- The grammar for the text of a token. -/
def InsideUnfolds (V : View) : Option Reference → Option GrammarId → Prop
  | none, i => i = none
  | some r, i => ∃ id, r.Unfolds V id ∧ i = some id

end

/-- The grammar of tokens. -/
def TokensUnfold (V : View) (t : Tokens) (h : Grammar) : Prop :=
  ∃ g, RulesUnfold V t.entries {} g ∧ RestUnfolds V t.rest g h

-- ── The languages that are referred to ───────────────────────────────────

mutual

/-- The languages that a reference mentions, at any depth. -/
def Reference.mentions : Reference → List String
  | .language name => [name]
  | .inline entries rest => rulesMention entries ++ insideMentions rest

/-- The languages that the rules of tokens mention. -/
def rulesMention : List (String × PatternsForm Reference) → List String
  | [] => []
  | (_, ps) :: entries => patternsMention ps ++ rulesMention entries

/-- The languages that the patterns of a token mention. -/
def patternsMention : PatternsForm Reference → List String
  | .single p => patternMentions p
  | .alternatives ps => alternativesMention ps

/-- The languages that patterns one after the other mention. -/
def alternativesMention : List (PatternForm Reference) → List String
  | [] => []
  | p :: ps => patternMentions p ++ alternativesMention ps

/-- The languages that a pattern mentions. -/
def patternMentions : PatternForm Reference → List String
  | .source _ => []
  | .descriptor ⟨_, _, _, _, _, grammar⟩ => insideMentions grammar

/-- The languages that a reference mentions, if there is one. -/
def insideMentions : Option Reference → List String
  | none => []
  | some r => r.mentions

end

/-- The languages that tokens mention. -/
def Tokens.mentions (t : Tokens) : List String := rulesMention t.entries ++ insideMentions t.rest

/-- All names that a document gives to its grammar. -/
def given (d : Document) : List String := d.name :: d.aliases

-- ── Other numbers ────────────────────────────────────────────────────────

/-- Another view in which all that there is has changed its number, and so
    have the references in it. -/
structure View.Maps (V W : View) (ρ : GrammarId → GrammarId) : Prop where
  holds : ∀ id g, V.holds id g → W.holds (ρ id) (g.mapReferences ρ)
  names : ∀ name id, V.names name id → W.names name (ρ id)

section Map

variable {V W : View} {ρ : GrammarId → GrammarId}

mutual

theorem Reference.Unfolds.map (h : V.Maps W ρ) :
    ∀ {r : Reference} {id : GrammarId}, r.Unfolds V id → r.Unfolds W (ρ id)
  | .language name, id, hr => by
      rw [Reference.Unfolds] at hr ⊢
      exact h.names name id hr
  | .inline entries rest, id, hr => by
      rw [Reference.Unfolds] at hr ⊢
      obtain ⟨g, g', hrules, hrest, hholds⟩ := hr
      exact ⟨_, _, RulesUnfold.map h hrules, RestUnfolds.map h hrest, h.holds id g' hholds⟩

theorem RulesUnfold.map (h : V.Maps W ρ) :
    ∀ {entries : List (String × PatternsForm Reference)} {g g' : Grammar},
      RulesUnfold V entries g g' →
      RulesUnfold W entries (g.mapReferences ρ) (g'.mapReferences ρ)
  | [], g, g', hr => by
      rw [RulesUnfold] at hr ⊢
      rw [hr]
  | (name, ps) :: entries, g, g', hr => by
      rw [RulesUnfold] at hr ⊢
      obtain ⟨qs, hps, hr⟩ := hr
      have := RulesUnfold.map h hr
      rw [Grammar.mapReferences_set] at this
      exact ⟨_, PatternsUnfold.map h hps, this⟩

theorem RestUnfolds.map (h : V.Maps W ρ) :
    ∀ {rest : Option Reference} {g g' : Grammar}, RestUnfolds V rest g g' →
      RestUnfolds W rest (g.mapReferences ρ) (g'.mapReferences ρ)
  | none, g, g', hr => by
      rw [RestUnfolds] at hr ⊢
      rw [hr]
  | some r, g, g', hr => by
      rw [RestUnfolds] at hr ⊢
      obtain ⟨id, hid, rfl⟩ := hr
      exact ⟨ρ id, Reference.Unfolds.map h hid, Grammar.mapReferences_set _ _ _ _⟩

theorem PatternsUnfold.map (h : V.Maps W ρ) :
    ∀ {ps : PatternsForm Reference} {qs : Patterns}, PatternsUnfold V ps qs →
      PatternsUnfold W ps (qs.map fun q => { q with inside := q.inside.map ρ })
  | .single p, qs, hps => by
      rw [PatternsUnfold] at hps ⊢
      obtain ⟨q, hp, rfl⟩ := hps
      exact ⟨_, PatternUnfolds.map h hp, rfl⟩
  | .alternatives ps, qs, hps => by
      rw [PatternsUnfold] at hps ⊢
      obtain ⟨rs, hps, rfl⟩ := hps
      exact ⟨_, AlternativesUnfold.map h hps, rfl⟩

theorem AlternativesUnfold.map (h : V.Maps W ρ) :
    ∀ {ps : List (PatternForm Reference)} {qs : List Pattern}, AlternativesUnfold V ps qs →
      AlternativesUnfold W ps (qs.map fun q => { q with inside := q.inside.map ρ })
  | [], qs, hps => by
      rw [AlternativesUnfold] at hps ⊢
      rw [hps, List.map_nil]
  | p :: ps, qs, hps => by
      rw [AlternativesUnfold] at hps ⊢
      obtain ⟨r, rs, hp, hps, rfl⟩ := hps
      exact ⟨_, _, PatternUnfolds.map h hp, AlternativesUnfold.map h hps, List.map_cons ..⟩

theorem PatternUnfolds.map (h : V.Maps W ρ) :
    ∀ {p : PatternForm Reference} {q : Pattern}, PatternUnfolds V p q →
      PatternUnfolds W p { q with inside := q.inside.map ρ }
  | .source source, q, hp => by
      rw [PatternUnfolds] at hp ⊢
      obtain ⟨hreadable, rfl⟩ := hp
      exact ⟨hreadable, rfl⟩
  | .descriptor ⟨source, flags, lookbehind, greedy, aliases, grammar⟩, q, hp => by
      rw [PatternUnfolds] at hp ⊢
      obtain ⟨hreadable, inside, hi, rfl⟩ := hp
      exact ⟨hreadable, _, InsideUnfolds.map h hi, rfl⟩

theorem InsideUnfolds.map (h : V.Maps W ρ) :
    ∀ {r : Option Reference} {i : Option GrammarId}, InsideUnfolds V r i →
      InsideUnfolds W r (i.map ρ)
  | none, i, hi => by
      rw [InsideUnfolds] at hi ⊢
      rw [hi, Option.map_none]
  | some r, i, hi => by
      rw [InsideUnfolds] at hi ⊢
      obtain ⟨id, hid, rfl⟩ := hi
      exact ⟨ρ id, Reference.Unfolds.map h hid, rfl⟩

end

/-- The grammar of tokens changes with the numbers. -/
theorem TokensUnfold.map (h : V.Maps W ρ) {t : Tokens} {g : Grammar} (ht : TokensUnfold V t g) :
    TokensUnfold W t (g.mapReferences ρ) := by
  obtain ⟨g', hrules, hrest⟩ := ht
  exact ⟨_, hrules.map h, hrest.map h⟩

/-- A view in which at least as much holds. -/
theorem TokensUnfold.mono {t : Tokens} {g : Grammar} (ht : TokensUnfold V t g)
    (hholds : ∀ id g, V.holds id g → W.holds id g)
    (hnames : ∀ n id, V.names n id → W.names n id) : TokensUnfold W t g := by
  have hself : ∀ g : Grammar, g.mapReferences (fun id => id) = g :=
    Grammar.mapReferences_eq_self fun _ => rfl
  have hmaps : V.Maps W fun id => id :=
    { holds := fun id g hg => by
        rw [hself]
        exact hholds id g hg
      names := hnames }
  have := ht.map hmaps
  rw [hself] at this
  exact this

end Map

-- ── Two views ────────────────────────────────────────────────────────────

/-- Two numbers that one reference stands for, each in its view. -/
def Common (V W : View) (a b : GrammarId) : Prop :=
  ∃ r : Reference, r.Unfolds V a ∧ r.Unfolds W b

section Alike

variable {V W : View}

theorem InsideUnfolds.alike {r : Option Reference} {i j : Option GrammarId}
    (hi : InsideUnfolds V r i) (hj : InsideUnfolds W r j) : Option.Rel (Common V W) i j := by
  cases r with
  | none =>
      rw [InsideUnfolds] at hi hj
      rw [hi, hj]
      exact .none
  | some r =>
      rw [InsideUnfolds] at hi hj
      obtain ⟨a, ha, rfl⟩ := hi
      obtain ⟨b, hb, rfl⟩ := hj
      exact .some ⟨r, ha, hb⟩

theorem PatternUnfolds.alike {p : PatternForm Reference} {q q' : Pattern}
    (hq : PatternUnfolds V p q) (hq' : PatternUnfolds W p q') : q.Alike (Common V W) q' := by
  cases p with
  | source source =>
      rw [PatternUnfolds] at hq hq'
      obtain ⟨-, rfl⟩ := hq
      obtain ⟨-, rfl⟩ := hq'
      exact ⟨none, rfl, .none⟩
  | descriptor d =>
      obtain ⟨source, flags, lookbehind, greedy, aliases, grammar⟩ := d
      rw [PatternUnfolds] at hq hq'
      obtain ⟨-, i, hi, rfl⟩ := hq
      obtain ⟨-, j, hj, rfl⟩ := hq'
      exact ⟨j, rfl, hi.alike hj⟩

theorem AlternativesUnfold.alike {ps : List (PatternForm Reference)} {qs qs' : List Pattern}
    (hqs : AlternativesUnfold V ps qs) (hqs' : AlternativesUnfold W ps qs') :
    List.Forall₂ (Pattern.Alike (Common V W)) qs qs' := by
  induction ps generalizing qs qs' with
  | nil =>
      rw [AlternativesUnfold] at hqs hqs'
      rw [hqs, hqs']
      exact .nil
  | cons p ps ih =>
      rw [AlternativesUnfold] at hqs hqs'
      obtain ⟨r, rs, hr, hrs, rfl⟩ := hqs
      obtain ⟨r', rs', hr', hrs', rfl⟩ := hqs'
      exact .cons (hr.alike hr') (ih hrs hrs')

theorem PatternsUnfold.alike {ps : PatternsForm Reference} {qs qs' : Patterns}
    (hqs : PatternsUnfold V ps qs) (hqs' : PatternsUnfold W ps qs') :
    (Rule.patterns qs).Alike (Common V W) (.patterns qs') := by
  cases ps with
  | single p =>
      rw [PatternsUnfold] at hqs hqs'
      obtain ⟨q, hq, rfl⟩ := hqs
      obtain ⟨q', hq', rfl⟩ := hqs'
      exact .single (hq.alike hq')
  | alternatives ps =>
      rw [PatternsUnfold] at hqs hqs'
      obtain ⟨rs, hrs, rfl⟩ := hqs
      obtain ⟨rs', hrs', rfl⟩ := hqs'
      exact .alternatives (hrs.alike hrs')

theorem RulesUnfold.alike {entries : List (String × PatternsForm Reference)}
    {g g' h h' : Grammar} (hg : RulesUnfold V entries g g') (hh : RulesUnfold W entries h h')
    (hgh : g.Alike (Common V W) h) : g'.Alike (Common V W) h' := by
  induction entries generalizing g h with
  | nil =>
      rw [RulesUnfold] at hg hh
      rw [hg, hh]
      exact hgh
  | cons e entries ih =>
      obtain ⟨name, ps⟩ := e
      rw [RulesUnfold] at hg hh
      obtain ⟨qs, hqs, hg⟩ := hg
      obtain ⟨qs', hqs', hh⟩ := hh
      exact ih hg hh (RulesAlike.set hgh name (hqs.alike hqs'))

theorem RestUnfolds.alike {rest : Option Reference} {g g' h h' : Grammar}
    (hg : RestUnfolds V rest g g') (hh : RestUnfolds W rest h h')
    (hgh : g.Alike (Common V W) h) : g'.Alike (Common V W) h' := by
  cases rest with
  | none =>
      rw [RestUnfolds] at hg hh
      rw [hg, hh]
      exact hgh
  | some r =>
      rw [RestUnfolds] at hg hh
      obtain ⟨a, ha, rfl⟩ := hg
      obtain ⟨b, hb, rfl⟩ := hh
      exact RulesAlike.set hgh restName (.grammar ⟨r, ha, hb⟩)

/-- The same tokens unfold to grammars alike. -/
theorem TokensUnfold.alike {t : Tokens} {g h : Grammar} (hg : TokensUnfold V t g)
    (hh : TokensUnfold W t h) : g.Alike (Common V W) h := by
  obtain ⟨g', hg', hg⟩ := hg
  obtain ⟨h', hh', hh⟩ := hh
  exact hg.alike hh (hg'.alike hh' .nil)

end Alike

end Document

end Highlighter
