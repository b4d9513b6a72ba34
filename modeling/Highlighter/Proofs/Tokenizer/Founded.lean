import Highlighter.Proofs.Html.ReadingBack
import Highlighter.Proofs.Regex.LeadingGroup
import Highlighter.Proofs.Tokenizer.Safety
import Highlighter.Proofs.Tokenizer.Termination

/-! # Grammars without cycles

    An arena is `Founded` when every grammar refers to earlier ones only,
    and what its patterns need to be run is sound.  Then tokenizing only
    fails where a match is given up, whatever the text
    (`Founded.tokenize_ok`): no reference leads out of the arena, no regex
    is broken, no cut is inside of a character, and there are no cycles that
    could nest tokens without end.

    The rules of a grammar's `rest` are merged into it.  They refer to what
    comes before `rest`, which itself comes before the grammar, so merging
    does no harm (`Founded.mergedRules`). -/

namespace Highlighter

open Fragment (texts)
open Html (Unquoted)
open Relation (ReflTransGen TransGen)
open Tokenizer

/-- A pattern that can be read.  Where its matches are stripped of the first
    group this stands in front, and its labels are unquoted. -/
structure Pattern.Sound (p : Pattern) : Prop where
  program : ∃ e, p.regex.program = .ok e ∧ (p.lookbehind = true → e.leadsWithGroup = true)
  aliases : ∀ a ∈ p.aliases, Unquoted a

/-- A sound pattern with a grammar inside that comes before a number. -/
structure Pattern.Founded (bound : Nat) (p : Pattern) : Prop where
  sound : p.Sound
  inside : ∀ a, p.inside = some a → a < bound

/-- What the rule refers to comes before a number. -/
def Rule.Founded (bound : Nat) : Rule → Prop
  | .patterns ps => ∀ p ∈ ps.toList, p.Founded bound
  | .grammar a => a < bound

/-- All rules refer to what comes before a number, and their names are
    unquoted. -/
def RulesFounded (bound : Nat) (rules : List (String × Rule)) : Prop :=
  ∀ r ∈ rules, Unquoted r.1 ∧ r.2.Founded bound

/-- Every grammar refers to earlier ones only. -/
def Founded (gs : List Grammar) : Prop :=
  ∀ id g, gs[id]? = some g → RulesFounded id g.rules

-- ── Rules ────────────────────────────────────────────────────────────────

theorem Pattern.Founded.mono {p : Pattern} {bound more : Nat} (h : p.Founded bound)
    (hle : bound ≤ more) : p.Founded more :=
  ⟨h.sound, fun a ha => Nat.lt_of_lt_of_le (h.inside a ha) hle⟩

theorem Rule.Founded.mono {r : Rule} {bound more : Nat} (h : r.Founded bound)
    (hle : bound ≤ more) : r.Founded more := by
  cases r with
  | grammar a => exact Nat.lt_of_lt_of_le h hle
  | patterns ps => exact fun p hp => (h p hp).mono hle

theorem Rule.Founded.of_mem_references {r : Rule} {bound : Nat} (h : r.Founded bound)
    {a : GrammarId} (ha : a ∈ r.references) : a < bound := by
  cases r with
  | grammar b =>
      obtain rfl := List.mem_singleton.mp ha
      exact h
  | patterns ps =>
      obtain ⟨p, hp, hinside⟩ := List.mem_filterMap.mp ha
      exact (h p hp).inside a hinside

theorem RulesFounded.mono {rules : List (String × Rule)} {bound more : Nat}
    (h : RulesFounded bound rules) (hle : bound ≤ more) : RulesFounded more rules :=
  fun r hr => ⟨(h r hr).1, (h r hr).2.mono hle⟩

theorem rulesFounded_nil (bound : Nat) : RulesFounded bound [] :=
  fun _ hr => absurd hr List.not_mem_nil

theorem RulesFounded.set {g : Grammar} {bound : Nat} (h : RulesFounded bound g.rules)
    {name : String} (hname : Unquoted name) {r : Rule} (hr : r.Founded bound) :
    RulesFounded bound (g.set name r).rules := by
  intro e he
  rcases OrderedMap.mem_set he with rfl | he
  · exact ⟨hname, hr⟩
  · exact h e he

theorem RulesFounded.overlay {rules others : List (String × Rule)} {bound : Nat}
    (h : RulesFounded bound rules) (h' : RulesFounded bound others) :
    RulesFounded bound (overlay rules others) := by
  intro r hr
  rcases List.mem_append.mp hr with hr | hr
  · obtain ⟨old, hold, rfl⟩ := List.mem_map.mp hr
    refine ⟨(h old hold).1, ?_⟩
    cases hget : OrderedMap.get? old.1 others with
    | none => exact (h old hold).2
    | some rule => exact (h' _ (OrderedMap.mem_of_get? hget)).2
  · exact h' r (List.mem_filter.mp hr).1

-- ── Entries ──────────────────────────────────────────────────────────────

variable {gs : List Grammar}

theorem Founded.closed (h : Founded gs) : Closed gs := by
  intro g hg a ha
  obtain ⟨id, hlt, hid⟩ := List.mem_iff_getElem.mp hg
  obtain ⟨r, hr, har⟩ := List.mem_flatMap.mp ha
  have hrules := h id g (by rw [List.getElem?_eq_getElem hlt, hid])
  exact Nat.lt_trans ((hrules r hr).2.of_mem_references har) hlt

theorem Founded.grammarAt (h : Founded gs) {id : GrammarId} {g : Grammar}
    (hg : grammarAt gs id = .ok g) : RulesFounded id g.rules := by
  rw [Highlighter.grammarAt] at hg
  split at hg
  · next g' hid =>
      obtain rfl := Except.ok.inj hg
      exact h id g' hid
  · cases hg

/-- What is merged in refers to even earlier grammars. -/
theorem Founded.mergedRules (h : Founded gs) {id : GrammarId} {rules : List (String × Rule)}
    (hrules : mergedRules gs id = .ok rules) : RulesFounded id rules := by
  obtain ⟨g, hg, hmerged⟩ := exists_of_bind_ok hrules
  have hown := h.grammarAt hg
  split at hmerged
  · next rest hrest =>
      obtain ⟨r, hr, hmerged⟩ := exists_of_bind_ok hmerged
      have hlt : rest < id := (hown _ (OrderedMap.mem_of_get? hrest)).2
      have hmore := (h.grammarAt hr).mono (Nat.le_of_lt hlt)
      obtain rfl := Except.ok.inj hmerged
      exact fun rule hrule => hown.overlay hmore rule (List.mem_filter.mp hrule).1
  · obtain rfl := Except.ok.inj hmerged
    exact hown

/-- The entries of a grammar have unquoted names and sound patterns, with
    earlier grammars inside. -/
theorem Founded.entries (h : Founded gs) {id : GrammarId} {es : List Entry}
    (hes : entries gs id = .ok es) :
    ∀ e ∈ es, Unquoted e.name ∧ ∀ p ∈ e.patterns, p.Founded id := by
  intro e he
  obtain ⟨rules, hrules, hmap⟩ := exists_of_bind_ok hes
  obtain rfl := Except.ok.inj hmap
  obtain ⟨⟨name, rule⟩, hrule, hof⟩ := List.mem_filterMap.mp he
  have hfounded := h.mergedRules hrules _ hrule
  cases rule with
  | grammar _ => exact nomatch hof
  | patterns ps =>
      obtain rfl := Option.some.inj hof
      exact hfounded

theorem Founded.matchesWith (h : Founded gs) {id : GrammarId} {p : Pattern}
    (hp : MatchesWith gs id p) : p.Founded id := by
  obtain ⟨es, hes, e, he, hmem⟩ := hp
  exact (h.entries hes e he).2 p hmem

-- ── Tokenizing ───────────────────────────────────────────────────────────

theorem Founded.stripsPrefixes (h : Founded gs) (text : List Char) : StripsPrefixes gs text := by
  intro id p hp hlookbehind part _
  obtain ⟨e, he, hleads⟩ := (h.matchesWith hp).sound.program
  exact Regex.prefixedIn_of_leadsWithGroup he (hleads hlookbehind) _

theorem allUnquoted_of_tokensAt : ∀ {pos : Nat} {fs : List Fragment},
    TokensAt (fun _ => Fragment.Unquoted) pos fs → Fragment.AllUnquoted fs
  | _, [], _ => by
      rw [Fragment.AllUnquoted]
      trivial
  | _, f :: fs, h => by
      rw [TokensAt] at h
      rw [Fragment.AllUnquoted]
      refine ⟨?_, allUnquoted_of_tokensAt h.2⟩
      cases f with
      | raw text =>
          rw [Fragment.Unquoted]
          trivial
      | leaf label text => exact h.1 rfl
      | node label inner => exact h.1 rfl

theorem Founded.labelled (h : Founded gs) : Labelled gs Fragment.Unquoted := by
  intro id es hes e he p hp length
  obtain ⟨hname, hpatterns⟩ := h.entries hes e he
  have hlabel : Label.Unquoted ⟨e.name, p.aliases, length, p.greedy⟩ :=
    ⟨hname, (hpatterns p hp).sound.aliases⟩
  constructor
  · intro text
    rw [Fragment.Unquoted]
    exact hlabel
  · intro inner hinner
    rw [Fragment.Unquoted]
    exact ⟨hlabel, allUnquoted_of_tokensAt hinner⟩

theorem Founded.lt_of_fullLink (h : Founded gs) {a b : GrammarId} (hab : FullLink gs a b) :
    b < a := by
  obtain ⟨p, hp, hinside⟩ := hab.link
  exact (h.matchesWith hp).inside _ hinside

/-- Links lead to smaller numbers, so none of them is on a cycle. -/
theorem Founded.lt_of_links (h : Founded gs) {a b : GrammarId}
    (hab : TransGen (FullLink gs) a b) : b < a := by
  induction hab with
  | single hlink => exact h.lt_of_fullLink hlink
  | tail _ hlink ih => exact Nat.lt_trans (h.lt_of_fullLink hlink) ih

/-- A regex is that of some pattern that a grammar matches with, and in a
    part of the text a match of it is given up. -/
def Tokenizer.GivesUp (gs : List Grammar) (text : String) (regex : Regex) : Prop :=
  ∃ a p, MatchesWith gs a p ∧ p.regex = regex ∧
    ∃ part, part <:+: text.toList ∧ regex.GivesUpIn part.toArray

/-- In a founded arena every text is tokenized with every grammar, unless a
    match is given up in a part of the text; the fragments are the text and
    their labels are unquoted. -/
theorem Founded.tokenize_ok (h : Founded gs) {id : GrammarId} (hid : id < gs.length)
    (text : String) :
    (∃ fs, tokenize gs id text = .ok fs ∧ texts fs = text ∧ Fragment.AllUnquoted fs) ∨
      ∃ regex, tokenize gs id text = .error (.gaveUp regex) ∧ GivesUp gs text regex := by
  let E (e : Fault) : Prop := e = .endless ∨ ∃ regex, e = .gaveUp regex ∧ GivesUp gs text regex
  have hread : ∀ id p, MatchesWith gs id p → ∀ e, p.regex.program = .error e →
      E (.brokenRegex p.regex e) := by
    intro id p hp e he
    obtain ⟨program, hprogram, -⟩ := (h.matchesWith hp).sound.program
    exact nomatch hprogram.symm.trans he
  have hends : Ends (TokensAt (fun _ => Fragment.Unquoted) 0) E (tokenize gs id text) :=
    tokenizeWithin_ends h.closed h.labelled (.inl rfl) hread _ hid (h.stripsPrefixes _)
      fun a p hp part hpart hgaveUp => .inr ⟨p.regex, rfl, a, p, hp, rfl, part, hpart, hgaveUp⟩
  have hterminates : tokenize gs id text ≠ .error .endless :=
    tokenize_ne_endless text fun a _ hcycle => Nat.lt_irrefl a (h.lt_of_links hcycle)
  have hconserved : Sound (Fragment.Conserved text) (tokenize gs id text) :=
    tokenizeWithin_sound gs _ id text
  cases hrun : tokenize gs id text with
  | error e =>
      rw [hrun] at hends hterminates
      rcases hends with rfl | ⟨regex, rfl, hgivesUp⟩
      · exact absurd rfl hterminates
      · exact .inr ⟨regex, rfl, hgivesUp⟩
  | ok fs =>
      rw [hrun] at hends hconserved
      exact .inl ⟨fs, rfl, hconserved.1, allUnquoted_of_tokensAt hends⟩

end Highlighter
