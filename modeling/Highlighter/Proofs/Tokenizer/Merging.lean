import Highlighter.Proofs.Grammar.Reachability
import Highlighter.Proofs.OrderedMap
import Highlighter.Proofs.Tokenizer.Cutting
import Highlighter.Proofs.Tokenizer.Depth

/-! # Merging a grammar for real

    To match with a grammar that has a rule `rest`, the rules of another one
    are laid over its own, and neither is changed.  That comes to the same
    as changing a copy: setting the other's rules on it, one after the
    other, and taking out `rest` (`entries_eq_merged`).  For laying over is
    setting, if no name stands twice (`overlay_eq_setAll`).

    A merged grammar has nothing left to merge.  So tokenizing with it, once
    it is among the grammars, gives what tokenizing with the grammar that
    was copied gives (`Tokenizer.tokenize_eq_merged`). -/

namespace Highlighter

open OrderedMap (names)

-- ── Laying over is setting ───────────────────────────────────────────────

theorem names_overlay (rules others : List (String × Rule)) :
    names (overlay rules others) = names rules ++ (names others).filter (· ∉ names rules) := by
  have hothers := OrderedMap.names_filter (fun n => !(names rules).contains n) others
  rw [overlay, OrderedMap.names_append,
    OrderedMap.names_mapWithName fun n r => (OrderedMap.get? n others).getD r, hothers]
  refine congrArg (names rules ++ ·) (List.filter_congr fun n _ => ?_)
  simp

/-- A name stands for what it does in the rules that are laid over, if it is
    there. -/
theorem get?_overlay (rules others : List (String × Rule)) (name : String) :
    OrderedMap.get? name (overlay rules others)
      = (OrderedMap.get? name others).or (OrderedMap.get? name rules) := by
  rw [overlay, OrderedMap.get?_append,
    OrderedMap.get?_mapWithName fun n r => (OrderedMap.get? n others).getD r]
  cases hrule : OrderedMap.get? name rules with
  | some r =>
      cases OrderedMap.get? name others with
      | none => rfl
      | some r' => rfl
  | none =>
      have hnew : (!(names rules).contains name) = true := by
        simpa using OrderedMap.get?_eq_none_iff.mp hrule
      rw [OrderedMap.get?_filter (fun n => !(names rules).contains n) hnew,
        Option.map_none, Option.none_or, Option.or_none]

/-- Rules are laid over others as if they were set, one after the other. -/
theorem overlay_eq_setAll {rules others : List (String × Rule)}
    (hrules : (names rules).Nodup) (hothers : (names others).Nodup) :
    overlay rules others = OrderedMap.setAll rules others := by
  have hnames := OrderedMap.names_setAll hothers rules
  refine (OrderedMap.ext_get? (OrderedMap.nodup_names_setAll hrules others) ?_ ?_).symm
  · rw [hnames, names_overlay]
  · exact fun n _ => by rw [get?_overlay, OrderedMap.get?_setAll hothers]

-- ── Merged grammars ──────────────────────────────────────────────────────

/-- The entries of the rules of a grammar, as they stand. -/
def Grammar.patternEntries (g : Grammar) : List Entry := g.rules.filterMap Entry.ofRule?

/-- A grammar that is merged with the one of its rule `rest`: the rules of
    that one are set on a copy, and `rest` is taken out of it. -/
def merged (gs : List Grammar) (id : GrammarId) : Except NoSuchGrammar Grammar := do
  let g ← grammarAt gs id
  match g.get? restName with
  | some (.grammar rest) => do
      let other ← grammarAt gs rest
      .ok ((g.setAll other.rules).remove restName)
  | _ => .ok g

theorem grammarAt_eq_ok_iff {gs : List Grammar} {id : GrammarId} {g : Grammar} :
    grammarAt gs id = .ok g ↔ gs[id]? = some g := by
  rw [grammarAt]
  cases gs[id]? with
  | none =>
      constructor <;> intro h <;> cases h
  | some h => rw [Except.ok.injEq, Option.some_inj]

section Merged

variable {gs : List Grammar} {id : GrammarId} {m : Grammar}

/-- Merging succeeds where the grammars are: another one is merged in, or
    there is none to merge. -/
theorem merged_eq_ok_iff : merged gs id = .ok m ↔ ∃ g, gs[id]? = some g ∧
    ((∃ rest other, g.get? restName = some (.grammar rest) ∧ gs[rest]? = some other ∧
        m = (g.setAll other.rules).remove restName) ∨
      (∀ rest, g.get? restName ≠ some (.grammar rest)) ∧ m = g) := by
  constructor
  · intro h
    obtain ⟨g, hg, h⟩ := Tokenizer.exists_of_bind_ok h
    refine ⟨g, grammarAt_eq_ok_iff.mp hg, ?_⟩
    split at h
    · next rest hrest =>
        obtain ⟨other, hother, h⟩ := Tokenizer.exists_of_bind_ok h
        exact .inl ⟨rest, other, hrest, grammarAt_eq_ok_iff.mp hother, (Except.ok.inj h).symm⟩
    · next hrest => exact .inr ⟨hrest, (Except.ok.inj h).symm⟩
  · rintro ⟨g, hg, ⟨rest, other, hrest, hother, rfl⟩ | ⟨hrest, rfl⟩⟩
    · rw [merged, grammarAt_eq_ok_iff.mpr hg]
      simp only [bind, Except.bind, hrest, grammarAt_eq_ok_iff.mpr hother]
    · rw [merged, grammarAt_eq_ok_iff.mpr hg]
      simp only [bind, Except.bind]

/-- Further grammars change nothing about one that can be merged. -/
theorem merged_append (h : merged gs id = .ok m) (more : List Grammar) :
    merged (gs ++ more) id = .ok m := by
  have hkept : ∀ {a : GrammarId} {g : Grammar}, gs[a]? = some g → (gs ++ more)[a]? = some g := by
    intro a g hg
    rw [List.getElem?_append_left (List.getElem?_eq_some_iff.mp hg).1, hg]
  obtain ⟨g, hg, hm⟩ := merged_eq_ok_iff.mp h
  refine merged_eq_ok_iff.mpr ⟨g, hkept hg, hm.imp_left ?_⟩
  rintro ⟨rest, other, hrest, hother, rfl⟩
  exact ⟨rest, other, hrest, hkept hother, rfl⟩

variable (hgs : ∀ g ∈ gs, g.names.Nodup)
include hgs

theorem nodup_names_merged (h : merged gs id = .ok m) : m.names.Nodup := by
  obtain ⟨g, hg, ⟨rest, other, -, -, rfl⟩ | ⟨-, rfl⟩⟩ := merged_eq_ok_iff.mp h
  · have hset := OrderedMap.nodup_names_setAll (hgs g (List.mem_of_getElem? hg)) other.rules
    exact OrderedMap.nodup_names_remove hset restName
  · exact hgs m (List.mem_of_getElem? hg)

/-- A merged grammar has no other one to merge in. -/
theorem get?_rest_merged (h : merged gs id = .ok m) (rest : GrammarId) :
    m.get? restName ≠ some (.grammar rest) := by
  obtain ⟨g, hg, ⟨rest', other, -, -, rfl⟩ | ⟨hrest, rfl⟩⟩ := merged_eq_ok_iff.mp h
  · have hset := OrderedMap.nodup_names_setAll (hgs g (List.mem_of_getElem? hg)) other.rules
    have hnone : ((g.setAll other.rules).remove restName).get? restName = none :=
      OrderedMap.get?_remove_self hset restName
    rw [hnone]
    exact nofun
  · exact hrest rest

/-- The rules to match with are those of the merged grammar. -/
theorem mergedRules_eq_merged (id : GrammarId) :
    mergedRules gs id = (merged gs id).map Grammar.rules := by
  rw [mergedRules, merged]
  cases hg : grammarAt gs id with
  | error e => rfl
  | ok g =>
      simp only [bind, Except.bind]
      cases hrest : g.get? restName with
      | none => rfl
      | some r =>
          cases r with
          | patterns ps => rfl
          | grammar rest =>
              cases hother : grammarAt gs rest with
              | error e =>
                  simp only [hother]
                  rfl
              | ok other =>
                  have hrules := hgs g (List.mem_of_getElem? (grammarAt_eq_ok_iff.mp hg))
                  have hothers := hgs other (List.mem_of_getElem? (grammarAt_eq_ok_iff.mp hother))
                  have hset := OrderedMap.nodup_names_setAll hrules other.rules
                  simp only [hother, overlay_eq_setAll hrules hothers,
                    ← OrderedMap.remove_eq_filter hset restName]
                  rfl

/-- What a grammar matches with are the entries of the merged one. -/
theorem entries_eq_merged (id : GrammarId) :
    entries gs id = (merged gs id).map Grammar.patternEntries := by
  rw [entries, mergedRules_eq_merged hgs]
  cases merged gs id with
  | error e => rfl
  | ok m => rfl

end Merged

-- ── Tokenizing ───────────────────────────────────────────────────────────

namespace Tokenizer

/-- Grammars with the same entries tokenize alike. -/
theorem tokenizeWithin_congr {gs : List Grammar} {a b : GrammarId} (h : entries gs a = entries gs b)
    (depth : Nat) (text : String) :
    tokenizeWithin gs depth a text = tokenizeWithin gs depth b text := by
  cases depth with
  | zero => rfl
  | succ depth =>
      show tokenizeBy gs _ a text = tokenizeBy gs _ b text
      rw [tokenizeBy, tokenizeBy, h]

/-- A grammar that none refers to makes no difference to the others. -/
theorem tokenize_concat {gs : List Grammar} (hnew : ∀ g ∈ gs, gs.length ∉ g.references)
    (g : Grammar) {id : GrammarId} (hid : id ≠ gs.length) (text : String) :
    tokenize (gs ++ [g]) id text = tokenize gs id text := by
  have hsealed : Sealed gs (· ≠ gs.length) := by
    rintro a b - ⟨g, hg, hb⟩ rfl
    exact hnew g (List.mem_of_getElem? hg) hb
  have hsame : ∀ a, a ≠ gs.length → gs[a]? = (gs ++ [g])[a]? := by
    intro a ha
    rcases Nat.lt_or_gt_of_ne ha with hlt | hgt
    · rw [List.getElem?_append_left hlt]
    · rw [List.getElem?_eq_none (Nat.le_of_lt hgt), List.getElem?_eq_none]
      rw [List.length_append, List.length_singleton]
      exact hgt
  exact (tokenize_eq_of_bisimulation (bisimulation_of_sealed hsealed hsame) ⟨rfl, hid⟩ text).symm

/-- Merging as a view is merging for real.  What a grammar matches with, in
    order, are the patterns of the grammar that setting the rules of `rest`
    and taking out `rest` make of a copy.  And once that one is there, a
    text has the same tokens with either, which are those that it had
    before. -/
theorem tokenize_eq_merged {gs : List Grammar} (hgs : ∀ g ∈ gs, g.names.Nodup)
    (id : GrammarId) :
    entries gs id = (merged gs id).map Grammar.patternEntries ∧
      ∀ m, merged gs id = .ok m →
        (∀ text, tokenize (gs ++ [m]) gs.length text = tokenize (gs ++ [m]) id text) ∧
        ((∀ g ∈ gs, gs.length ∉ g.references) →
          ∀ text, tokenize (gs ++ [m]) gs.length text = tokenize gs id text) := by
  refine ⟨entries_eq_merged hgs id, fun m hm => ?_⟩
  have hall : ∀ g ∈ gs ++ [m], g.names.Nodup :=
    List.forall_mem_append.mpr ⟨hgs, List.forall_mem_singleton.mpr (nodup_names_merged hgs hm)⟩
  -- merging the merged grammar once more changes nothing
  have hself : merged (gs ++ [m]) gs.length = .ok m :=
    merged_eq_ok_iff.mpr ⟨m, List.getElem?_concat_length, .inr ⟨get?_rest_merged hgs hm, rfl⟩⟩
  have hentries : entries (gs ++ [m]) gs.length = entries (gs ++ [m]) id := by
    rw [entries_eq_merged hall, entries_eq_merged hall, hself, merged_append hm]
  have hsame : ∀ text, tokenize (gs ++ [m]) gs.length text = tokenize (gs ++ [m]) id text :=
    fun text => tokenizeWithin_congr hentries _ text
  refine ⟨hsame, fun hnew text => ?_⟩
  obtain ⟨g, hg, -⟩ := merged_eq_ok_iff.mp hm
  rw [hsame, tokenize_concat hnew m (Nat.ne_of_lt (List.getElem?_eq_some_iff.mp hg).1)]

/-- The grammar that is merged in has patterns in place of a grammar, a
    grammar in place of patterns, and a `rest` of its own; and the grammar
    of that one is its own `rest`. -/
theorem tokenize_eq_merged_chained :
    let rule (source : String) : Rule := .patterns (.single { regex := Regex.ofStrings source "" })
    let gs : List Grammar :=
      [⟨[("x", rule "x"), (restName, .grammar 1), ("y", .grammar 0)]⟩,
        ⟨[("z", rule "z"), ("y", rule "y"), (restName, .grammar 2), ("x", .grammar 1)]⟩,
        ⟨[(restName, .grammar 2), ("w", rule "w")]⟩]
    let m : Grammar := ⟨[("x", .grammar 1), ("y", rule "y"), ("z", rule "z")]⟩
    ((∀ g ∈ gs, g.names.Nodup) ∧ (∀ g ∈ gs, gs.length ∉ g.references) ∧ merged gs 0 = .ok m) ∧
      entries gs 0 = .ok m.patternEntries ∧ m.patternEntries.map Entry.name = ["y", "z"] ∧
      entries gs 2 = .ok (Grammar.patternEntries ⟨[("w", rule "w")]⟩) ∧
      ∀ text, tokenize (gs ++ [m]) 3 text = tokenize (gs ++ [m]) 0 text ∧
        tokenize (gs ++ [m]) 3 text = tokenize gs 0 text := by
  intro rule gs m
  have hgs : ∀ g ∈ gs, g.names.Nodup := by decide
  have hnew : ∀ g ∈ gs, gs.length ∉ g.references := by decide
  have hm : merged gs 0 = .ok m := rfl
  have hself : merged gs 2 = .ok ⟨[("w", rule "w")]⟩ := rfl
  obtain ⟨hentries, htokens⟩ := tokenize_eq_merged hgs 0
  obtain ⟨hsame, hbefore⟩ := htokens m hm
  refine ⟨⟨hgs, hnew, hm⟩, ?_, rfl, ?_, fun text => ⟨hsame text, hbefore hnew text⟩⟩
  · rw [hentries, hm]
    rfl
  · rw [(tokenize_eq_merged hgs 2).1, hself]
    rfl

end Tokenizer

end Highlighter
