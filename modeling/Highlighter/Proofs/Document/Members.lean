import Highlighter.Proofs.Document.Keyed

/-! # Token maps and their members

    The members of a token map may name a key more than once.  What is read
    has every key once, in the place where it came first and with the value
    that came last; `rest` is none of the keys, and the last member of that
    name counts, wherever it stands.  `SaidBy` says this of a map and of all
    the maps that are written inside of it, against the values in the text,
    where all members are still there.

    A document is gone over field by field to the token map in it
    (`TokenMapAt`), and what is read from it is what its members say
    (`read_saidBy`). -/

namespace Highlighter.Document

open Tokenizer (exists_of_bind_ok)

-- ── Members ──────────────────────────────────────────────────────────────

/-- The value of the last member with a name. -/
def last? (name : String) (ms : List (String × Json)) : Option Json :=
  OrderedMap.get? name ms.reverse

/-- The names of the members but for `rest`, each of them where it comes
    first. -/
def keys (ms : List (String × Json)) : List String :=
  ((OrderedMap.names ms).filter (· ≠ restName)).eraseDups

variable {name n : String} {v : Json} {ms seen : List (String × Json)} {t t' : Tokens}

theorem last?_append (name n : String) (v : Json) (ms : List (String × Json)) :
    last? n (ms ++ [(name, v)]) = if name = n then some v else last? n ms := by
  have hfirst : last? n (ms ++ [(name, v)]) = OrderedMap.get? n ((name, v) :: ms.reverse) := by
    rw [last?, List.reverse_append]
    rfl
  rw [hfirst, OrderedMap.get?, List.find?_cons]
  by_cases h : name = n
  · rw [if_pos h, beq_iff_eq.mpr h]
    rfl
  · rw [if_neg h, beq_eq_false_iff_ne.mpr h]
    rfl

theorem keys_append_rest : keys (ms ++ [(restName, v)]) = keys ms := by
  rw [keys, OrderedMap.names_append, List.filter_append]
  exact congrArg List.eraseDups (List.append_nil _)

theorem keys_append (hname : name ≠ restName) :
    keys (ms ++ [(name, v)]) = if name ∈ keys ms then keys ms else keys ms ++ [name] := by
  let old := (OrderedMap.names ms).filter (· ≠ restName)
  have hlast : (OrderedMap.names [(name, v)]).filter (· ≠ restName) = [name] :=
    List.filter_eq_self.mpr fun n hn => decide_eq_true (List.mem_singleton.mp hn ▸ hname)
  have happend : keys (ms ++ [(name, v)]) = keys ms ++ ([name].removeAll old).eraseDups := by
    rw [keys, OrderedMap.names_append, List.filter_append, hlast, List.eraseDups_append]
    rfl
  rw [happend]
  by_cases h : name ∈ keys ms
  · have hold : old.elem name = true := List.elem_eq_true_of_mem (List.mem_eraseDups.mp h)
    rw [if_pos h, List.removeAll, List.filter_cons_of_neg (by simpa using hold)]
    exact List.append_nil _
  · have hnew : ¬ old.elem name = true := fun h' =>
      h (List.mem_eraseDups.mpr (List.mem_of_elem_eq_true h'))
    rw [if_neg h, List.removeAll, List.filter_cons_of_pos (by simpa using hnew)]
    rfl

theorem ne_rest_of_mem_keys (h : name ∈ keys ms) : name ≠ restName := by
  rw [keys, List.mem_eraseDups, List.mem_filter] at h
  exact of_decide_eq_true h.2

-- ── What values say ──────────────────────────────────────────────────────

/-- A value, unless it is the one that stands for none. -/
def present? : Json → Option Json
  | .null => none
  | v => some v

/-- What a descriptor says about the grammar inside of its pattern. -/
def insideOf? : Json → Option Json
  | .object ms => (last? "inside" ms).bind present?
  | .array vs => vs[5]?.bind present?
  | _ => none

mutual

/-- A reference is what a value says: a language by its name, or the keys
    of a token map in their order, what the last value of each of them says,
    and what the last `rest` does. -/
def Reference.SaidBy : Reference → Json → Prop
  | .language name, v => v = .string name
  | .inline entries rest, v => ∃ ms, v = .object ms ∧
      ((OrderedMap.names entries).Nodup ∧ OrderedMap.names entries = keys ms) ∧
        RulesSaidBy entries ms ∧ GrammarSaidBy rest (last? restName ms)

/-- The patterns of every key are what its last value says. -/
def RulesSaidBy : List (String × PatternsForm Reference) → List (String × Json) → Prop
  | [], _ => True
  | (name, ps) :: entries, ms =>
      (∃ v, last? name ms = some v ∧ patterns? v = some ps ∧ PatternsSaidBy ps v) ∧
        RulesSaidBy entries ms

/-- So are the grammars inside of patterns. -/
def PatternsSaidBy : PatternsForm Reference → Json → Prop
  | .single p, v => PatternSaidBy p v
  | .alternatives ps, v => ∃ vs, v = .array vs ∧ AlternativesSaidBy ps vs

/-- So are those inside of patterns in a row. -/
def AlternativesSaidBy : List (PatternForm Reference) → List Json → Prop
  | [], vs => vs = []
  | p :: ps, vs => ∃ v vs', vs = v :: vs' ∧ PatternSaidBy p v ∧ AlternativesSaidBy ps vs'

/-- So is the one inside of a pattern. -/
def PatternSaidBy : PatternForm Reference → Json → Prop
  | .source s, v => v = .string s
  | .descriptor ⟨_, _, _, _, _, grammar⟩, v => GrammarSaidBy grammar (insideOf? v)

/-- A grammar is there if a value for it is, and is what that says. -/
def GrammarSaidBy : Option Reference → Option Json → Prop
  | none, v => v = none
  | some r, v => ∃ w, v = some w ∧ reference? w = some r ∧ r.SaidBy w

end

/-- Tokens are what members say, at every depth. -/
structure Tokens.SaidBy (t : Tokens) (ms : List (String × Json)) : Prop where
  nodup : (OrderedMap.names t.entries).Nodup
  keys : OrderedMap.names t.entries = keys ms
  rules : RulesSaidBy t.entries ms
  rest : GrammarSaidBy t.rest (last? restName ms)

theorem Reference.saidBy_ofTokens (h : t.SaidBy ms) :
    (Reference.ofTokens t).SaidBy (.object ms) := by
  rw [Reference.ofTokens, Reference.SaidBy]
  exact ⟨ms, rfl, ⟨h.nodup, h.keys⟩, h.rules, h.rest⟩

theorem rulesSaidBy_iff {entries : List (String × PatternsForm Reference)} :
    RulesSaidBy entries ms ↔
      ∀ e ∈ entries,
        ∃ v, last? e.1 ms = some v ∧ patterns? v = some e.2 ∧ PatternsSaidBy e.2 v := by
  induction entries with
  | nil =>
      rw [RulesSaidBy]
      exact ⟨fun _ => nofun, fun _ => trivial⟩
  | cons e entries ih =>
      rw [RulesSaidBy, ih, List.forall_mem_cons]

theorem patternSaidBy_descriptor {d : Descriptor Reference} :
    PatternSaidBy (.descriptor d) v ↔ GrammarSaidBy d.inside (insideOf? v) := by
  obtain ⟨_, _, _, _, _, _⟩ := d
  rw [PatternSaidBy]

-- ── One member more ──────────────────────────────────────────────────────

theorem Tokens.saidBy_nil : ({} : Tokens).SaidBy [] where
  nodup := .nil
  keys := rfl
  rules := by rw [RulesSaidBy]; trivial
  rest := by rw [GrammarSaidBy]; rfl

/-- A key that is there keeps its place, a new one comes last; either has
    the new value. -/
theorem Tokens.SaidBy.set (h : t.SaidBy seen) (hname : name ≠ restName)
    {ps : PatternsForm Reference} (hv : patterns? v = some ps) (hps : PatternsSaidBy ps v) :
    ({ t with entries := OrderedMap.set name ps t.entries } : Tokens).SaidBy
      (seen ++ [(name, v)]) where
  nodup := OrderedMap.nodup_names_set h.nodup name ps
  keys := by
    rw [keys_append hname, ← h.keys]
    split
    case isTrue hmem => exact OrderedMap.names_set_of_mem hmem ps
    case isFalse hmem =>
      rw [OrderedMap.set_of_not_mem hmem, OrderedMap.names_append]
      rfl
  rules := rulesSaidBy_iff.mpr fun e he => by
    rw [last?_append]
    by_cases heq : name = e.1
    · have hget := OrderedMap.get?_of_mem (OrderedMap.nodup_names_set h.nodup name ps) he
      rw [← heq, OrderedMap.get?_set_self] at hget
      rw [if_pos heq, ← Option.some.inj hget]
      exact ⟨v, rfl, hv, hps⟩
    · have hold : e ∈ t.entries :=
        (OrderedMap.mem_set he).resolve_left fun h' => heq (congrArg Prod.fst h').symm
      rw [if_neg heq]
      exact rulesSaidBy_iff.mp h.rules e hold
  rest := by
    rw [last?_append, if_neg hname]
    exact h.rest

theorem Tokens.SaidBy.setRest (h : t.SaidBy seen) {r : Reference} (hv : reference? v = some r)
    (hr : r.SaidBy v) :
    ({ t with rest := some r } : Tokens).SaidBy (seen ++ [(restName, v)]) where
  nodup := h.nodup
  keys := h.keys.trans keys_append_rest.symm
  rules := rulesSaidBy_iff.mpr fun e he => by
    have hmem : e.1 ∈ OrderedMap.names t.entries := List.mem_map_of_mem he
    have hne : restName ≠ e.1 := (ne_rest_of_mem_keys (h.keys ▸ hmem)).symm
    rw [last?_append, if_neg hne]
    exact rulesSaidBy_iff.mp h.rules e he
  rest := by
    rw [last?_append, if_pos rfl, GrammarSaidBy]
    exact ⟨v, rfl, hv, hr⟩

-- ── Values ───────────────────────────────────────────────────────────────

/-- The grammar inside that a descriptor has so far is what the value for
    it says, if there was one. -/
def Fields.SaidBy (f : Fields) (inside : Option Json) : Prop :=
  match f.inside with
  | none => inside = none
  | some grammar => ∃ v, inside = some v ∧ GrammarSaidBy grammar (present? v)

theorem Fields.SaidBy.descriptor? {f : Fields} {inside : Option Json} (h : f.SaidBy inside)
    {d : Descriptor Reference} (hd : f.descriptor? = some d) :
    GrammarSaidBy d.inside (inside.bind present?) := by
  obtain ⟨p, -, rfl⟩ := Option.map_eq_some_iff.mp hd
  unfold Fields.SaidBy at h
  split at h
  case h_1 hnone =>
    obtain rfl := h
    rw [hnone, Option.getD_none, GrammarSaidBy]
    rfl
  case h_2 grammar hsome =>
    obtain ⟨v, rfl, hv⟩ := h
    rw [hsome]
    exact hv

mutual

theorem reference?_saidBy : ∀ {v : Json} {r : Reference}, reference? v = some r → r.SaidBy v
  | .null, r, h => by simp [reference?] at h
  | .bool _, r, h => by simp [reference?] at h
  | .number _, r, h => by simp [reference?] at h
  | .array _, r, h => by simp [reference?] at h
  | .string name, r, h => by
      rw [reference?] at h
      obtain rfl := Option.some.inj h
      rw [Reference.SaidBy]
  | .object ms, r, h => by
      rw [reference?] at h
      obtain ⟨t, ht, rfl⟩ := Option.map_eq_some_iff.mp h
      exact Reference.saidBy_ofTokens (tokens?_saidBy ht Tokens.saidBy_nil)

theorem tokens?_saidBy : ∀ {ms seen : List (String × Json)} {t t' : Tokens},
    tokens? ms t = some t' → t.SaidBy seen → t'.SaidBy (seen ++ ms)
  | [], seen, t, t', h, ht => by
      rw [tokens?] at h
      obtain rfl := Option.some.inj h
      exact (List.append_nil seen).symm ▸ ht
  | (name, v) :: ms, seen, t, t', h, ht => by
      rw [List.append_cons]
      rw [tokens?] at h
      split at h
      · next hname =>
          split at h
          · next r hr =>
              subst hname
              exact tokens?_saidBy h (ht.setRest hr (reference?_saidBy hr))
          · exact nomatch h
      · next hname =>
          split at h
          · next ps hps => exact tokens?_saidBy h (ht.set hname hps (patterns?_saidBy hps))
          · exact nomatch h

theorem patterns?_saidBy : ∀ {v : Json} {ps : PatternsForm Reference},
    patterns? v = some ps → PatternsSaidBy ps v
  | .null, ps, h => by simp [patterns?] at h
  | .bool _, ps, h => by simp [patterns?] at h
  | .number _, ps, h => by simp [patterns?] at h
  | .string s, ps, h => by
      rw [patterns?] at h
      obtain rfl := Option.some.inj h
      rw [PatternsSaidBy, PatternSaidBy]
  | .array vs, ps, h => by
      rw [patterns?] at h
      split at h
      · next qs hqs =>
          obtain rfl := Option.some.inj h
          rw [PatternsSaidBy]
          exact ⟨vs, rfl, alternatives?_saidBy hqs⟩
      · obtain ⟨d, hd, rfl⟩ := Option.map_eq_some_iff.mp h
        rw [PatternsSaidBy, patternSaidBy_descriptor]
        exact positional?_saidBy hd
  | .object ms, ps, h => by
      rw [patterns?] at h
      obtain ⟨d, hd, rfl⟩ := Option.map_eq_some_iff.mp h
      have hinside : GrammarSaidBy d.inside ((last? "inside" ([] ++ ms)).bind present?) :=
        fields?_saidBy hd rfl
      rw [PatternsSaidBy, patternSaidBy_descriptor]
      exact hinside

theorem pattern?_saidBy : ∀ {v : Json} {p : PatternForm Reference},
    pattern? v = some p → PatternSaidBy p v
  | .null, p, h => by simp [pattern?] at h
  | .bool _, p, h => by simp [pattern?] at h
  | .number _, p, h => by simp [pattern?] at h
  | .string s, p, h => by
      rw [pattern?] at h
      obtain rfl := Option.some.inj h
      rw [PatternSaidBy]
  | .array vs, p, h => by
      rw [pattern?] at h
      obtain ⟨d, hd, rfl⟩ := Option.map_eq_some_iff.mp h
      exact patternSaidBy_descriptor.mpr (positional?_saidBy hd)
  | .object ms, p, h => by
      rw [pattern?] at h
      obtain ⟨d, hd, rfl⟩ := Option.map_eq_some_iff.mp h
      have hinside : GrammarSaidBy d.inside ((last? "inside" ([] ++ ms)).bind present?) :=
        fields?_saidBy hd rfl
      exact patternSaidBy_descriptor.mpr hinside

theorem alternatives?_saidBy : ∀ {vs : List Json} {ps : List (PatternForm Reference)},
    alternatives? vs = some ps → AlternativesSaidBy ps vs
  | [], ps, h => by
      rw [alternatives?] at h
      obtain rfl := Option.some.inj h
      rw [AlternativesSaidBy]
  | v :: vs, ps, h => by
      rw [alternatives?] at h
      split at h
      · next p qs hp hqs =>
          obtain rfl := Option.some.inj h
          rw [AlternativesSaidBy]
          exact ⟨v, vs, rfl, pattern?_saidBy hp, alternatives?_saidBy hqs⟩
      · exact nomatch h

theorem fields?_saidBy : ∀ {ms seen : List (String × Json)} {f : Fields}
    {d : Descriptor Reference}, fields? ms f = some d → f.SaidBy (last? "inside" seen) →
      GrammarSaidBy d.inside ((last? "inside" (seen ++ ms)).bind present?)
  | [], seen, f, d, h, hf => by
      rw [fields?] at h
      exact (List.append_nil seen).symm ▸ hf.descriptor? h
  | (name, v) :: ms, seen, f, d, h, hf => by
      rw [List.append_cons]
      -- Of the fields, only the grammar inside is looked at.
      have hother (hne : name ≠ "inside") :
          f.SaidBy (last? "inside" (seen ++ [(name, v)])) := by
        rw [last?_append, if_neg hne]
        exact hf
      unfold fields? at h
      split at h
      case h_6 =>
        split at h
        · next r hr =>
            refine fields?_saidBy h ?_
            obtain ⟨grammar, hgrammar, rfl⟩ := fill?_eq_some hr
            rw [last?_append, if_pos rfl]
            exact ⟨v, rfl, inside?_saidBy hgrammar⟩
        · exact nomatch h
      case h_7 hne => exact fields?_saidBy h (hother hne)
      all_goals
        split at h
        · exact fields?_saidBy h (hother (by decide))
        · exact nomatch h

theorem inside?_saidBy : ∀ {v : Json} {grammar : Option Reference},
    inside? v = some grammar → GrammarSaidBy grammar (present? v)
  | .bool _, grammar, h => by simp [inside?] at h
  | .number _, grammar, h => by simp [inside?] at h
  | .array _, grammar, h => by simp [inside?] at h
  | .null, grammar, h => by
      rw [inside?] at h
      obtain rfl := Option.some.inj h
      rw [GrammarSaidBy]
      rfl
  | .string name, grammar, h => by
      rw [inside?] at h
      obtain rfl := Option.some.inj h
      rw [GrammarSaidBy]
      exact ⟨_, rfl, rfl, by rw [Reference.SaidBy]⟩
  | .object ms, grammar, h => by
      rw [inside?] at h
      obtain ⟨t, ht, rfl⟩ := Option.map_eq_some_iff.mp h
      rw [GrammarSaidBy]
      refine ⟨_, rfl, ?_, Reference.saidBy_ofTokens (tokens?_saidBy ht Tokens.saidBy_nil)⟩
      rw [reference?, ht]
      rfl

theorem positional?_saidBy : ∀ {vs : List Json} {d : Descriptor Reference},
    positional? vs = some d → GrammarSaidBy d.inside (vs[5]?.bind present?)
  | [], d, h => by simp [positional?] at h
  | p :: vs, d, h => by
      rw [positional?] at h
      split at h
      · next pattern f hp hf =>
          have hsaid : f.SaidBy vs[4]? := afterPattern?_saidBy hf
          exact Fields.SaidBy.descriptor? (f := { f with pattern := some pattern }) hsaid h
      · exact nomatch h

theorem afterPattern?_saidBy : ∀ {vs : List Json} {f : Fields},
    afterPattern? vs = some f → f.SaidBy vs[4]?
  | [], f, h => by
      rw [afterPattern?] at h
      exact Option.some.inj h ▸ rfl
  | [s], f, h => by
      simp only [afterPattern?, Option.bind_eq_bind, Option.bind_eq_some_iff] at h
      obtain ⟨_, -, h⟩ := h
      exact Option.some.inj h ▸ rfl
  | [s, l], f, h => by
      simp only [afterPattern?, Option.bind_eq_bind, Option.bind_eq_some_iff] at h
      obtain ⟨_, -, _, -, h⟩ := h
      exact Option.some.inj h ▸ rfl
  | [s, l, g], f, h => by
      simp only [afterPattern?, Option.bind_eq_bind, Option.bind_eq_some_iff] at h
      obtain ⟨_, -, _, -, _, -, h⟩ := h
      exact Option.some.inj h ▸ rfl
  | [s, l, g, a], f, h => by
      simp only [afterPattern?, Option.bind_eq_bind, Option.bind_eq_some_iff] at h
      obtain ⟨_, -, _, -, _, -, _, -, h⟩ := h
      exact Option.some.inj h ▸ rfl
  | [s, l, g, a, i], f, h => by
      simp only [afterPattern?, Option.bind_eq_bind, Option.bind_eq_some_iff] at h
      obtain ⟨_, -, _, -, _, -, _, -, grammar, hgrammar, h⟩ := h
      obtain rfl := Option.some.inj h
      exact ⟨i, rfl, inside?_saidBy hgrammar⟩
  | _ :: _ :: _ :: _ :: _ :: _ :: _, f, h => by
      simp [afterPattern?] at h

end

-- ── Texts ────────────────────────────────────────────────────────────────

theorem members_next {α : Type} {item : Json.Reader α} {fuel : Nat} {first : Bool} {a : α}
    {as : List (String × α)} {cs cs₁ cs₂ cs₃ rest : List Char}
    (hname : Json.nextName first cs = .ok (some name, cs₁)) (hcolon : Json.colon cs₁ = .ok cs₂)
    (ha : item cs₂ = .ok (a, cs₃)) (has : Json.members item fuel false cs₃ = .ok (as, rest)) :
    Json.members item (fuel + 1) first cs = .ok ((name, a) :: as, rest) := by
  simp only [Json.members, hname, hcolon, ha, has, bind, Except.bind]

/-- The members of a token map that is read, as values. -/
theorem exists_members {depth fuel : Nat} : ∀ {first : Bool} {t t' : Tokens} {cs rest : List Char},
    readTokenMembers depth fuel first t cs = .ok (t', rest) →
      ∃ ms, Json.members (Json.readValue depth) fuel first cs = .ok (ms, rest) ∧
        tokens? ms t = some t' := by
  induction fuel with
  | zero => exact fun h => nomatch h
  | succ fuel ih =>
      intro first t t' cs rest h
      rw [readTokenMembers] at h
      obtain ⟨⟨name, cs₁⟩, hname, h⟩ := exists_of_bind_ok h
      cases name with
      | none =>
          obtain ⟨rfl, rfl⟩ := Prod.mk.inj (Except.ok.inj h)
          refine ⟨[], ?_, by rw [tokens?]⟩
          rw [Json.members, hname]
          rfl
      | some name =>
          obtain ⟨cs₂, hcolon, h⟩ := exists_of_bind_ok h
          obtain ⟨⟨v, cs₃⟩, hv, h⟩ := exists_of_bind_ok h
          dsimp only at h
          split at h
          · next hrest =>
              split at h
              · next r hr =>
                  obtain ⟨ms, hms, ht⟩ := ih h
                  refine ⟨(name, v) :: ms, members_next hname hcolon hv hms, ?_⟩
                  rw [tokens?, if_pos hrest, hr]
                  exact ht
              · cases h
          · next hrest =>
              split at h
              · next ps hps =>
                  obtain ⟨ms, hms, ht⟩ := ih h
                  refine ⟨(name, v) :: ms, members_next hname hcolon hv hms, ?_⟩
                  rw [tokens?, if_neg hrest, hps]
                  exact ht
              · cases h

/-- A token map that is read, as a value. -/
theorem exists_value {cs rest : List Char} {t : Tokens} (h : readTokens cs = .ok (t, rest)) :
    ∃ ms, Json.readValue (depth - 1) cs = .ok (.object ms, rest) ∧ tokens? ms {} = some t := by
  rw [readTokens] at h
  split at h
  · next cs₁ hcs =>
      obtain ⟨ms, hms, ht⟩ := exists_members h
      refine ⟨ms, ?_, ht⟩
      have hobject : Json.readValue (depth - 1) cs
          = (Json.members (Json.readValue (depth - 2)) (cs₁.length + 1) true cs₁).bind
            fun found => .ok (.object found.1, found.2) := by
        rw [Json.readValue, hcs]
        rfl
      rw [hobject, hms]
      rfl
  · cases h

-- ── Documents ────────────────────────────────────────────────────────────

/-- The value of a field other than the tokens is gone over. -/
inductive Passes : (field : String) → (cs rest : List Char) → Prop where
  | name {s : String} {cs rest : List Char} (h : Json.stringValue cs = .ok (s, rest)) :
      Passes "name" cs rest
  | aliases {ss : List String} {cs rest : List Char} (h : Json.stringValues cs = .ok (ss, rest)) :
      Passes "aliases" cs rest
  | other {field : String} {cs rest : List Char} (hfield : field ∉ ["name", "aliases", "tokens"])
      (h : Json.skipValue cs = .ok rest) : Passes field cs rest

/-- The value of the field with the tokens, among the members from some
    place on. -/
inductive TokensAmong (found : List Char) : (first : Bool) → (cs : List Char) → Prop where
  | here {first : Bool} {cs cs₁ : List Char}
      (hname : Json.nextName first cs = .ok (some "tokens", cs₁))
      (hcolon : Json.colon cs₁ = .ok found) : TokensAmong found first cs
  | behind {first : Bool} {field : String} {cs cs₁ cs₂ cs₃ : List Char}
      (hname : Json.nextName first cs = .ok (some field, cs₁))
      (hcolon : Json.colon cs₁ = .ok cs₂) (hpasses : Passes field cs₂ cs₃)
      (h : TokensAmong found false cs₃) : TokensAmong found first cs

/-- Where the token map of a document begins: as the value of the field, or
    as the third element of a list. -/
inductive TokenMapAt (found cs : List Char) : Prop where
  | object {cs₁ : List Char} (hcs : Json.trim cs = '{' :: cs₁) (h : TokensAmong found true cs₁)
  | list {name : String} {aliases : List String} {cs₁ cs₂ cs₃ cs₄ cs₅ : List Char}
      (hcs : Json.trim cs = '[' :: cs₁) (h₁ : Json.nextElement true cs₁ = .ok (true, cs₂))
      (hname : Json.stringValue cs₂ = .ok (name, cs₃))
      (h₂ : Json.nextElement false cs₃ = .ok (true, cs₄))
      (haliases : Json.stringValues cs₄ = .ok (aliases, cs₅))
      (h₃ : Json.nextElement false cs₅ = .ok (true, found))

theorem readField_cases {α : Type} {old a : Option α} {item : Json.Reader α}
    {cs rest : List Char} (h : readField name old item cs = .ok (a, rest)) :
    old = none ∧ ∃ b cs₁, Json.colon cs = .ok cs₁ ∧ item cs₁ = .ok (b, rest) ∧ a = some b := by
  unfold readField at h
  split at h
  · cases h
  · next hnone =>
      obtain ⟨cs₁, hcolon, h⟩ := exists_of_bind_ok h
      obtain ⟨⟨b, cs₂⟩, hitem, h⟩ := exists_of_bind_ok h
      obtain ⟨rfl, rfl⟩ := Prod.mk.inj (Except.ok.inj h)
      exact ⟨Option.not_isSome_iff_eq_none.mp hnone, b, cs₁, hcolon, hitem, rfl⟩

/-- The tokens of a document are read where their field is found. -/
def TokensFound (d : Document) (first : Bool) (cs : List Char) : Prop :=
  ∃ found rest, TokensAmong found first cs ∧ readTokens found = .ok (d.tokens, rest)

theorem TokensFound.behind {d : Document} {first : Bool} {field : String}
    {cs cs₁ cs₂ cs₃ : List Char} (h : TokensFound d false cs₃)
    (hname : Json.nextName first cs = .ok (some field, cs₁))
    (hcolon : Json.colon cs₁ = .ok cs₂) (hpasses : Passes field cs₂ cs₃) :
    TokensFound d first cs := by
  obtain ⟨found, rest, hfound, hread⟩ := h
  exact ⟨found, rest, .behind hname hcolon hpasses hfound, hread⟩

theorem Parts.document_tokens {p : Parts} {d : Document} (h : p.document = .ok d) :
    p.tokens = some d.tokens := by
  unfold Parts.document at h
  split at h
  · cases h
  · cases h
  · next htokens =>
      obtain rfl := Except.ok.inj h
      exact htokens

/-- A document has the tokens that are there already, or those behind. -/
theorem readMembers_tokenMapAt {fuel : Nat} : ∀ {first : Bool} {p : Parts} {d : Document}
    {cs rest : List Char}, readMembers fuel first p cs = .ok (d, rest) →
      (∀ t, p.tokens = some t → d.tokens = t) ∧ (p.tokens = none → TokensFound d first cs) := by
  induction fuel with
  | zero => exact fun h => nomatch h
  | succ fuel ih =>
      intro first p d cs rest h
      rw [readMembers] at h
      obtain ⟨⟨name, cs₁⟩, hname, h⟩ := exists_of_bind_ok h
      dsimp only at h
      split at h
      case h_1 heq =>
        split at h
        · next d' hd =>
            obtain ⟨rfl, -⟩ := Prod.mk.inj (Except.ok.inj h)
            have htokens := Parts.document_tokens hd
            exact ⟨fun t ht => Option.some.inj (htokens.symm.trans ht),
              fun hnone => absurd (htokens.symm.trans hnone) (Option.some_ne_none _)⟩
        · cases h
      case h_2 heq =>
        obtain ⟨rfl, rfl⟩ := Prod.mk.inj heq
        obtain ⟨⟨_, cs₂⟩, hfield, h⟩ := exists_of_bind_ok h
        obtain ⟨-, s, cs₃, hcolon, hs, rfl⟩ := readField_cases hfield
        obtain ⟨hthere, hbehind⟩ := ih h
        exact ⟨hthere, fun hnone => (hbehind hnone).behind hname hcolon (.name hs)⟩
      case h_3 heq =>
        obtain ⟨rfl, rfl⟩ := Prod.mk.inj heq
        obtain ⟨⟨_, cs₂⟩, hfield, h⟩ := exists_of_bind_ok h
        obtain ⟨-, ss, cs₃, hcolon, hss, rfl⟩ := readField_cases hfield
        obtain ⟨hthere, hbehind⟩ := ih h
        exact ⟨hthere, fun hnone => (hbehind hnone).behind hname hcolon (.aliases hss)⟩
      case h_4 heq =>
        obtain ⟨rfl, rfl⟩ := Prod.mk.inj heq
        obtain ⟨⟨_, cs₂⟩, hfield, h⟩ := exists_of_bind_ok h
        obtain ⟨hnone, t, cs₃, hcolon, ht, rfl⟩ := readField_cases hfield
        obtain rfl : d.tokens = t := (ih h).1 t rfl
        exact ⟨fun t ht => absurd (ht.symm.trans hnone) (Option.some_ne_none t),
          fun _ => ⟨cs₃, cs₂, .here hname hcolon, ht⟩⟩
      case h_5 field cs' hname' haliases' htokens' heq =>
        obtain ⟨rfl, rfl⟩ := Prod.mk.inj heq
        obtain ⟨cs₂, hcolon, h⟩ := exists_of_bind_ok h
        obtain ⟨cs₃, hskip, h⟩ := exists_of_bind_ok h
        obtain ⟨hthere, hbehind⟩ := ih h
        have hother : field ∉ ["name", "aliases", "tokens"] := by
          simp only [List.mem_cons, List.not_mem_nil, or_false, not_or]
          exact ⟨hname', haliases', htokens'⟩
        exact ⟨hthere, fun hnone => (hbehind hnone).behind hname hcolon (.other hother hskip)⟩

theorem readElements_tokenMapAt {d : Document} {cs cs₁ rest : List Char}
    (hcs : Json.trim cs = '[' :: cs₁) (h : readElements cs₁ = .ok (d, rest)) :
    ∃ found rest, TokenMapAt found cs ∧ readTokens found = .ok (d.tokens, rest) := by
  rw [readElements] at h
  obtain ⟨⟨more, _⟩, h₁, h⟩ := exists_of_bind_ok h
  cases more
  · cases h
  obtain ⟨_, hname, h⟩ := exists_of_bind_ok h
  obtain ⟨⟨more, _⟩, h₂, h⟩ := exists_of_bind_ok h
  cases more
  · cases h
  obtain ⟨_, haliases, h⟩ := exists_of_bind_ok h
  obtain ⟨⟨more, _⟩, h₃, h⟩ := exists_of_bind_ok h
  cases more
  · cases h
  obtain ⟨_, htokens, h⟩ := exists_of_bind_ok h
  obtain ⟨_, -, h⟩ := exists_of_bind_ok h
  obtain ⟨rfl, -⟩ := Prod.mk.inj (Except.ok.inj h)
  exact ⟨_, _, .list hcs h₁ hname h₂ haliases h₃, htokens⟩

/-- The tokens of a document that is read are what the members of the token
    map in the text say. -/
theorem read_saidBy {medium : Json.Medium} {text : String} {d : Document}
    (h : read medium text = .ok d) :
    ∃ found rest ms, TokenMapAt found text.toList ∧
      Json.readValue (depth - 1) found = .ok (.object ms, rest) ∧ d.tokens.SaidBy ms := by
  have hfound : ∃ found rest, TokenMapAt found text.toList ∧
      readTokens found = .ok (d.tokens, rest) := by
    unfold read at h
    split at h
    · next d' hd =>
        obtain rfl := Except.ok.inj h
        rw [readDocument] at hd
        split at hd
        · next cs hcs =>
            obtain ⟨⟨d, _⟩, hread, hd⟩ := exists_of_bind_ok hd
            obtain ⟨_, -, hd⟩ := exists_of_bind_ok hd
            obtain rfl := Except.ok.inj hd
            obtain ⟨found, rest, hfound, htokens⟩ := (readMembers_tokenMapAt hread).2 rfl
            exact ⟨found, rest, .object hcs hfound, htokens⟩
        · next cs hcs =>
            obtain ⟨⟨d, _⟩, hread, hd⟩ := exists_of_bind_ok hd
            obtain ⟨_, -, hd⟩ := exists_of_bind_ok hd
            exact Except.ok.inj hd ▸ readElements_tokenMapAt hcs hread
        · cases hd
    · cases h
  obtain ⟨found, rest, hplace, hread⟩ := hfound
  obtain ⟨ms, hvalue, htokens⟩ := exists_value hread
  exact ⟨found, rest, ms, hplace, hvalue, tokens?_saidBy htokens Tokens.saidBy_nil⟩

/-- A document in which keys come again, outside and inside. -/
def repeatedText : String :=
  "\x7b\"tokens\":\x7b\"b\":\"1\",\"rest\":\"x\",\"a\":\"2\",\"b\":"
    ++ "\x7b\"pattern\":\"3\",\"inside\":"
    ++ "\x7b\"k\":\"4\",\"rest\":\"y\",\"l\":\"5\",\"k\":\"6\"\x7d\x7d,"
    ++ "\"rest\":\"z\",\"a\":\"7\"\x7d,\"name\":\"t\"\x7d"

/-- Its keys in the order in which they come first, with what is last said
    of them. -/
def repeatedDocument : Document where
  name := "t"
  tokens :=
    { entries :=
        [("b", one
          { pattern := "3"
            inside := some
              (.inline [("k", source "6"), ("l", source "5")] (some (.language "y"))) }),
         ("a", source "7")]
      rest := some (.language "z") }

theorem read_saidBy_repeated :
    read .memory repeatedText = .ok repeatedDocument ∧
      ∃ found rest ms, TokenMapAt found repeatedText.toList ∧
        Json.readValue (depth - 1) found = .ok (.object ms, rest) ∧
        repeatedDocument.tokens.SaidBy ms := by
  have hread : read .memory repeatedText = .ok repeatedDocument := by cbv
  exact ⟨hread, read_saidBy hread⟩

end Highlighter.Document
