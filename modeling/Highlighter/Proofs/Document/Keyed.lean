import Highlighter.Document.Reader
import Highlighter.Proofs.Tokenizer.Cutting

/-! # Token maps with distinct keys

    A token map that is read from a text never has a key twice, and the key
    of the grammar to be merged in is none of them: a member sets the entry
    of its name, or the `rest`.  That holds of the maps inside as well, at
    any depth (`keyed_of_read`). -/

namespace Highlighter.Document

open Json (Failure)
open Tokenizer (exists_of_bind_ok)

-- ── Distinct keys ────────────────────────────────────────────────────────

mutual

/-- Tokens written in place have distinct keys. -/
def Reference.Keyed : Reference → Prop
  | .language _ => True
  | .inline entries rest =>
      ((OrderedMap.names entries).Nodup ∧ restName ∉ OrderedMap.names entries) ∧
        RulesKeyed entries ∧ InsideKeyed rest

/-- Tokens written inside of rules have distinct keys. -/
def RulesKeyed : List (String × PatternsForm Reference) → Prop
  | [] => True
  | (_, ps) :: entries => PatternsKeyed ps ∧ RulesKeyed entries

/-- Tokens written inside of the patterns of a token have distinct keys. -/
def PatternsKeyed : PatternsForm Reference → Prop
  | .single p => PatternKeyed p
  | .alternatives ps => AlternativesKeyed ps

/-- Tokens written inside of patterns in a row have distinct keys. -/
def AlternativesKeyed : List (PatternForm Reference) → Prop
  | [] => True
  | p :: ps => PatternKeyed p ∧ AlternativesKeyed ps

/-- Tokens written inside of a pattern have distinct keys. -/
def PatternKeyed : PatternForm Reference → Prop
  | .source _ => True
  | .descriptor ⟨_, _, _, _, _, grammar⟩ => InsideKeyed grammar

/-- Tokens of a reference, if there is one, have distinct keys. -/
def InsideKeyed : Option Reference → Prop
  | none => True
  | some r => r.Keyed

end

/-- Tokens have distinct keys, at every depth, and none of them is the key
    of the grammar to be merged in. -/
structure Tokens.Keyed (t : Tokens) : Prop where
  nodup : (OrderedMap.names t.entries).Nodup
  rest_not_mem : restName ∉ OrderedMap.names t.entries
  rules : RulesKeyed t.entries
  rest : InsideKeyed t.rest

theorem Reference.keyed_ofTokens {t : Tokens} : (Reference.ofTokens t).Keyed ↔ t.Keyed := by
  rw [Reference.ofTokens, Reference.Keyed]
  exact ⟨fun ⟨⟨h, h'⟩, hr, hi⟩ => ⟨h, h', hr, hi⟩, fun ⟨h, h', hr, hi⟩ => ⟨⟨h, h'⟩, hr, hi⟩⟩

theorem rulesKeyed_iff {entries : List (String × PatternsForm Reference)} :
    RulesKeyed entries ↔ ∀ e ∈ entries, PatternsKeyed e.2 := by
  induction entries with
  | nil =>
      rw [RulesKeyed]
      exact ⟨fun _ => nofun, fun _ => trivial⟩
  | cons e entries ih =>
      rw [RulesKeyed, ih, List.forall_mem_cons]

theorem Tokens.keyed_empty : ({} : Tokens).Keyed where
  nodup := .nil
  rest_not_mem := nofun
  rules := by rw [RulesKeyed]; trivial
  rest := by rw [InsideKeyed]; trivial

/-- Setting an entry keeps the keys apart. -/
theorem Tokens.Keyed.set {t : Tokens} (h : t.Keyed) {name : String} (hname : name ≠ restName)
    {ps : PatternsForm Reference} (hps : PatternsKeyed ps) :
    ({ t with entries := OrderedMap.set name ps t.entries } : Tokens).Keyed where
  nodup := OrderedMap.nodup_names_set h.nodup name ps
  rest_not_mem hmem := (OrderedMap.mem_names_set.mp hmem).elim (Ne.symm hname) h.rest_not_mem
  rules := rulesKeyed_iff.mpr fun e he => by
    rcases OrderedMap.mem_set he with rfl | he
    · exact hps
    · exact rulesKeyed_iff.mp h.rules e he
  rest := h.rest

theorem Tokens.Keyed.setRest {t : Tokens} (h : t.Keyed) {r : Reference} (hr : r.Keyed) :
    ({ t with rest := some r } : Tokens).Keyed :=
  { h with rest := by rw [InsideKeyed]; exact hr }

-- ── Values ───────────────────────────────────────────────────────────────

/-- The grammar inside that a descriptor has so far has distinct keys. -/
def Fields.Keyed (f : Fields) : Prop := ∀ i, f.inside = some i → InsideKeyed i

theorem Fields.Keyed.descriptor? {f : Fields} (h : f.Keyed) {d : Descriptor Reference}
    (hd : f.descriptor? = some d) : InsideKeyed d.inside := by
  obtain ⟨p, -, rfl⟩ := Option.map_eq_some_iff.mp hd
  cases hi : f.inside with
  | none =>
      rw [Option.getD_none, InsideKeyed]
      trivial
  | some i => exact h i hi

theorem fill?_eq_some {α : Type} {old new : Option α} {a : Option α}
    (h : fill? old new = some a) : ∃ v, new = some v ∧ a = some v := by
  unfold fill? at h
  split at h
  · next v => exact ⟨v, rfl, (Option.some.inj h).symm⟩
  · exact nomatch h

theorem patternKeyed_descriptor {d : Descriptor Reference} :
    PatternKeyed (.descriptor d) ↔ InsideKeyed d.inside := by
  obtain ⟨_, _, _, _, _, _⟩ := d
  rw [PatternKeyed]

mutual

theorem reference?_keyed : ∀ {v : Json} {r : Reference}, reference? v = some r → r.Keyed
  | .null, r, h => by simp [reference?] at h
  | .bool _, r, h => by simp [reference?] at h
  | .number _, r, h => by simp [reference?] at h
  | .array _, r, h => by simp [reference?] at h
  | .string name, r, h => by
      rw [reference?] at h
      obtain rfl := Option.some.inj h
      rw [Reference.Keyed]
      trivial
  | .object ms, r, h => by
      rw [reference?] at h
      obtain ⟨t, ht, rfl⟩ := Option.map_eq_some_iff.mp h
      exact Reference.keyed_ofTokens.mpr (tokens?_keyed ht Tokens.keyed_empty)

theorem tokens?_keyed : ∀ {ms : List (String × Json)} {t t' : Tokens},
    tokens? ms t = some t' → t.Keyed → t'.Keyed
  | [], t, t', h, ht => by
      rw [tokens?] at h
      obtain rfl := Option.some.inj h
      exact ht
  | (name, v) :: ms, t, t', h, ht => by
      rw [tokens?] at h
      split at h
      · split at h
        · next r hr => exact tokens?_keyed h (ht.setRest (reference?_keyed hr))
        · exact nomatch h
      · next hname =>
          split at h
          · next ps hps => exact tokens?_keyed h (ht.set hname (patterns?_keyed hps))
          · exact nomatch h

theorem patterns?_keyed : ∀ {v : Json} {ps : PatternsForm Reference},
    patterns? v = some ps → PatternsKeyed ps
  | .null, ps, h => by simp [patterns?] at h
  | .bool _, ps, h => by simp [patterns?] at h
  | .number _, ps, h => by simp [patterns?] at h
  | .string s, ps, h => by
      rw [patterns?] at h
      obtain rfl := Option.some.inj h
      rw [PatternsKeyed, PatternKeyed]
      trivial
  | .array vs, ps, h => by
      rw [patterns?] at h
      split at h
      · next qs hqs =>
          obtain rfl := Option.some.inj h
          rw [PatternsKeyed]
          exact alternatives?_keyed hqs
      · obtain ⟨d, hd, rfl⟩ := Option.map_eq_some_iff.mp h
        rw [PatternsKeyed, patternKeyed_descriptor]
        exact positional?_keyed hd
  | .object ms, ps, h => by
      rw [patterns?] at h
      obtain ⟨d, hd, rfl⟩ := Option.map_eq_some_iff.mp h
      rw [PatternsKeyed, patternKeyed_descriptor]
      exact fields?_keyed hd nofun

theorem pattern?_keyed : ∀ {v : Json} {p : PatternForm Reference},
    pattern? v = some p → PatternKeyed p
  | .null, p, h => by simp [pattern?] at h
  | .bool _, p, h => by simp [pattern?] at h
  | .number _, p, h => by simp [pattern?] at h
  | .string s, p, h => by
      rw [pattern?] at h
      obtain rfl := Option.some.inj h
      rw [PatternKeyed]
      trivial
  | .array vs, p, h => by
      rw [pattern?] at h
      obtain ⟨d, hd, rfl⟩ := Option.map_eq_some_iff.mp h
      exact patternKeyed_descriptor.mpr (positional?_keyed hd)
  | .object ms, p, h => by
      rw [pattern?] at h
      obtain ⟨d, hd, rfl⟩ := Option.map_eq_some_iff.mp h
      exact patternKeyed_descriptor.mpr (fields?_keyed hd nofun)

theorem alternatives?_keyed : ∀ {vs : List Json} {ps : List (PatternForm Reference)},
    alternatives? vs = some ps → AlternativesKeyed ps
  | [], ps, h => by
      rw [alternatives?] at h
      obtain rfl := Option.some.inj h
      rw [AlternativesKeyed]
      trivial
  | v :: vs, ps, h => by
      rw [alternatives?] at h
      split at h
      · next p qs hp hqs =>
          obtain rfl := Option.some.inj h
          rw [AlternativesKeyed]
          exact ⟨pattern?_keyed hp, alternatives?_keyed hqs⟩
      · exact nomatch h

theorem fields?_keyed : ∀ {ms : List (String × Json)} {f : Fields} {d : Descriptor Reference},
    fields? ms f = some d → f.Keyed → InsideKeyed d.inside
  | [], f, d, h, hf => by
      rw [fields?] at h
      exact hf.descriptor? h
  | (name, v) :: ms, f, d, h, hf => by
      unfold fields? at h
      split at h
      -- Of the fields, only the grammar inside is looked at.
      case h_6 =>
        split at h
        · next r hr =>
            refine fields?_keyed h fun i hi => ?_
            obtain ⟨i', hi', rfl⟩ := fill?_eq_some hr
            exact Option.some.inj hi ▸ inside?_keyed hi'
        · exact nomatch h
      case h_7 => exact fields?_keyed h hf
      all_goals
        split at h
        · exact fields?_keyed h hf
        · exact nomatch h

theorem inside?_keyed : ∀ {v : Json} {i : Option Reference}, inside? v = some i → InsideKeyed i
  | .bool _, i, h => by simp [inside?] at h
  | .number _, i, h => by simp [inside?] at h
  | .array _, i, h => by simp [inside?] at h
  | .null, i, h => by
      rw [inside?] at h
      obtain rfl := Option.some.inj h
      rw [InsideKeyed]
      trivial
  | .string name, i, h => by
      rw [inside?] at h
      obtain rfl := Option.some.inj h
      rw [InsideKeyed, Reference.Keyed]
      trivial
  | .object ms, i, h => by
      rw [inside?] at h
      obtain ⟨t, ht, rfl⟩ := Option.map_eq_some_iff.mp h
      rw [InsideKeyed]
      exact Reference.keyed_ofTokens.mpr (tokens?_keyed ht Tokens.keyed_empty)

theorem positional?_keyed : ∀ {vs : List Json} {d : Descriptor Reference},
    positional? vs = some d → InsideKeyed d.inside
  | [], d, h => by simp [positional?] at h
  | p :: vs, d, h => by
      rw [positional?] at h
      split at h
      · next pattern f hp hf =>
          have hkeyed : f.Keyed := afterPattern?_keyed hf
          exact Fields.Keyed.descriptor? (f := { f with pattern := some pattern }) hkeyed h
      · exact nomatch h

theorem afterPattern?_keyed : ∀ {vs : List Json} {f : Fields},
    afterPattern? vs = some f → f.Keyed
  | [], f, h => by
      rw [afterPattern?] at h
      exact Option.some.inj h ▸ nofun
  | [s], f, h => by
      simp only [afterPattern?, Option.bind_eq_bind, Option.bind_eq_some_iff] at h
      obtain ⟨_, -, h⟩ := h
      exact Option.some.inj h ▸ nofun
  | [s, l], f, h => by
      simp only [afterPattern?, Option.bind_eq_bind, Option.bind_eq_some_iff] at h
      obtain ⟨_, -, _, -, h⟩ := h
      exact Option.some.inj h ▸ nofun
  | [s, l, g], f, h => by
      simp only [afterPattern?, Option.bind_eq_bind, Option.bind_eq_some_iff] at h
      obtain ⟨_, -, _, -, _, -, h⟩ := h
      exact Option.some.inj h ▸ nofun
  | [s, l, g, a], f, h => by
      simp only [afterPattern?, Option.bind_eq_bind, Option.bind_eq_some_iff] at h
      obtain ⟨_, -, _, -, _, -, _, -, h⟩ := h
      exact Option.some.inj h ▸ nofun
  | [s, l, g, a, i], f, h => by
      simp only [afterPattern?, Option.bind_eq_bind, Option.bind_eq_some_iff] at h
      obtain ⟨_, -, _, -, _, -, _, -, i', hi, h⟩ := h
      intro i'' hi''
      obtain rfl := Option.some.inj h
      exact Option.some.inj hi'' ▸ inside?_keyed hi
  | _ :: _ :: _ :: _ :: _ :: _ :: _, f, h => by
      simp [afterPattern?] at h

end

-- ── Reading ──────────────────────────────────────────────────────────────

/-- The members of a token map keep its keys apart. -/
theorem readTokenMembers_keyed {depth fuel : Nat} : ∀ {first : Bool} {t t' : Tokens}
    {cs cs' : List Char}, readTokenMembers depth fuel first t cs = .ok (t', cs') →
      t.Keyed → t'.Keyed := by
  induction fuel with
  | zero => exact fun h _ => nomatch h
  | succ fuel ih =>
      intro first t t' cs cs' h ht
      rw [readTokenMembers] at h
      obtain ⟨⟨name, cs₁⟩, -, h⟩ := exists_of_bind_ok h
      cases name with
      | none =>
          obtain ⟨rfl, -⟩ := Prod.mk.inj (Except.ok.inj h)
          exact ht
      | some name =>
          obtain ⟨cs₂, -, h⟩ := exists_of_bind_ok h
          obtain ⟨⟨v, cs₃⟩, -, h⟩ := exists_of_bind_ok h
          dsimp only at h
          split at h
          · split at h
            · next r hr => exact ih h (ht.setRest (reference?_keyed hr))
            · exact nomatch h
          · next hname =>
              split at h
              · next ps hps => exact ih h (ht.set hname (patterns?_keyed hps))
              · exact nomatch h

theorem readTokens_keyed {cs cs' : List Char} {t : Tokens} (h : readTokens cs = .ok (t, cs')) :
    t.Keyed := by
  rw [readTokens] at h
  split at h
  · exact readTokenMembers_keyed h Tokens.keyed_empty
  · exact nomatch h

theorem Parts.document_keyed {p : Parts} {d : Document} (h : p.document = .ok d)
    (hp : ∀ t, p.tokens = some t → t.Keyed) : d.tokens.Keyed := by
  unfold Parts.document at h
  split at h
  · exact nomatch h
  · exact nomatch h
  · next tokens _ htokens =>
      obtain rfl := Except.ok.inj h
      exact hp tokens htokens

theorem readMembers_keyed {fuel : Nat} : ∀ {first : Bool} {p : Parts} {d : Document}
    {cs cs' : List Char}, readMembers fuel first p cs = .ok (d, cs') →
      (∀ t, p.tokens = some t → t.Keyed) → d.tokens.Keyed := by
  induction fuel with
  | zero => exact fun h _ => nomatch h
  | succ fuel ih =>
      intro first p d cs cs' h hp
      rw [readMembers] at h
      obtain ⟨⟨name, cs₁⟩, -, h⟩ := exists_of_bind_ok h
      dsimp only at h
      split at h
      · split at h
        · next d' hd =>
            obtain ⟨rfl, -⟩ := Prod.mk.inj (Except.ok.inj h)
            exact Parts.document_keyed hd hp
        · exact nomatch h
      · obtain ⟨_, -, h⟩ := exists_of_bind_ok h
        exact ih h hp
      · obtain ⟨_, -, h⟩ := exists_of_bind_ok h
        exact ih h hp
      · obtain ⟨⟨tokens, cs₂⟩, htokens, h⟩ := exists_of_bind_ok h
        refine ih h fun t ht => ?_
        unfold readField at htokens
        split at htokens
        · exact nomatch htokens
        · obtain ⟨_, -, htokens⟩ := exists_of_bind_ok htokens
          obtain ⟨⟨t', _⟩, ht', htokens⟩ := exists_of_bind_ok htokens
          obtain ⟨rfl, -⟩ := Prod.mk.inj (Except.ok.inj htokens)
          exact Option.some.inj ht ▸ readTokens_keyed ht'
      · obtain ⟨_, -, h⟩ := exists_of_bind_ok h
        obtain ⟨_, -, h⟩ := exists_of_bind_ok h
        exact ih h hp

theorem readElements_keyed {cs cs' : List Char} {d : Document}
    (h : readElements cs = .ok (d, cs')) : d.tokens.Keyed := by
  rw [readElements] at h
  obtain ⟨⟨more, _⟩, -, h⟩ := exists_of_bind_ok h
  cases more
  · exact nomatch h
  obtain ⟨_, -, h⟩ := exists_of_bind_ok h
  obtain ⟨⟨more, _⟩, -, h⟩ := exists_of_bind_ok h
  cases more
  · exact nomatch h
  obtain ⟨_, -, h⟩ := exists_of_bind_ok h
  obtain ⟨⟨more, _⟩, -, h⟩ := exists_of_bind_ok h
  cases more
  · exact nomatch h
  obtain ⟨⟨tokens, _⟩, htokens, h⟩ := exists_of_bind_ok h
  obtain ⟨_, -, h⟩ := exists_of_bind_ok h
  obtain ⟨rfl, -⟩ := Prod.mk.inj (Except.ok.inj h)
  exact readTokens_keyed htokens

/-- The tokens of a document that is read have distinct keys, at every
    depth, and `rest` is none of them. -/
theorem keyed_of_read {medium : Json.Medium} {text : String} {d : Document}
    (h : read medium text = .ok d) : d.tokens.Keyed := by
  unfold read at h
  split at h
  · next d' hd =>
      obtain rfl := Except.ok.inj h
      rw [readDocument] at hd
      split at hd
      · obtain ⟨⟨d, _⟩, hread, hd⟩ := exists_of_bind_ok hd
        obtain ⟨_, -, hd⟩ := exists_of_bind_ok hd
        exact Except.ok.inj hd ▸ readMembers_keyed hread nofun
      · obtain ⟨⟨d, _⟩, hread, hd⟩ := exists_of_bind_ok hd
        obtain ⟨_, -, hd⟩ := exists_of_bind_ok hd
        exact Except.ok.inj hd ▸ readElements_keyed hread
      · exact nomatch hd
  · exact nomatch h

end Highlighter.Document
