import Highlighter.Proofs.Document.Keyed
import Highlighter.Proofs.Json.Writing

/-! # Writing grammar documents and reading them back

    Documents are only ever read; here is how they are written, as values
    and then as any text of these.  A field of a pattern that has the value
    it has by default may be written or left out, which is a matter of
    `Style`.

    Reading undoes writing in two steps.  What a value says is found by
    trying one form after the other, and the form that is written is the
    first to succeed (`reference?_encode`).  And the reader of texts makes
    of a text what is made of the value that it is a text of
    (`readTokens_spells`). -/

namespace Highlighter

namespace Document

open Json (Blank Spells SpellsMembers Reader Medium Numberless NumberlessElements
  NumberlessMembers)

-- ── Writing ──────────────────────────────────────────────────────────────

/-- What is left out when it has the value it has by default: fields of
    descriptors, and the further names of the document. -/
structure Style where
  omits : Descriptor Reference → String → Bool
  omitsAliases : Bool

/-- A field that is written or left out. -/
def field (omitted : Bool) (name : String) (v : Json) : List (String × Json) :=
  if omitted then [] else [(name, v)]

/-- Labels as a value. -/
def Aliases.encode : Aliases → Json
  | .one name => .string name
  | .many names => .array (names.map .string)

variable (s : Style)

mutual

/-- A reference as a value: a name, or the tokens written in place. -/
def Reference.encode : Reference → Json
  | .language name => .string name
  | .inline entries rest => .object (encodeEntries entries ++ encodeRest rest)

/-- The entries of a token map, in their order. -/
def encodeEntries : List (String × PatternsForm Reference) → List (String × Json)
  | [] => []
  | (name, ps) :: entries => (name, encodePatterns ps) :: encodeEntries entries

/-- The grammar to be merged in comes last, under its reserved name. -/
def encodeRest : Option Reference → List (String × Json)
  | none => []
  | some r => [(restName, r.encode)]

/-- A single pattern stands for itself, alternatives are a list. -/
def encodePatterns : PatternsForm Reference → Json
  | .single p => encodePattern p
  | .alternatives ps => .array (encodeAlternatives ps)

/-- Alternatives, in their order. -/
def encodeAlternatives : List (PatternForm Reference) → List Json
  | [] => []
  | p :: ps => encodePattern p :: encodeAlternatives ps

/-- A source is a string, a descriptor an object. -/
def encodePattern : PatternForm Reference → Json
  | .source source => .string source
  | .descriptor ⟨source, flags, lookbehind, greedy, aliases, grammar⟩ =>
      let omits := s.omits ⟨source, flags, lookbehind, greedy, aliases, grammar⟩
      .object (("pattern", .string source) ::
        (field (flags = "" && omits "flags") "flags" (.string flags) ++
        (field (!lookbehind && omits "lookbehind") "lookbehind" (.bool lookbehind) ++
        (field (!greedy && omits "greedy") "greedy" (.bool greedy) ++
        (field (aliases = .many [] && omits "alias") "alias" aliases.encode ++
        field (grammar.isNone && omits "inside") "inside" (encodeInside grammar))))))

/-- No grammar inside is null. -/
def encodeInside : Option Reference → Json
  | none => .null
  | some r => r.encode

end

/-- The members of a document. -/
def encodeMembers (d : Document) : List (String × Json) :=
  ("name", .string d.name) ::
    (field (d.aliases.isEmpty && s.omitsAliases) "aliases" (.array (d.aliases.map .string)) ++
    [("tokens", (Reference.ofTokens d.tokens).encode s)])

/-- A document as a value. -/
def encode (d : Document) : Json := .object (d.encodeMembers s)

-- ── Numbers ──────────────────────────────────────────────────────────────

theorem numberless_field {omitted : Bool} {name : String} {v : Json} (hv : v.Numberless) :
    NumberlessMembers (field omitted name v) := by
  cases omitted with
  | true =>
      change NumberlessMembers []
      rw [NumberlessMembers]
      trivial
  | false =>
      change NumberlessMembers [(name, v)]
      rw [NumberlessMembers, NumberlessMembers]
      exact ⟨hv, trivial⟩

theorem numberlessMembers_append {ms ms' : List (String × Json)} (h : NumberlessMembers ms)
    (h' : NumberlessMembers ms') : NumberlessMembers (ms ++ ms') := by
  induction ms with
  | nil => exact h'
  | cons m ms ih =>
      rw [NumberlessMembers] at h
      rw [List.cons_append, NumberlessMembers]
      exact ⟨h.1, ih h.2⟩

theorem numberlessElements_strings (ss : List String) :
    NumberlessElements (ss.map Json.string) := by
  induction ss with
  | nil =>
      rw [List.map_nil, NumberlessElements]
      trivial
  | cons t ss ih =>
      rw [List.map_cons, NumberlessElements, Numberless]
      · exact ⟨trivial, ih⟩
      all_goals nofun

theorem Aliases.numberless_encode (a : Aliases) : a.encode.Numberless := by
  cases a with
  | one name =>
      rw [Aliases.encode, Numberless]
      · trivial
      all_goals nofun
  | many names =>
      rw [Aliases.encode, Numberless]
      exact numberlessElements_strings names

mutual

theorem Reference.numberless_encode : ∀ r : Reference, (r.encode s).Numberless
  | .language name => by
      rw [Reference.encode]
      simp only [Numberless]
  | .inline entries rest => by
      rw [Reference.encode, Numberless]
      exact numberlessMembers_append (numberless_encodeEntries entries)
        (numberless_encodeRest rest)

theorem numberless_encodeEntries : ∀ entries : List (String × PatternsForm Reference),
    NumberlessMembers (encodeEntries s entries)
  | [] => by
      rw [encodeEntries, NumberlessMembers]
      trivial
  | (name, ps) :: entries => by
      rw [encodeEntries, NumberlessMembers]
      exact ⟨numberless_encodePatterns ps, numberless_encodeEntries entries⟩

theorem numberless_encodeRest : ∀ rest : Option Reference, NumberlessMembers (encodeRest s rest)
  | none => by
      rw [encodeRest, NumberlessMembers]
      trivial
  | some r => by
      rw [encodeRest, NumberlessMembers, NumberlessMembers]
      exact ⟨Reference.numberless_encode r, trivial⟩

theorem numberless_encodePatterns : ∀ ps : PatternsForm Reference,
    (encodePatterns s ps).Numberless
  | .single p => by
      rw [encodePatterns]
      exact numberless_encodePattern p
  | .alternatives ps => by
      rw [encodePatterns, Numberless]
      exact numberless_encodeAlternatives ps

theorem numberless_encodeAlternatives : ∀ ps : List (PatternForm Reference),
    NumberlessElements (encodeAlternatives s ps)
  | [] => by
      rw [encodeAlternatives, NumberlessElements]
      trivial
  | p :: ps => by
      rw [encodeAlternatives, NumberlessElements]
      exact ⟨numberless_encodePattern p, numberless_encodeAlternatives ps⟩

theorem numberless_encodePattern : ∀ p : PatternForm Reference, (encodePattern s p).Numberless
  | .source source => by
      rw [encodePattern]
      simp only [Numberless]
  | .descriptor ⟨source, flags, lookbehind, greedy, aliases, grammar⟩ => by
      rw [encodePattern, Numberless, NumberlessMembers]
      refine ⟨by simp only [Numberless], ?_⟩
      refine numberlessMembers_append (numberless_field (by simp only [Numberless])) ?_
      refine numberlessMembers_append (numberless_field (by simp only [Numberless])) ?_
      refine numberlessMembers_append (numberless_field (by simp only [Numberless])) ?_
      refine numberlessMembers_append (numberless_field aliases.numberless_encode) ?_
      exact numberless_field (numberless_encodeInside grammar)

theorem numberless_encodeInside : ∀ r : Option Reference, (encodeInside s r).Numberless
  | none => by
      rw [encodeInside]
      simp only [Numberless]
  | some r => by
      rw [encodeInside]
      exact Reference.numberless_encode r

end

theorem numberless_encode (d : Document) : (d.encode s).Numberless := by
  rw [encode, encodeMembers, Numberless, NumberlessMembers]
  refine ⟨by simp only [Numberless], numberlessMembers_append (numberless_field ?_) ?_⟩
  · rw [Numberless]
    exact numberlessElements_strings d.aliases
  · rw [NumberlessMembers, NumberlessMembers]
    exact ⟨Reference.numberless_encode s _, trivial⟩

-- ── Values ───────────────────────────────────────────────────────────────

/-- What is found of a field that may have been left out. -/
def found {α : Type} (omitted : Bool) (a : α) : Option α := if omitted then none else some a

/-- A field is only left out with its default. -/
theorem getD_found {α : Type} {omitted : Bool} {a default : α} (h : omitted = true → a = default) :
    (found omitted a).getD default = a := by
  cases omitted with
  | true => exact (h rfl).symm
  | false => rfl

theorem texts?_strings (ss : List String) : texts? (ss.map Json.string) = some ss := by
  induction ss with
  | nil => rfl
  | cons t ss ih =>
      rw [List.map_cons, texts?, ih]
      rfl

theorem aliases?_encode (a : Aliases) : aliases? a.encode = some a := by
  cases a with
  | one name => rfl
  | many names => rw [Aliases.encode, aliases?, texts?_strings, Option.map_some]

section Fields

variable {f : Fields} {ms : List (String × Json)} {omitted : Bool}

theorem fields?_flags (h : f.flags = none) (flags : String) :
    fields? (field omitted "flags" (.string flags) ++ ms) f =
      fields? ms { f with flags := found omitted flags } := by
  obtain ⟨_, _, _, _, _, _⟩ := f
  cases h
  cases omitted <;> rfl

theorem fields?_lookbehind (h : f.lookbehind = none) (lookbehind : Bool) :
    fields? (field omitted "lookbehind" (.bool lookbehind) ++ ms) f =
      fields? ms { f with lookbehind := found omitted lookbehind } := by
  obtain ⟨_, _, _, _, _, _⟩ := f
  cases h
  cases omitted <;> rfl

theorem fields?_greedy (h : f.greedy = none) (greedy : Bool) :
    fields? (field omitted "greedy" (.bool greedy) ++ ms) f =
      fields? ms { f with greedy := found omitted greedy } := by
  obtain ⟨_, _, _, _, _, _⟩ := f
  cases h
  cases omitted <;> rfl

theorem fields?_alias (h : f.aliases = none) (aliases : Aliases) :
    fields? (field omitted "alias" aliases.encode ++ ms) f =
      fields? ms { f with aliases := found omitted aliases } := by
  obtain ⟨_, _, _, _, _, _⟩ := f
  cases h
  cases omitted with
  | true => rfl
  | false =>
      change fields? (("alias", aliases.encode) :: ms) _ = _
      rw [fields?, aliases?_encode]
      rfl

theorem fields?_inside (h : f.inside = none) {v : Json} {inside : Option Reference}
    (hv : inside? v = some inside) :
    fields? (field omitted "inside" v) f =
      Fields.descriptor? { f with inside := found omitted inside } := by
  obtain ⟨_, _, _, _, _, _⟩ := f
  cases h
  cases omitted with
  | true =>
      change fields? [] _ = _
      rw [fields?]
      rfl
  | false =>
      change fields? [("inside", v)] _ = _
      rw [fields?, hv]
      change fields? [] _ = _
      rw [fields?]
      rfl

/-- The fields of a descriptor are those of the object, each written or, if
    it is the default, left out. -/
theorem fields?_descriptor (omits : String → Bool) (source flags : String)
    (lookbehind greedy : Bool) (aliases : Aliases) {v : Json} {inside : Option Reference}
    (hv : inside? v = some inside) :
    fields? (("pattern", .string source) ::
        (field (flags = "" && omits "flags") "flags" (.string flags) ++
        (field (!lookbehind && omits "lookbehind") "lookbehind" (.bool lookbehind) ++
        (field (!greedy && omits "greedy") "greedy" (.bool greedy) ++
        (field (aliases = .many [] && omits "alias") "alias" aliases.encode ++
        field (inside.isNone && omits "inside") "inside" v))))) {} =
      some ⟨source, flags, lookbehind, greedy, aliases, inside⟩ := by
  change fields? _ { pattern := some source } = _
  rw [fields?_flags rfl, fields?_lookbehind rfl, fields?_greedy rfl, fields?_alias rfl,
    fields?_inside rfl hv]
  refine congrArg some ?_
  dsimp only
  rw [getD_found, getD_found, getD_found, getD_found, getD_found]
  · exact fun h => Option.isNone_iff_eq_none.mp (Bool.and_eq_true_iff.mp h).1
  · exact fun h => of_decide_eq_true (Bool.and_eq_true_iff.mp h).1
  · exact fun h => (Bool.not_eq_true' greedy).mp (Bool.and_eq_true_iff.mp h).1
  · exact fun h => (Bool.not_eq_true' lookbehind).mp (Bool.and_eq_true_iff.mp h).1
  · exact fun h => of_decide_eq_true (Bool.and_eq_true_iff.mp h).1

end Fields

mutual

/-- A reference is read from its value. -/
theorem reference?_encode : ∀ {r : Reference}, r.Keyed → reference? (r.encode s) = some r
  | .language name, _ => by rw [Reference.encode, reference?]
  | .inline entries rest, h => by
      rw [Reference.Keyed] at h
      obtain ⟨⟨hnodup, hmem⟩, hentries, hrest⟩ := h
      have hfresh : ∀ n ∈ OrderedMap.names entries,
          n ∉ OrderedMap.names ({} : Tokens).entries := fun _ _ => List.not_mem_nil
      rw [Reference.encode, reference?, tokens?_encodeEntries hentries hnodup hmem hfresh,
        tokens?_encodeRest hrest rfl]
      rfl

/-- Entries under new keys are added behind those there are. -/
theorem tokens?_encodeEntries : ∀ {entries : List (String × PatternsForm Reference)}
    {t : Tokens} {ms : List (String × Json)}, RulesKeyed entries →
      (OrderedMap.names entries).Nodup → restName ∉ OrderedMap.names entries →
      (∀ n ∈ OrderedMap.names entries, n ∉ OrderedMap.names t.entries) →
      tokens? (encodeEntries s entries ++ ms) t =
        tokens? ms { t with entries := t.entries ++ entries }
  | [], t, ms, _, _, _, _ => by
      rw [encodeEntries, List.nil_append, List.append_nil]
  | (name, ps) :: entries, t, ms, h, hnodup, hmem, hnew => by
      rw [RulesKeyed] at h
      rw [OrderedMap.names, List.map_cons, List.nodup_cons] at hnodup
      rw [OrderedMap.names, List.map_cons, List.mem_cons, not_or] at hmem
      obtain ⟨hname, hnew⟩ := List.forall_mem_cons.mp hnew
      have hset : OrderedMap.set name ps t.entries = t.entries ++ [(name, ps)] :=
        OrderedMap.set_of_not_mem hname ps
      have hlater : ∀ n ∈ OrderedMap.names entries,
          n ∉ OrderedMap.names (OrderedMap.set name ps t.entries) := fun n hn hn' =>
        (OrderedMap.mem_names_set.mp hn').elim (fun heq => hnodup.1 (heq ▸ hn)) (hnew n hn)
      rw [encodeEntries, List.cons_append, tokens?, if_neg (Ne.symm hmem.1),
        patterns?_encode h.1]
      change tokens? (encodeEntries s entries ++ ms)
        { t with entries := OrderedMap.set name ps t.entries } = _
      rw [tokens?_encodeEntries h.2 hnodup.2 hmem.2 hlater, hset, List.append_assoc,
        List.singleton_append]

theorem tokens?_encodeRest : ∀ {rest : Option Reference} {t : Tokens}, InsideKeyed rest →
    t.rest = none → tokens? (encodeRest s rest) t = some { t with rest }
  | none, t, _, ht => by
      rw [encodeRest, tokens?, ← ht]
  | some r, t, h, _ => by
      rw [InsideKeyed] at h
      rw [encodeRest, tokens?, if_pos rfl, reference?_encode h]
      change tokens? [] _ = _
      rw [tokens?]

theorem patterns?_encode : ∀ {ps : PatternsForm Reference}, PatternsKeyed ps →
    patterns? (encodePatterns s ps) = some ps
  | .single p, h => by
      rw [PatternsKeyed] at h
      rw [encodePatterns]
      exact (pattern?_encode h).2
  | .alternatives ps, h => by
      rw [PatternsKeyed] at h
      rw [encodePatterns, patterns?, alternatives?_encode h]

theorem alternatives?_encode : ∀ {ps : List (PatternForm Reference)}, AlternativesKeyed ps →
    alternatives? (encodeAlternatives s ps) = some ps
  | [], _ => by rw [encodeAlternatives, alternatives?]
  | p :: ps, h => by
      rw [AlternativesKeyed] at h
      rw [encodeAlternatives, alternatives?, (pattern?_encode h.1).1, alternatives?_encode h.2]

/-- A pattern is read alone as well as among alternatives. -/
theorem pattern?_encode : ∀ {p : PatternForm Reference}, PatternKeyed p →
    pattern? (encodePattern s p) = some p ∧ patterns? (encodePattern s p) = some (.single p)
  | .source source, _ => by
      rw [encodePattern, pattern?, patterns?]
      exact ⟨rfl, rfl⟩
  | .descriptor ⟨source, flags, lookbehind, greedy, aliases, grammar⟩, h => by
      rw [PatternKeyed] at h
      have hinside : inside? (encodeInside s grammar) = some grammar := inside?_encode h
      have hfields := fields?_descriptor
        (s.omits ⟨source, flags, lookbehind, greedy, aliases, grammar⟩)
        source flags lookbehind greedy aliases (inside?_encode h)
      rw [encodePattern, pattern?, patterns?, hfields]
      exact ⟨rfl, rfl⟩

theorem inside?_encode : ∀ {r : Option Reference}, InsideKeyed r →
    inside? (encodeInside s r) = some r
  | none, _ => by rw [encodeInside, inside?]
  | some (.language name), _ => by rw [encodeInside, Reference.encode, inside?]
  | some (.inline entries rest), h => by
      rw [InsideKeyed, Reference.Keyed] at h
      obtain ⟨⟨hnodup, hmem⟩, hentries, hrest⟩ := h
      have hfresh : ∀ n ∈ OrderedMap.names entries,
          n ∉ OrderedMap.names ({} : Tokens).entries := fun _ _ => List.not_mem_nil
      rw [encodeInside, Reference.encode, inside?, tokens?_encodeEntries hentries hnodup hmem hfresh,
        tokens?_encodeRest hrest rfl]
      rfl

end

-- ── Texts ────────────────────────────────────────────────────────────────

/-- From a text of the members of a token map is read what they say. -/
theorem readTokenMembers_spells {depth : Nat} {ms : List (String × Json)} :
    ∀ {first : Bool} {text : List Char} {fuel : Nat} {t t' : Tokens},
      SpellsMembers first ms text → Json.membersDepth ms ≤ depth → tokens? ms t = some t' →
      text.length < fuel → ∀ rest,
      readTokenMembers depth fuel first t (text ++ '}' :: rest) = .ok (t', rest) := by
  induction ms with
  | nil =>
      intro first text fuel t t' h _ ht hfuel rest
      rw [SpellsMembers] at h
      rw [tokens?] at ht
      obtain rfl := Option.some.inj ht
      obtain ⟨fuel, rfl⟩ := Nat.exists_eq_add_of_lt hfuel
      rw [readTokenMembers, Json.nextName_end h]
      rfl
  | cons m ms ih =>
      intro first text fuel t t' h hdepth ht hfuel rest
      obtain ⟨name, v⟩ := m
      rw [SpellsMembers] at h
      obtain ⟨b, b₁, b₂, b₃, text, ts, ⟨hb, hb₁, hb₂, hb₃⟩, htext, hts, rfl⟩ := h
      rw [Json.membersDepth, Nat.max_le] at hdepth
      cases fuel with
      | zero => exact absurd hfuel (Nat.not_lt_zero _)
      | succ fuel =>
          have hlength : ts.length < fuel := by
            simp only [List.length_append, List.length_cons] at hfuel
            omega
          have hread := Json.readValue_spells htext hdepth.1 b₃ (ts ++ '}' :: rest) hb₃
          simp only [List.append_assoc, List.cons_append]
          rw [readTokenMembers, Json.nextName_next hb hb₁]
          simp only [bind, Except.bind, Json.colon_next hb₂, hread]
          rw [tokens?] at ht
          by_cases hname : name = restName
          · rw [if_pos hname] at ht ⊢
            cases hr : reference? v with
            | none =>
                rw [hr] at ht
                cases ht
            | some r =>
                rw [hr] at ht
                exact ih hts hdepth.2 ht hlength rest
          · rw [if_neg hname] at ht ⊢
            cases hps : patterns? v with
            | none =>
                rw [hps] at ht
                cases ht
            | some ps =>
                rw [hps] at ht
                exact ih hts hdepth.2 ht hlength rest

/-- From a text of a token map are read the tokens it says. -/
theorem readTokens_spells {ms : List (String × Json)} {text b : List Char} (hb : Blank b)
    (h : Spells (.object ms) text) (hdepth : (Json.object ms).depth ≤ depth - 1) {t : Tokens}
    (ht : tokens? ms {} = some t) (rest : List Char) :
    readTokens (b ++ (text ++ rest)) = .ok (t, rest) := by
  rw [Spells] at h
  obtain ⟨inner, hinner, rfl⟩ := h
  rw [Json.depth] at hdepth
  have hlength : inner.length < (inner ++ '}' :: rest).length + 1 := by
    rw [List.length_append]
    omega
  rw [List.cons_append, List.append_assoc, List.singleton_append, readTokens,
    Json.trim_blank_cons hb rfl]
  exact readTokenMembers_spells hinner (Nat.le_sub_one_of_lt hdepth) ht hlength rest

/-- A field that has no value yet is read behind its name. -/
theorem readField_spells {α : Type} {item : Reader α} {old : Option α} (hold : old = none)
    {b₂ b₃ text cs : List Char} (hb₂ : Blank b₂) {a : α}
    (hitem : item (b₃ ++ (text ++ cs)) = .ok (a, cs)) (name : String) :
    readField name old item (b₂ ++ (':' :: (b₃ ++ (text ++ cs)))) = .ok (some a, cs) := by
  rw [readField, hold]
  change (do
    let cs ← Json.colon (b₂ ++ ':' :: (b₃ ++ (text ++ cs)))
    let read ← item cs
    .ok (some read.1, read.2)) = _
  rw [Json.colon_next hb₂]
  simp only [bind, Except.bind, hitem]

section Members

variable {p : Parts} {first : Bool} {fuel : Nat} {b b₁ b₂ b₃ text cs : List Char}

theorem readMembers_name (hp : p.name = none) (hb : Blank b) (hb₁ : Blank b₁) (hb₂ : Blank b₂)
    {name : String} (h : Json.stringValue (b₃ ++ (text ++ cs)) = .ok (name, cs)) :
    readMembers (fuel + 1) first p (b ++ (Json.separator first ++ (b₁ ++
        (Json.writeString "name" ++ (b₂ ++ (':' :: (b₃ ++ (text ++ cs)))))))) =
      readMembers fuel false { p with name := some name } cs := by
  rw [readMembers, Json.nextName_next hb hb₁]
  simp only [bind, Except.bind, readField_spells hp hb₂ h]

theorem readMembers_aliases (hp : p.aliases = none) (hb : Blank b) (hb₁ : Blank b₁)
    (hb₂ : Blank b₂) {aliases : List String}
    (h : Json.stringValues (b₃ ++ (text ++ cs)) = .ok (aliases, cs)) :
    readMembers (fuel + 1) first p (b ++ (Json.separator first ++ (b₁ ++
        (Json.writeString "aliases" ++ (b₂ ++ (':' :: (b₃ ++ (text ++ cs)))))))) =
      readMembers fuel false { p with aliases := some aliases } cs := by
  rw [readMembers, Json.nextName_next hb hb₁]
  simp only [bind, Except.bind, readField_spells hp hb₂ h]

theorem readMembers_tokens (hp : p.tokens = none) (hb : Blank b) (hb₁ : Blank b₁)
    (hb₂ : Blank b₂) {t : Tokens} (h : readTokens (b₃ ++ (text ++ cs)) = .ok (t, cs)) :
    readMembers (fuel + 1) first p (b ++ (Json.separator first ++ (b₁ ++
        (Json.writeString "tokens" ++ (b₂ ++ (':' :: (b₃ ++ (text ++ cs)))))))) =
      readMembers fuel false { p with tokens := some t } cs := by
  rw [readMembers, Json.nextName_next hb hb₁]
  simp only [bind, Except.bind, readField_spells hp hb₂ h]

theorem readMembers_end (hb : Blank b) {d : Document} (hd : p.document = .ok d) :
    readMembers (fuel + 1) first p (b ++ '}' :: cs) = .ok (d, cs) := by
  rw [readMembers, Json.nextName_end hb]
  simp only [bind, Except.bind, hd]
  rfl

end Members

/-- From the tokens, which come last, and the fields read so far comes the
    document. -/
theorem readMembers_spells_tokens {d : Document} (hd : d.tokens.Keyed)
    (hdepth : ((Reference.ofTokens d.tokens).encode s).depth ≤ depth - 1) {p : Parts}
    (hp : p.tokens = none) (hparts : ({ p with tokens := some d.tokens } : Parts).document = .ok d)
    {fuel : Nat} {text : List Char}
    (h : SpellsMembers false [("tokens", (Reference.ofTokens d.tokens).encode s)] text)
    (rest : List Char) :
    readMembers (fuel + 2) false p (text ++ '}' :: rest) = .ok (d, rest) := by
  rw [SpellsMembers, Reference.ofTokens, Reference.encode] at h
  obtain ⟨b, b₁, b₂, b₃, t, ts, ⟨hb, hb₁, hb₂, hb₃⟩, ht, hts, rfl⟩ := h
  rw [SpellsMembers] at hts
  rw [Reference.ofTokens, Reference.encode] at hdepth
  have htokens : tokens? (encodeEntries s d.tokens.entries ++ encodeRest s d.tokens.rest) {} =
      some d.tokens := by
    rw [tokens?_encodeEntries s hd.rules hd.nodup hd.rest_not_mem fun _ _ => List.not_mem_nil,
      tokens?_encodeRest s hd.rest rfl]
    rfl
  have hread := readTokens_spells hb₃ ht hdepth htokens (ts ++ '}' :: rest)
  simp only [List.append_assoc, List.cons_append]
  exact (readMembers_tokens hp hb hb₁ hb₂ hread).trans (readMembers_end hts hparts)

/-- From a text of the members of a document the document is read. -/
theorem readMembers_spells {d : Document} (hd : d.tokens.Keyed)
    (hdepth : ((Reference.ofTokens d.tokens).encode s).depth ≤ depth - 1) {fuel : Nat}
    {text : List Char} (h : SpellsMembers true (d.encodeMembers s) text) (rest : List Char) :
    readMembers (fuel + 4) true {} (text ++ '}' :: rest) = .ok (d, rest) := by
  rw [encodeMembers, SpellsMembers] at h
  obtain ⟨b, b₁, b₂, b₃, t, ts, ⟨hb, hb₁, hb₂, hb₃⟩, ht, hts, rfl⟩ := h
  have hname := Json.stringValue_spells hb₃ ht (ts ++ '}' :: rest)
  simp only [List.append_assoc, List.cons_append]
  refine (readMembers_name rfl hb hb₁ hb₂ hname).trans ?_
  cases homitted : d.aliases.isEmpty && s.omitsAliases with
  | true =>
      rw [homitted] at hts
      refine readMembers_spells_tokens s hd hdepth rfl ?_ hts rest
      have haliases : d.aliases = [] := List.isEmpty_iff.mp (Bool.and_eq_true_iff.mp homitted).1
      obtain ⟨name, aliases, tokens⟩ := d
      cases haliases
      rfl
  | false =>
      rw [homitted] at hts
      change SpellsMembers false (("aliases", _) :: [("tokens", _)]) ts at hts
      rw [SpellsMembers] at hts
      obtain ⟨b, b₁, b₂, b₃, t, ts, ⟨hb, hb₁, hb₂, hb₃⟩, ht, hts, rfl⟩ := hts
      have haliases := Json.stringValues_spells hb₃ ht (ts ++ '}' :: rest)
      simp only [List.append_assoc, List.cons_append]
      refine (readMembers_aliases rfl hb hb₁ hb₂ haliases).trans ?_
      exact readMembers_spells_tokens s hd hdepth rfl rfl hts rest

/-- A text is one of a value, with blanks around it or not. -/
def IsText (v : Json) (text : List Char) : Prop :=
  ∃ b t b₁, Blank b ∧ Spells v t ∧ Blank b₁ ∧ text = b ++ (t ++ b₁)

theorem three_le_length {m : String × Json} {ms : List (String × Json)} {first : Bool}
    {text : List Char} (h : SpellsMembers first (m :: ms) text) : 3 ≤ text.length := by
  rw [SpellsMembers] at h
  obtain ⟨b, b₁, b₂, b₃, t, ts, -, -, -, rfl⟩ := h
  simp only [Json.writeString, List.length_append, List.length_cons, List.length_nil]
  omega

theorem readDocument_spells {d : Document} (hd : d.tokens.Keyed)
    (hdepth : (d.encode s).depth ≤ depth) {text : List Char} (h : IsText (d.encode s) text) :
    readDocument text = .ok d := by
  obtain ⟨b, t, b₁, hb, ht, hb₁, rfl⟩ := h
  rw [encode, Spells] at ht
  obtain ⟨inner, hinner, rfl⟩ := ht
  have htokens : ((Reference.ofTokens d.tokens).encode s).depth ≤ depth - 1 := by
    have hmem : ("tokens", (Reference.ofTokens d.tokens).encode s) ∈ d.encodeMembers s :=
      List.mem_cons_of_mem _ (List.mem_append_right _ List.mem_cons_self)
    rw [encode, Json.depth] at hdepth
    exact (Json.depth_le_membersDepth _ hmem).trans (Nat.le_sub_one_of_lt hdepth)
  obtain ⟨fuel, hfuel⟩ : ∃ fuel, (inner ++ '}' :: b₁).length + 1 = fuel + 4 := by
    refine Nat.exists_eq_add_of_le' ?_
    have hlength := three_le_length hinner
    rw [List.length_append]
    omega
  have hend : Json.finish b₁ = .ok () := by
    rw [Json.finish, ← List.append_nil b₁, Json.trim_blank hb₁]
    rfl
  rw [readDocument, List.cons_append, List.append_assoc, List.singleton_append,
    Json.trim_blank_cons hb rfl]
  simp only [bind, Except.bind, hfuel, readMembers_spells s hd htokens hinner b₁, hend]

/-- A document whose token maps have distinct keys is read from every text
    of its value, the compact one and the one over several lines among
    them, if this does not nest too deep; and it does not matter which of
    the fields that have their defaults are left out. -/
theorem read_encode {d : Document} (hd : d.tokens.Keyed) (hdepth : (d.encode s).depth ≤ depth)
    (medium : Medium) :
    (∀ text, IsText (d.encode s) text → read medium (String.ofList text) = .ok d) ∧
      read medium (String.ofList (d.encode s).compact) = .ok d ∧
      read medium (String.ofList (d.encode s).pretty) = .ok d := by
  have hread : ∀ text, IsText (d.encode s) text → read medium (String.ofList text) = .ok d := by
    intro text htext
    rw [read, String.toList_ofList, readDocument_spells s hd hdepth htext]
  have hnumberless := numberless_encode s d
  refine ⟨hread, hread _ ?_, hread _ ?_⟩
  · exact ⟨[], _, [], Json.blank_nil, Json.spells_compact hnumberless, Json.blank_nil,
      (List.append_nil _).symm⟩
  · exact ⟨[], _, [], Json.blank_nil, Json.spells_prettyAt 0 hnumberless, Json.blank_nil,
      (List.append_nil _).symm⟩

/-- A document with all forms: bare sources and descriptors, alternatives
    and none of them, one label and several, grammars inside and to be
    merged in by name and in place, and texts with characters that are
    written as escapes. -/
def everyForm : Document where
  name := "every \"form\"\n"
  aliases := ["e", ""]
  tokens :=
    { entries :=
        [("bare", source "a\\+\t"),
         ("none", .alternatives []),
         ("some", .alternatives
          [.source "b",
           .descriptor { pattern := "(^|c)d", flags := "i", lookbehind := true, aliases := .one "x" }]),
         ("", one
          { pattern := "é\x01", greedy := true, aliases := .many ["y", "z"]
            inside := some (.inline
              [("bare", one { pattern := "e", inside := some (.language "every") })]
              (some (.language "missing"))) })]
      rest := some (.inline [("more", source "f")] none) }

theorem keyed_everyForm : everyForm.tokens.Keyed where
  nodup := by decide
  rest_not_mem := by decide
  rules := by
    simp only [everyForm, source, one, RulesKeyed, PatternsKeyed, AlternativesKeyed, PatternKeyed,
      InsideKeyed, Reference.Keyed, and_true, true_and]
    decide
  rest := by
    simp only [everyForm, source, RulesKeyed, PatternsKeyed, PatternKeyed, InsideKeyed,
      Reference.Keyed, and_true]
    decide

/-- The document is read when it is written in full, and when everything is
    left out that may be. -/
theorem read_encode_everyForm :
    let full : Style := ⟨fun _ _ => false, false⟩
    let brief : Style := ⟨fun _ _ => true, true⟩
    (everyForm.tokens.Keyed ∧ (everyForm.encode full).depth ≤ depth ∧
      (everyForm.encode brief).depth ≤ depth) ∧
      read .memory (String.ofList (everyForm.encode full).pretty) = .ok everyForm ∧
      read .memory (String.ofList (everyForm.encode brief).compact) = .ok everyForm := by
  intro full brief
  have hfull : (everyForm.encode full).depth ≤ depth := by decide
  have hbrief : (everyForm.encode brief).depth ≤ depth := by decide
  exact ⟨⟨keyed_everyForm, hfull, hbrief⟩, (read_encode full keyed_everyForm hfull .memory).2.2,
    (read_encode brief keyed_everyForm hbrief .memory).2.1⟩

end Document

end Highlighter
