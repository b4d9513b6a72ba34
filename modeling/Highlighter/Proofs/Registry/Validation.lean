import Highlighter.Proofs.Registry.Lasting
import Highlighter.Proofs.Registry.Runs

/-! # Regexes are read once and for all

    Every pattern of a document is read when the document is loaded, so
    that a broken regex is reported there and not when a text is tokenized.
    In a registry that was made of documents, with what can be derived of
    them, no regex is broken then: not at the top of a text and not inside
    of a token (`Registry.run_tokenize_ok`).

    That all regexes can be read is kept by each operation that brings in
    no rules, or only such as are in the registry already
    (`Operation.Draws.brings`).  And tokenizing searches with no regexes
    but those of the grammars: apart from them, only what stops the program
    is in its way (`Tokenizer.tokenizeWithin_stops`). -/

namespace Highlighter

/-- All regexes in the rules of the grammars can be read. -/
def Readable (gs : List Grammar) : Prop :=
  ∀ g ∈ gs, ∀ r ∈ g.rules, ∀ x ∈ r.2.regexes, x.Readable

-- ── Tokenizing ───────────────────────────────────────────────────────────

namespace Tokenizer

/-- A fault that is no answer: the program stops at it. -/
def Fault.Stops : Fault → Prop
  | .gaveUp _ | .noSuchGrammar _ | .splitCharacter | .endless => True
  | .brokenRegex _ _ | .overfull => False

section Stops

variable {E : Fault → Prop} (hE : ∀ e : Fault, e.Stops → E e) {c : Context} {p : Pattern}
include hE

theorem slice_stops (text : List Char) (start stop : Nat) :
    Ends (fun _ => True) E (slice text start stop) := by
  rw [slice]
  split
  · trivial
  · exact hE .splitCharacter trivial

omit hE in
/-- A token is made unless its text is not tokenized. -/
theorem token_stops (name : String) (matched : List Char)
    (hinner : ∀ a text, Ends (fun _ => True) E (c.nested a text)) :
    Ends (fun _ => True) E (token c name p matched) := by
  rw [token]
  cases p.inside with
  | none => trivial
  | some a => exact (hinner a _).bind fun inner _ _ => trivial

theorem cut_stops (name : String) (text : List Char) (start : Nat) (span : Regex.Span)
    (stop : Nat) (hinner : ∀ a text, Ends (fun _ => True) E (c.nested a text)) :
    Ends (fun _ => True) E (cut c name p text start span stop) := by
  rw [cut]
  refine (slice_stops hE text span.start span.stop).bind fun matched _ _ => ?_
  refine (slice_stops hE text start span.start).bind fun before _ _ => ?_
  refine (token_stops name matched hinner).bind fun t _ _ => ?_
  exact (slice_stops hE text span.stop stop).bind fun after _ _ => trivial

/-- Whatever the grammars, tokenizing gives an answer if the program does
    not stop and no regex is broken that a grammar matches with. -/
theorem tokenizeWithin_stops {gs : List Grammar}
    (hbroken : ∀ id p, MatchesWith gs id p → ∀ e, p.regex.program = .error e →
      E (.brokenRegex p.regex e)) (depth : Nat) :
    ∀ (id : GrammarId) (text : String),
      Ends (fun _ => True) E (tokenizeWithin gs depth id text) := by
  induction depth with
  | zero =>
      intro id text
      exact hE .endless trivial
  | succ depth ih =>
      intro id text
      have hends : Ends (TokensAt (fun _ _ => True) 0) E
          (tokenizeWithin gs (depth + 1) id text) := by
        refine tokenizeBy_ends (tokenizeWithin_sound gs depth) (fun e _ => hE _ trivial) ?_
        intro es hes e he p hp
        constructor
        case broken => exact hbroken id p ⟨es, hes, e, he, hp⟩
        case gaveUp => exact fun _ _ _ => hE (.gaveUp p.regex) trivial
        case cut =>
          intro front hay start stop span _
          exact cut_stops hE e.name hay start span stop ih
      exact hends.mono fun _ _ => trivial

end Stops

/-- What a grammar matches with stands in a rule of a grammar. -/
theorem MatchesWith.readable {gs : List Grammar} (h : Readable gs) {id : GrammarId} {p : Pattern}
    (hp : MatchesWith gs id p) : p.regex.Readable := by
  obtain ⟨es, hes, e, he, hmem⟩ := hp
  obtain ⟨rules, hrules, hmap⟩ := exists_of_bind_ok hes
  obtain ⟨g, hg, hmerged⟩ := exists_of_bind_ok hrules
  have hown : ∀ g' id', grammarAt gs id' = .ok g' →
      ∀ r ∈ g'.rules, ∀ x ∈ r.2.regexes, x.Readable := by
    intro g' id' hg'
    rw [grammarAt] at hg'
    split at hg'
    · next hget =>
        rw [← Except.ok.inj hg']
        exact h _ (List.mem_of_getElem? hget)
    · cases hg'
  -- rules that are merged in are those of another grammar
  have hall : ∀ r ∈ rules, ∀ x ∈ r.2.regexes, x.Readable := by
    split at hmerged
    · next rest _ =>
        obtain ⟨other, hother, hmerged⟩ := exists_of_bind_ok hmerged
        rw [← Except.ok.inj hmerged]
        intro r hr
        rcases List.mem_append.mp (List.mem_filter.mp hr).1 with hr | hr
        · obtain ⟨old, hold, rfl⟩ := List.mem_map.mp hr
          cases hget : OrderedMap.get? old.1 other.rules with
          | none => exact hown g id hg old hold
          | some rule => exact hown other rest hother _ (OrderedMap.mem_of_get? hget)
        · exact hown other rest hother r (List.mem_filter.mp hr).1
    · rw [← Except.ok.inj hmerged]
      exact hown g id hg
  rw [← Except.ok.inj hmap] at he
  obtain ⟨⟨name, rule⟩, hrule, hof⟩ := List.mem_filterMap.mp he
  cases rule with
  | grammar _ => cases hof
  | patterns ps =>
      rw [← Option.some.inj hof] at hmem
      exact hall _ hrule _ (List.mem_map_of_mem hmem)

end Tokenizer

-- ── What keeps regexes readable ──────────────────────────────────────────

theorem readable_lasting :
    Grammar.Lasting fun g => ∀ r ∈ g.rules, ∀ x ∈ r.2.regexes, x.Readable where
  empty _ hr := absurd hr List.not_mem_nil
  set name hg hrule r hr := by
    rcases OrderedMap.mem_set hr with rfl | hr
    · exact hrule
    · exact hg r hr
  mapReferences f hg r hr := by
    obtain ⟨old, hold, rfl⟩ := List.mem_map.mp hr
    rw [Rule.regexes_mapReferences]
    exact hg old hold

namespace Operation

/-- The operation brings in no rules of its own: those that it is given are
    in grammars of the registry, maybe under other names. -/
def Draws (r : Registry) : Operation → Prop
  | .extend _ rules | .insertBefore _ _ rules =>
      ∀ e ∈ rules, ∃ g ∈ r.catalog.grammars, ∃ name, (name, e.2) ∈ g.rules
  | .add _ | .addLanguage _ _ | .edit _ _ => False
  | .setLanguage _ _ | .addAlias _ _ | .addPlain _ | .load _ | .copy _ | .configure _ _ => True

/-- Rules of a registry in which all regexes can be read bring in no
    others. -/
theorem Draws.brings {r : Registry} {op : Operation} (h : Readable r.catalog.grammars)
    (hop : op.Draws r) :
    op.Brings fun g => ∀ r ∈ g.rules, ∀ x ∈ r.2.regexes, x.Readable := by
  have hdrawn : ∀ rules : List (String × Rule),
      (∀ e ∈ rules, ∃ g ∈ r.catalog.grammars, ∃ name, (name, e.2) ∈ g.rules) →
      ∀ e ∈ rules, ∀ x ∈ e.2.regexes, x.Readable := by
    intro rules hrules e he
    obtain ⟨g, hg, name, hmem⟩ := hrules e he
    exact h g hg (name, e.2) hmem
  cases op with
  | add g => exact absurd hop not_false
  | addLanguage name g => exact absurd hop not_false
  | edit id f => exact absurd hop not_false
  | extend language rules =>
      intro g hg e he
      rcases OrderedMap.mem_setAll he with he | he
      · exact hg e he
      · exact hdrawn rules hop e he
  | insertBefore id anchor rules =>
      intro g hg e he
      rcases mem_rules_inserted he with he | he
      · exact hg e he
      · exact hdrawn rules hop e he
  | setLanguage name id => trivial
  | addAlias name other => trivial
  | addPlain aliases => trivial
  | load d => trivial
  | copy id => trivial
  | configure hooks renderer => trivial

end Operation

namespace Registry

/-- An operation that brings in no rules but those of documents. -/
def Drawn (_ : Past) (r : Registry) (op : Operation) : Prop := op.Draws r

theorem Run.readable {past : Past} {r : Registry} (h : Run Drawn past r) :
    Readable r.catalog.grammars := by
  induction h with
  | empty => exact fun _ hg => absurd hg List.not_mem_nil
  | step op _ hpermit hrun ih =>
      exact Operation.run_lasting readable_lasting ih (hpermit.brings ih) hrun

/-- In a registry that was made of documents, which may have failed, and of
    what is derived of them, tokenizing a text gives fragments unless the
    program stops, with any grammar and at any depth: no regex is broken. -/
theorem run_tokenize_ok {past : Past} {r : Registry} (h : Run Drawn past r) :
    (∀ id text, (∃ fs, r.tokenize id text = .ok fs) ∨
      ∃ e, r.tokenize id text = .error e ∧ e.Stops) ∧
      ∀ depth id text e, Tokenizer.tokenizeWithin r.catalog.grammars depth id text = .error e →
        e.Stops := by
  have hbroken : ∀ id p, Tokenizer.MatchesWith r.catalog.grammars id p → ∀ e,
      p.regex.program = .error e → (Tokenizer.Fault.brokenRegex p.regex e).Stops := by
    intro id p hp e he
    obtain ⟨program, hprogram⟩ := hp.readable h.readable
    exact nomatch hprogram.symm.trans he
  have hstops : ∀ depth id text e,
      Tokenizer.tokenizeWithin r.catalog.grammars depth id text = .error e → e.Stops := by
    intro depth id text e he
    exact (Tokenizer.tokenizeWithin_stops (fun _ h => h) hbroken depth id text).of_error he
  refine ⟨fun id text => ?_, hstops⟩
  cases hresult : r.tokenize id text with
  | ok fs => exact .inl ⟨fs, rfl⟩
  | error e => exact .inr ⟨e, rfl, hstops _ id text e hresult⟩

/-- A language has another one inside.  A document fails, and then the
    language is extended by the rule of the other one. -/
theorem run_tokenize_ok_nested :
    let loaded := ((({} : Registry).load (.words "n" [])).2.load (.wordsOf "n" "l" [])).2
    let rule : Rule := .patterns (.single { regex := { source := "[a-z]+" } })
    ∃ past r, Run Drawn past r ∧ past.length = 4 ∧
      loaded.extend "l" [("again", rule)] = .ok (2, r) ∧
      r.tokenize 2 "a" = .ok [.node ⟨"word", [], 1, false⟩ [.leaf ⟨"word", [], 1, false⟩ "a"]] ∧
      ∀ id text, (∃ fs, r.tokenize id text = .ok fs) ∨
        ∃ e, r.tokenize id text = .error e ∧ e.Stops := by
  intro loaded rule
  have hfirst : Run Drawn _ (({} : Registry).load (.words "n" [])).2 :=
    .step (.load (.words "n" [])) .empty trivial rfl
  have hloaded : Run Drawn _ loaded := hfirst.step (.load (.wordsOf "n" "l" [])) trivial rfl
  have hfailed : Run Drawn _ loaded :=
    hloaded.step (.load (brokenDocument "c" "n" "ghost")) trivial rfl
  have hvisits : Walk.run loaded.catalog.grammars [] ([("word", rule)].flatMap Walk.stops)
      = .ok [⟨"word", .patterns (.single { regex := { source := "[a-z]+" } }), "word"⟩] := by
    simp [Walk.run, Walk.stops, rule, Patterns.toList, Rule.references, bind, Except.bind]
  have hreach : reachable loaded.catalog.grammars [1] = .ok [1, 0] := reachable_inside rfl hvisits
  have hextend := extend_eq (r := loaded) "l" rfl hreach [("again", rule)]
  have hdrawn : (Operation.extend "l" [("again", rule)]).Draws loaded := by
    intro e he
    obtain rfl := List.mem_singleton.mp he
    exact ⟨⟨[("word", rule)]⟩, List.mem_cons_self, "word", List.mem_cons_self⟩
  have hextended := hfailed.step (.extend "l" [("again", rule)]) hdrawn
    (by rw [Operation.run, hextend])
  exact ⟨_, _, hextended, rfl, hextend, rfl, (run_tokenize_ok hextended).1⟩

end Registry

end Highlighter
