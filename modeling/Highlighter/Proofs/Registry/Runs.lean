import Highlighter.Proofs.Registry.Consistency

/-! # Runs

    A run is the record of what was done with a registry from the empty one
    on, under a rule for what may be done next (`Registry.Run`).  Here the
    rule is that operations are given only numbers that the registry has
    given out before.  Then each of these stays good, whatever else is done
    (`Registry.run_numbers_valid`).

    What carries this is one step (`Operation.run_advances`): given numbers
    of grammars, an operation keeps the catalog consistent and its arena as
    long as it was, and gives out the number of a grammar.  With such
    numbers every operation can be done (`Operation.run_succeeds`).

    A text that cannot be read as a document, and a language that is not
    there to be extended, leave the registry as it is; they make no step of
    a run. -/

namespace Highlighter

-- ── Operations ───────────────────────────────────────────────────────────

/-- A change of a rule brings in no references but those of the new rule. -/
theorem RuleChange.mem_references_apply {change : RuleChange} {g : Grammar} {a : GrammarId}
    (h : a ∈ (change.apply g).references) :
    a ∈ g.references ∨ ∃ name rule, change = .set name rule ∧ a ∈ rule.references := by
  cases change with
  | set name rule => exact (Grammar.mem_references_set h).imp_right fun h => ⟨name, rule, rfl, h⟩
  | remove name =>
      obtain ⟨r, hr, ha⟩ := List.mem_flatMap.mp h
      exact .inl (List.mem_flatMap.mpr ⟨r, List.mem_of_mem_eraseP hr, ha⟩)

namespace Operation

/-- The number that an operation gives out. -/
def result (r : Registry) : Operation → Option GrammarId
  | .add g => some (r.catalog.add g).1
  | .addLanguage name g => some (r.catalog.addLanguage name g).1
  | .addPlain aliases => some (r.catalog.addPlain aliases).1
  | .load d => (r.load d).1.toOption
  | .copy id => (r.catalog.copy id).toOption.map Prod.fst
  | .extend language rules => (r.extend language rules).toOption.map Prod.fst
  | .insertBefore id anchor rules => (r.catalog.insertBefore id anchor rules).toOption.map Prod.fst
  | .setLanguage _ _ | .addAlias _ _ | .edit _ _ | .configure _ _ => none

/-- All numbers that an operation is given, as they are or in rules, are
    known. -/
def Given (known : GrammarId → Prop) : Operation → Prop
  | .add g => ∀ a ∈ g.references, known a
  | .setLanguage _ id => known id
  | .addLanguage _ g => ∀ a ∈ g.references, known a
  | .copy id => known id
  | .extend _ rules => ∀ r ∈ rules, ∀ a ∈ r.2.references, known a
  | .insertBefore id _ rules => known id ∧ ∀ r ∈ rules, ∀ a ∈ r.2.references, known a
  | .edit id f => known id ∧ ∀ g, ∀ a ∈ (f g).references, a ∈ g.references ∨ known a
  | .addAlias _ _ | .addPlain _ | .load _ | .configure _ _ => True

theorem Given.mono {known known' : GrammarId → Prop} (hknown : ∀ a, known a → known' a)
    {op : Operation} (h : op.Given known) : op.Given known' := by
  cases op with
  | add g => exact fun a ha => hknown a (h a ha)
  | setLanguage name id => exact hknown id h
  | addLanguage name g => exact fun a ha => hknown a (h a ha)
  | copy id => exact hknown id h
  | extend language rules => exact fun r hr a ha => hknown a (h r hr a ha)
  | insertBefore id anchor rules => exact ⟨hknown id h.1, fun r hr a ha => hknown a (h.2 r hr a ha)⟩
  | edit id f => exact ⟨hknown id h.1, fun g a ha => (h.2 g a ha).imp_right (hknown a)⟩
  | addAlias name other => trivial
  | addPlain aliases => trivial
  | load d => trivial
  | configure hooks renderer => trivial

variable {r r' : Registry} {op : Operation}

/-- An operation with numbers of grammars keeps a catalog consistent, keeps
    all numbers good, and gives out the number of a grammar. -/
theorem run_advances (hr : r.catalog.Consistent)
    (hop : op.Given (· < r.catalog.grammars.length)) (hrun : op.run r = some r') :
    r.catalog.Advances r'.catalog (op.result r) := by
  cases op with
  | add g =>
      cases hrun
      refine ⟨hr.add hop, ?_, fun a ha => ?_⟩
      · show _ ≤ (r.catalog.add g).2.grammars.length
        rw [Catalog.length_add]
        exact Nat.le_succ _
      · rw [← Option.some.inj ha]
        show _ < (r.catalog.add g).2.grammars.length
        rw [Catalog.length_add]
        exact Nat.lt_succ_self _
  | setLanguage name id =>
      cases hrun
      exact hr.setLanguage_advances name hop
  | addLanguage name g =>
      cases hrun
      exact hr.addLanguage_advances name hop
  | addAlias name other =>
      cases hrun
      exact hr.addAlias_advances name other
  | addPlain aliases =>
      cases hrun
      exact hr.addPlain_advances aliases
  | load d =>
      cases hrun
      exact hr.load_advances d
  | copy id =>
      obtain ⟨new, c, hcopy, rfl⟩ := run_copy hrun
      simp only [result, hcopy]
      exact hr.copy_advances hop hcopy
  | extend language rules =>
      obtain ⟨new, hextend⟩ := run_extend hrun
      simp only [result, hextend]
      obtain ⟨id, c, hid, hcopy, rfl⟩ := Registry.extend_cases hextend
      have hlt := hr.names language id (Registry.target?_of_grammarId? hid)
      have hcopied := hr.copy_advances hlt hcopy
      have hlength : (c.grammars.modify new fun g => g.setAll rules).length = c.grammars.length :=
        List.length_modify ..
      -- the copy may have the rules, which refer to what was there before
      refine ⟨hcopied.consistent.modify new fun g hg a ha => ?_, ?_, fun a ha => ?_⟩
      · rcases Grammar.mem_references_setAll ha with ha | ha
        · exact hcopied.consistent.closed g hg a ha
        · obtain ⟨s, hs, ha⟩ := List.mem_flatMap.mp ha
          exact Nat.lt_of_lt_of_le (hop s hs a ha) hcopied.length_le
      · exact hlength ▸ hcopied.length_le
      · exact hlength ▸ hcopied.given_lt a ha
  | insertBefore id anchor rules =>
      obtain ⟨new, c, hinsert, rfl⟩ := run_insertBefore hrun
      simp only [result, hinsert]
      exact hr.insertBefore_advances hop.2 hinsert
  | edit id f =>
      obtain ⟨-, rfl⟩ := run_edit hrun
      refine (hr.modify id fun g hg a ha => ?_).advances (Nat.le_of_eq ?_)
      · exact (hop.2 g a ha).elim (hr.closed g hg a) fun hlt => hlt
      · exact (List.length_modify ..).symm
  | configure hooks renderer =>
      cases hrun
      exact hr.stays

/-- With numbers of grammars every operation can be done, but for extending
    a language that there is not. -/
theorem run_succeeds (hr : r.catalog.Consistent)
    (hop : op.Given (· < r.catalog.grammars.length))
    (hlanguage : ∀ language rules, op = .extend language rules →
      r.catalog.grammarId? language ≠ none) : (op.run r).isSome := by
  cases op with
  | copy id =>
      obtain ⟨copied, hcopied⟩ := hr.exists_copy hop
      rw [run, hcopied]
      rfl
  | extend language rules =>
      cases hid : r.catalog.grammarId? language with
      | none => exact absurd hid (hlanguage language rules rfl)
      | some id =>
          have hlt := hr.names language id (Registry.target?_of_grammarId? hid)
          obtain ⟨copied, hcopied⟩ := hr.exists_copy hlt
          rw [run, Registry.extend, hid]
          simp only [hcopied]
          rfl
  | insertBefore id anchor rules =>
      obtain ⟨inserted, hinserted⟩ := hr.exists_insertBefore hop.1 anchor rules
      rw [run, hinserted]
      rfl
  | edit id f =>
      rw [run, if_pos hop.1]
      rfl
  | add g => rfl
  | setLanguage name id => rfl
  | addLanguage name g => rfl
  | addAlias name other => rfl
  | addPlain aliases => rfl
  | load d => rfl
  | configure hooks renderer => rfl

end Operation

-- ── Runs ─────────────────────────────────────────────────────────────────

namespace Registry

/-- What was done with a registry, the last operation first, each with the
    registry it was done with. -/
abbrev Past := List (Registry × Operation)

/-- What operations lead to from the empty registry on, each of which is
    permitted after what was done before. -/
inductive Run (permits : Past → Registry → Operation → Prop) : Past → Registry → Prop where
  | empty : Run permits [] {}
  | step {past : Past} {r r' : Registry} (op : Operation) : Run permits past r →
      permits past r op → op.run r = some r' → Run permits ((r, op) :: past) r'

/-- A number that can be found in a registry: a name points to it, or a
    grammar refers to it. -/
def Shows (r : Registry) (a : GrammarId) : Prop :=
  (∃ name, r.catalog.target? name = some a) ∨ ∃ g ∈ r.catalog.grammars, a ∈ g.references

/-- A number that was found in a registry or given out by an operation. -/
def GivenOut (past : Past) (r : Registry) (a : GrammarId) : Prop :=
  r.Shows a ∨ ∃ done ∈ past, done.1.Shows a ∨ done.2.result done.1 = some a

/-- The operation is given only numbers that were given out before. -/
def Returns (past : Past) (r : Registry) (op : Operation) : Prop := op.Given (GivenOut past r)

theorem Shows.lt {r : Registry} {a : GrammarId} (h : r.Shows a) (hr : r.catalog.Consistent) :
    a < r.catalog.grammars.length := by
  rcases h with ⟨name, hname⟩ | ⟨g, hg, ha⟩
  · exact hr.names name a hname
  · exact hr.closed g hg a ha

/-- In a run in which numbers only come back, the registry is consistent and
    has a grammar for each number that was ever given out. -/
theorem Run.consistent {past : Past} {r : Registry} (h : Run Returns past r) :
    r.catalog.Consistent ∧ ∀ a, GivenOut past r a → a < r.catalog.grammars.length := by
  induction h with
  | empty =>
      refine ⟨Catalog.consistent_empty, fun a ha => ?_⟩
      rcases ha with ha | ⟨done, hdone, -⟩
      · exact ha.lt Catalog.consistent_empty
      · cases hdone
  | step op _ hpermit hrun ih =>
      obtain ⟨hr, hgiven⟩ := ih
      have hadvances := Operation.run_advances hr (hpermit.mono hgiven) hrun
      refine ⟨hadvances.consistent, fun a ha => ?_⟩
      rcases ha with ha | ⟨done, hdone, ha⟩
      · exact ha.lt hadvances.consistent
      · rcases List.mem_cons.mp hdone with rfl | hdone
        · rcases ha with ha | ha
          · exact Nat.lt_of_lt_of_le (ha.lt hr) hadvances.length_le
          · exact hadvances.given_lt a ha
        · exact Nat.lt_of_lt_of_le (hgiven a (.inr ⟨done, hdone, ha⟩)) hadvances.length_le

/-- Whatever is done with a registry, as long as it is given only numbers
    that it has given out: names and references lead to grammars, every
    number that was ever given out is still that of a grammar, and reserved
    names are names.  So the languages and the missing ones have none in
    common, and together are all names. -/
theorem run_numbers_valid {past : Past} {r : Registry} (h : Run Returns past r) :
    (∀ n ∈ r.catalog.names, n.2 < r.catalog.grammars.length) ∧
      (∀ g ∈ r.catalog.grammars, ∀ a ∈ g.references, a < r.catalog.grammars.length) ∧
      (∀ a, GivenOut past r a → a < r.catalog.grammars.length) ∧
      (∀ n ∈ r.catalog.reserved, n ∈ OrderedMap.names r.catalog.names) ∧
      r.catalog.languages.Disjoint r.catalog.missing ∧
      (r.catalog.languages ++ r.catalog.missing).Perm (OrderedMap.names r.catalog.names) := by
  obtain ⟨hr, hgiven⟩ := h.consistent
  exact ⟨fun n hn => hr.lt_of_mem hn, hr.closed, hgiven, hr.named, hr.languages_append_missing⟩

/-- A language refers to a missing one, and a document that fails refers to
    that too.  Then the language is given the missing name, and a rule with
    the number that was kept for it. -/
theorem run_numbers_valid_after_failure :
    let r := (({} : Registry).load (.wordsOf "n" "l" [])).2
    let failed := (r.load (brokenDocument "c" "n" "ghost")).2
    let named := { failed with catalog := failed.catalog.setLanguage "n" 1 }
    let change := RuleChange.set "inner" (.grammar 0)
    let edited := { named with
      catalog := { named.catalog with grammars := named.catalog.grammars.modify 1 change.apply } }
    ∃ past, past.length = 4 ∧ Run Returns past edited ∧
      (∀ a, GivenOut past edited a → a < edited.catalog.grammars.length) ∧
      (edited.catalog.languages ++ edited.catalog.missing).Perm
        (OrderedMap.names edited.catalog.names) := by
  intro r failed named change edited
  have hload : Run Returns [({}, .load (.wordsOf "n" "l" []))] r := .step _ .empty trivial rfl
  have hfailed : Run Returns _ failed :=
    hload.step (.load (brokenDocument "c" "n" "ghost")) trivial rfl
  -- the first number is that of the language, which the first document gave out
  have hone : GivenOut [(r, .load (brokenDocument "c" "n" "ghost")),
      ({}, .load (.wordsOf "n" "l" []))] failed 1 :=
    .inr ⟨_, List.mem_cons_of_mem _ List.mem_cons_self, .inr rfl⟩
  have hnamed : Run Returns _ named := hfailed.step (.setLanguage "n" 1) hone rfl
  have hpermit : Returns [(failed, .setLanguage "n" 1),
      (r, .load (brokenDocument "c" "n" "ghost")), ({}, .load (.wordsOf "n" "l" []))]
      named (.edit 1 change.apply) := by
    refine ⟨.inr ⟨_, List.mem_cons_of_mem _ (List.mem_cons_of_mem _ List.mem_cons_self),
      .inr rfl⟩, ?_⟩
    intro g a ha
    refine (change.mem_references_apply ha).imp_right ?_
    rintro ⟨name, rule, heq, ha⟩
    obtain ⟨-, rfl⟩ := RuleChange.set.inj heq
    -- the name pointed to the place when the document failed
    obtain rfl := List.mem_singleton.mp ha
    exact .inr ⟨(r, _), List.mem_cons_of_mem _ List.mem_cons_self, .inl (.inl ⟨"n", rfl⟩)⟩
  have hedited : Run Returns _ edited := hnamed.step (.edit 1 change.apply) hpermit rfl
  obtain ⟨-, -, hgiven, -, -, hperm⟩ := run_numbers_valid hedited
  exact ⟨_, rfl, hedited, hgiven, hperm⟩

end Registry

end Highlighter
