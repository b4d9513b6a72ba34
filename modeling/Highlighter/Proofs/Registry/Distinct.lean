import Highlighter.Proofs.Grammar.Editing
import Highlighter.Proofs.Registry.Lasting
import Highlighter.Proofs.Registry.Runs

/-! # Names are apart in every registry

    In a grammar that edits have made no name stands twice.  That stays so
    whatever is done with a registry: reading documents sets rules one
    after the other, and so does extending; copies have the names of what
    is copied; and inserting sets the rules of the new grammar, those in
    front of the anchor, the inserted ones and the others, one after the
    other on what is there (`Registry.grammars_ordered`). -/

namespace Highlighter

theorem Grammar.nodup_lasting : Grammar.Lasting fun g => g.names.Nodup where
  empty := .nil
  set name hg _ := nodup_names_set hg name _
  mapReferences f hg := by
    rw [names_mapReferences]
    exact hg

theorem Catalog.nodup_names_inserted {g : Grammar} (h : g.names.Nodup) (anchor : Option String)
    (rules : List (String × Rule)) : (inserted g anchor rules).names.Nodup := by
  cases anchor with
  | none => exact OrderedMap.nodup_names_setAll h rules
  | some name =>
      rw [inserted]
      split
      · have hfront : (OrderedMap.names (g.rules.takeWhile (·.1 != name))).Nodup :=
          h.sublist ((List.takeWhile_sublist _).map _)
        exact OrderedMap.nodup_names_setAll (OrderedMap.nodup_names_setAll hfront rules) _
      · exact OrderedMap.nodup_names_setAll h rules

namespace Registry

/-- Grammars that are brought in were made by edits, and those of the
    registry are changed by edits only. -/
def Built (_ : Past) (_ : Registry) : Operation → Prop
  | .add g | .addLanguage _ g => ∃ edits, g = Grammar.build edits
  | .edit _ f => ∀ g, ∃ edits, f g = Grammar.Edit.applyAll edits g
  | .setLanguage _ _ | .addAlias _ _ | .addPlain _ | .load _ | .copy _ | .extend _ _
  | .insertBefore _ _ _ | .configure _ _ => True

theorem Built.brings {past : Past} {r : Registry} {op : Operation} (h : Built past r op) :
    op.Brings fun g => g.names.Nodup := by
  cases op with
  | add g =>
      obtain ⟨edits, rfl⟩ := h
      exact (Grammar.records_build edits).nodup
  | addLanguage name g =>
      obtain ⟨edits, rfl⟩ := h
      exact (Grammar.records_build edits).nodup
  | edit id f =>
      intro g hg
      obtain ⟨edits, hedits⟩ := h g
      rw [hedits]
      exact Grammar.nodup_names_applyAll hg edits
  | extend language rules => exact fun g hg => OrderedMap.nodup_names_setAll hg rules
  | insertBefore id anchor rules => exact fun g hg => Catalog.nodup_names_inserted hg anchor rules
  | setLanguage name id => trivial
  | addAlias name other => trivial
  | addPlain aliases => trivial
  | load d => trivial
  | copy id => trivial
  | configure hooks renderer => trivial

/-- Grammars are ordered maps.  What edits make of the grammar without rules
    can be told from the edits; and in every registry that operations lead
    to, in which grammars are changed by edits, each grammar has its names
    apart. -/
theorem grammars_ordered :
    (∀ edits, Grammar.Records edits (Grammar.build edits)) ∧
      ∀ past r, Run Built past r → ∀ g ∈ r.catalog.grammars, g.names.Nodup := by
  refine ⟨Grammar.records_build, fun past r h => ?_⟩
  induction h with
  | empty => exact fun _ hg => absurd hg List.not_mem_nil
  | step op _ hpermit hrun ih =>
      exact Operation.run_lasting Grammar.nodup_lasting ih hpermit.brings hrun

/-- A name is set, taken out and set again, and another one is changed
    where it stands.  Two languages are loaded; rules are inserted into the
    one, and the other is extended, with rules for names that are there. -/
theorem grammars_ordered_words :
    let rule (source : String) : Rule := .patterns (.single { regex := Regex.ofStrings source "" })
    let edits : List Grammar.Edit :=
      [.token "a" (rule "x"), .set "b" (rule "y"), .rest 0, .remove "a", .set "a" (rule "z"),
        .change "b" fun _ => rule "w"]
    let rules := [("digit", rule "[0-9]"), ("word", rule "[a-z]")]
    ((Grammar.build edits).names = ["b", restName, "a"] ∧ Grammar.Records edits (.build edits)) ∧
      ∃ past r, Run Built past r ∧
        past.reverse.map Prod.snd = [.load (.words "n" []), .load (.wordsOf "n" "l" []),
          .insertBefore 0 (some "word") rules, .extend "l" rules] ∧
        ∀ g ∈ r.catalog.grammars, g.names.Nodup := by
  intro rule edits rules
  let words := (({} : Registry).load (.words "n" [])).2
  let loaded := (words.load (.wordsOf "n" "l" [])).2
  have hwords : words.catalog.Consistent :=
    (Catalog.consistent_empty.load_advances (.words "n" [])).consistent
  have hloaded : loaded.catalog.Consistent :=
    (hwords.load_advances (.wordsOf "n" "l" [])).consistent
  have hrules : ∀ r ∈ rules, r.2.references = [] := by decide
  have hclosed : ∀ count, ∀ r ∈ rules, ∀ a ∈ r.2.references, a < count := by
    intro count r hr a ha
    rw [hrules r hr] at ha
    exact absurd ha List.not_mem_nil
  -- the rules refer to nothing, so that both operations can be done
  have hinsertion : (Operation.insertBefore 0 (some "word") rules).Given
      (· < loaded.catalog.grammars.length) := ⟨Nat.zero_lt_succ _, hclosed _⟩
  obtain ⟨inserted, hinserted⟩ :=
    Option.isSome_iff_exists.mp (Operation.run_succeeds hloaded hinsertion nofun)
  have hconsistent := (Operation.run_advances hloaded hinsertion hinserted).consistent
  have hlanguage : inserted.catalog.grammarId? "l" = some 1 := by
    obtain ⟨new, c, hinsert, rfl⟩ := Operation.run_insertBefore hinserted
    obtain ⟨g, live, -, -, -, rfl⟩ := Catalog.insertBefore_cases hinsert
    rfl
  have hextension : (Operation.extend "l" rules).Given (· < inserted.catalog.grammars.length) :=
    hclosed _
  obtain ⟨extended, hextended⟩ := Option.isSome_iff_exists.mp
    (Operation.run_succeeds hconsistent hextension fun language _ h => by
      cases h
      exact hlanguage ▸ nofun)
  have hempty : Run Built [] {} := .empty
  have hboth := (hempty.step (.load (.words "n" [])) trivial rfl).step (.load (.wordsOf "n" "l" []))
    trivial rfl
  have hrun := (hboth.step (.insertBefore 0 (some "word") rules) trivial hinserted).step
    (.extend "l" rules) trivial hextended
  exact ⟨⟨rfl, grammars_ordered.1 edits⟩, _, extended, hrun, rfl, grammars_ordered.2 _ _ hrun⟩

end Registry

end Highlighter
