import Highlighter.Proofs.Registry.Effects
import Highlighter.Proofs.Registry.Reading

/-! # What all grammars have in common

    Some properties a grammar has by itself, whatever its references lead
    to: that all its regexes can be read is one, and that its names are
    apart.  Such a property lasts when it comes with documents, and stays
    when references are turned (`Grammar.Lasting`).

    Then all grammars of a registry have it, as long as those have it that
    are brought in (`Operation.Brings`): each operation keeps it
    (`Operation.run_lasting`). -/

namespace Highlighter

/-- A property of grammars that those of documents have, and that does not
    depend on where references lead. -/
structure Grammar.Lasting (Q : Grammar → Prop) : Prop where
  empty : Q {}
  set : ∀ {g : Grammar} {r : Rule} (name : String), Q g → (∀ x ∈ r.regexes, x.Readable) →
    Q (g.set name r)
  mapReferences : ∀ {g : Grammar} (f : GrammarId → GrammarId), Q g → Q (g.mapReferences f)

theorem forall_mem_concat {Q : Grammar → Prop} {gs : List Grammar} {g : Grammar}
    (h : ∀ g ∈ gs, Q g) (hg : Q g) : ∀ g' ∈ gs ++ [g], Q g' :=
  List.forall_mem_append.mpr ⟨h, List.forall_mem_singleton.mpr hg⟩

theorem forall_mem_set {Q : Grammar → Prop} {gs : List Grammar} {g : Grammar}
    (h : ∀ g ∈ gs, Q g) (hg : Q g) (id : GrammarId) : ∀ g' ∈ gs.set id g, Q g' := by
  intro g' hg'
  rcases List.mem_or_eq_of_mem_set hg' with hg' | rfl
  · exact h g' hg'
  · exact hg

theorem forall_mem_modify {Q : Grammar → Prop} {gs : List Grammar} (h : ∀ g ∈ gs, Q g)
    (id : GrammarId) {f : Grammar → Grammar} (hf : ∀ g, Q g → Q (f g)) :
    ∀ g ∈ gs.modify id f, Q g := by
  intro g hg
  obtain ⟨old, hold, rfl | rfl⟩ := mem_modify hg
  · exact h _ hold
  · exact hf old (h old hold)

-- ── Catalogs ─────────────────────────────────────────────────────────────

namespace Catalog

variable {Q : Grammar → Prop} (hQ : Grammar.Lasting Q) {c : Catalog} (h : ∀ g ∈ c.grammars, Q g)
include hQ h

theorem lasting_redirect (concerned : GrammarId → Bool) (old new : GrammarId) :
    ∀ g ∈ (c.redirect concerned old new).grammars, Q g := by
  intro g hg
  obtain ⟨before, hbefore, rfl | rfl⟩ := mem_redirect hg
  · exact h _ hbefore
  · exact hQ.mapReferences _ (h before hbefore)

theorem lasting_setLanguage (name : String) (id : GrammarId) :
    ∀ g ∈ (c.setLanguage name id).grammars, Q g := by
  rcases setLanguage_cases c name id with heq | ⟨place, -, -, heq⟩
  · rw [heq]
    exact h
  · rw [heq]
    exact lasting_redirect hQ h (fun _ => true) place id

omit hQ in
theorem lasting_addLanguage (name : String) {g : Grammar} (hg : Q g) :
    ∀ g' ∈ (c.addLanguage name g).2.grammars, Q g' := by
  rcases addLanguage_cases c name g with ⟨place, -, -, heq⟩ | heq
  · rw [heq]
    exact forall_mem_set h hg place
  · rw [heq]
    exact forall_mem_concat h hg

theorem lasting_addAlias (name other : String) :
    ∀ g ∈ (c.addAlias name other).grammars, Q g := by
  rcases addAlias_cases c name other with heq | ⟨id, -, heq⟩
  · rw [heq]
    exact h
  · rw [heq]
    exact lasting_setLanguage hQ h other id

theorem lasting_addPlain (aliases : List String) :
    ∀ g ∈ (c.addPlain aliases).2.grammars, Q g :=
  aliases.foldlRecOn (motive := fun c : Catalog => ∀ g ∈ c.grammars, Q g) _
    (lasting_addLanguage h plainName hQ.empty)
    fun _ h other _ => lasting_addAlias hQ h plainName other

omit h in
/-- Documents are read with the property, grammar by grammar. -/
theorem lasting_upheld :
    UpheldIn (fun c => ∀ g ∈ c.grammars, Q g) (fun _ _ => True) fun _ g => Q g where
  grows _ _ := trivial
  keeps _ hg := hg
  link {c} name hc := by
    refine ⟨?_, trivial⟩
    cases hname : c.target? name with
    | some id =>
        rw [link_of_target? hname]
        exact hc
    | none =>
        rw [link_of_target?_eq_none hname]
        exact forall_mem_concat hc hQ.empty
  empty := hQ.empty
  set name hg hr := hQ.set name hg hr.regexes
  add hc hg := ⟨forall_mem_concat hc hg, trivial⟩

theorem lasting_load (d : Document) : ∀ g ∈ (c.load d).2.grammars, Q g := by
  obtain ⟨-, hread, hmade⟩ := Load.grammar_upholdsIn (lasting_upheld hQ) c d.tokens h
  rcases load_cases c d with ⟨e, l, hrun, hload⟩ | ⟨g, l, hrun, hload⟩
  · rw [hrun] at hread
    rw [hload]
    intro g hg
    exact hread g (List.mem_of_mem_take hg)
  · rw [hrun] at hread hmade
    rw [hload]
    exact d.aliases.foldlRecOn (motive := fun c : Catalog => ∀ g ∈ c.grammars, Q g) _
      (lasting_addLanguage hread d.name (hmade g rfl))
      fun _ h name _ => lasting_setLanguage hQ h name _

theorem lasting_copy {id new : GrammarId} {c' : Catalog} (hcopy : c.copy id = .ok (new, c')) :
    ∀ g ∈ c'.grammars, Q g := by
  obtain ⟨copied, -, -, rfl⟩ := copy_cases hcopy
  intro g hg
  rcases mem_withCopies hg with hg | ⟨a, -, old, hold, rfl⟩
  · exact h g hg
  · exact hQ.mapReferences _ (h old (List.mem_of_getElem? hold))

theorem lasting_insertBefore {id new : GrammarId} {anchor : Option String}
    {rules : List (String × Rule)} {c' : Catalog}
    (hinserted : ∀ g, Q g → Q (inserted g anchor rules))
    (hinsert : c.insertBefore id anchor rules = .ok (new, c')) : ∀ g ∈ c'.grammars, Q g := by
  obtain ⟨g, live, hg, -, -, rfl⟩ := insertBefore_cases hinsert
  have hadded : ∀ g' ∈ (c.add (inserted g anchor rules)).2.grammars, Q g' :=
    forall_mem_concat h (hinserted g (h g (List.mem_of_getElem? hg)))
  exact lasting_redirect hQ hadded _ id c.grammars.length

end Catalog

-- ── Operations ───────────────────────────────────────────────────────────

namespace Operation

/-- The grammars that an operation brings in have a property, and so have
    those that it makes of others. -/
def Brings (Q : Grammar → Prop) : Operation → Prop
  | .add g | .addLanguage _ g => Q g
  | .edit _ f => ∀ g, Q g → Q (f g)
  | .extend _ rules => ∀ g, Q g → Q (g.setAll rules)
  | .insertBefore _ anchor rules => ∀ g, Q g → Q (Catalog.inserted g anchor rules)
  | .setLanguage _ _ | .addAlias _ _ | .addPlain _ | .load _ | .copy _ | .configure _ _ => True

/-- What all grammars have, they have after an operation that brings in only
    such as have it. -/
theorem run_lasting {Q : Grammar → Prop} (hQ : Grammar.Lasting Q) {r r' : Registry}
    {op : Operation} (h : ∀ g ∈ r.catalog.grammars, Q g) (hop : op.Brings Q)
    (hrun : op.run r = some r') : ∀ g ∈ r'.catalog.grammars, Q g := by
  cases op with
  | add g =>
      cases hrun
      exact forall_mem_concat h hop
  | addLanguage name g =>
      cases hrun
      exact Catalog.lasting_addLanguage h name hop
  | edit id f =>
      obtain ⟨-, rfl⟩ := run_edit hrun
      exact forall_mem_modify h id hop
  | setLanguage name id =>
      cases hrun
      exact Catalog.lasting_setLanguage hQ h name id
  | addAlias name other =>
      cases hrun
      exact Catalog.lasting_addAlias hQ h name other
  | addPlain aliases =>
      cases hrun
      exact Catalog.lasting_addPlain hQ h aliases
  | load d =>
      cases hrun
      exact Catalog.lasting_load hQ h d
  | copy id =>
      obtain ⟨new, c, hcopy, rfl⟩ := run_copy hrun
      exact Catalog.lasting_copy hQ h hcopy
  | extend language rules =>
      obtain ⟨new, hextend⟩ := run_extend hrun
      obtain ⟨id, c, -, hcopy, rfl⟩ := Registry.extend_cases hextend
      exact forall_mem_modify (Catalog.lasting_copy hQ h hcopy) new hop
  | insertBefore id anchor rules =>
      obtain ⟨new, c, hinsert, rfl⟩ := run_insertBefore hrun
      exact Catalog.lasting_insertBefore hQ h hop hinsert
  | configure hooks renderer =>
      cases hrun
      exact h

end Operation

end Highlighter
