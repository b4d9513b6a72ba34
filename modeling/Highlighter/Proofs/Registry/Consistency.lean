import Highlighter.Proofs.Registry.Effects
import Highlighter.Proofs.Registry.Reading

/-! # Consistent catalogs

    Grammars are addressed by number, and a number may be kept for long: in
    the table of names, in the references of other grammars, or by whoever
    got it from an operation.  A catalog is `Consistent` when the numbers
    that it keeps are those of its grammars, and what it reserves are names.

    Every operation that is given numbers of grammars keeps a catalog
    consistent.  None makes the arena shorter, though a document that fails
    has the grammars dropped that it added; so numbers that were good stay
    good (`Catalog.Advances`).  And none fails for want of a grammar:
    walking meets grammars only (`Consistent.exists_copy`,
    `Consistent.exists_insertBefore`). -/

namespace Highlighter

-- ── The invariant ────────────────────────────────────────────────────────

namespace Catalog

/-- References and names lead to grammars, no name stands twice in a table,
    and every reserved name is in the table of names. -/
structure Consistent (c : Catalog) : Prop extends c.InRange where
  names_nodup : (OrderedMap.names c.names).Nodup
  reserved_nodup : c.reserved.Nodup
  named : c.Named

theorem consistent_empty : ({} : Catalog).Consistent where
  closed _ hg := nomatch hg
  names _ _ h := nomatch h
  names_nodup := .nil
  reserved_nodup := .nil
  named _ hn := nomatch hn

section Consistent

variable {c : Catalog} (h : c.Consistent)
include h

theorem Consistent.lt_of_mem {n : String × GrammarId} (hn : n ∈ c.names) :
    n.2 < c.grammars.length :=
  h.names n.1 n.2 (OrderedMap.get?_of_mem h.names_nodup hn)

/-- The grammars may be others, if there are as many and they refer to one
    another. -/
theorem Consistent.withGrammars {gs : List Grammar} (hclosed : Closed gs)
    (hle : c.grammars.length ≤ gs.length) : ({ c with grammars := gs } : Catalog).Consistent where
  closed := hclosed
  names n id hn := Nat.lt_of_lt_of_le (h.names n id hn) hle
  names_nodup := h.names_nodup
  reserved_nodup := h.reserved_nodup
  named := h.named

/-- The table of names may be another one for the same names. -/
theorem Consistent.withNames {ns : List (String × GrammarId)}
    (hkeys : OrderedMap.names ns = OrderedMap.names c.names)
    (hlt : ∀ n ∈ ns, n.2 < c.grammars.length) : ({ c with names := ns } : Catalog).Consistent where
  closed := h.closed
  names n id hn := hlt _ (OrderedMap.mem_of_get? hn)
  names_nodup := by
    rw [hkeys]
    exact h.names_nodup
  reserved_nodup := h.reserved_nodup
  named := h.named.of_names_eq rfl hkeys

theorem Consistent.release (name : String) : (c.release name).Consistent where
  closed := h.closed
  names := h.names
  names_nodup := h.names_nodup
  reserved_nodup := h.reserved_nodup.filter _
  named := h.named.release name

theorem Consistent.point (name : String) {id : GrammarId} (hid : id < c.grammars.length) :
    (c.point name id).Consistent where
  closed := h.closed
  names n a hn := by
    rw [target?_point] at hn
    split at hn
    · rw [← Option.some.inj hn]
      exact hid
    · exact h.names n a hn
  names_nodup := OrderedMap.nodup_names_set h.names_nodup name id
  reserved_nodup := h.reserved_nodup
  named := h.named.point name id

theorem Consistent.add {g : Grammar} (hg : ∀ a ∈ g.references, a < c.grammars.length) :
    (c.add g).2.Consistent := by
  have hle : c.grammars.length ≤ (c.grammars ++ [g]).length := by
    rw [List.length_append]
    exact Nat.le_add_right _ _
  refine h.withGrammars (fun g' hg' a ha => Nat.lt_of_lt_of_le ?_ hle) hle
  rcases List.mem_append.mp hg' with hg' | hg'
  · exact h.closed g' hg' a ha
  · rw [List.mem_singleton.mp hg'] at ha
    exact hg a ha

omit h in
theorem length_add (c : Catalog) (g : Grammar) :
    (c.add g).2.grammars.length = c.grammars.length + 1 :=
  List.length_append

omit h in
theorem length_redirect (c : Catalog) (concerned : GrammarId → Bool) (old new : GrammarId) :
    (c.redirect concerned old new).grammars.length = c.grammars.length :=
  List.length_mapIdx

theorem Consistent.redirect (concerned : GrammarId → Bool) (old : GrammarId) {new : GrammarId}
    (hnew : new < c.grammars.length) : (c.redirect concerned old new).Consistent := by
  have hlength := length_redirect c concerned old new
  refine h.withGrammars (fun g hg a ha => ?_) (Nat.le_of_eq hlength.symm)
  show a < (c.redirect concerned old new).grammars.length
  rw [hlength]
  obtain ⟨before, hbefore, rfl | rfl⟩ := mem_redirect hg
  · exact h.closed g hbefore a ha
  · obtain ⟨b, hb, rfl⟩ := Grammar.mem_references_mapReferences ha
    split
    · exact hnew
    · exact h.closed before hbefore b hb

-- ── Giving names ─────────────────────────────────────────────────────────

theorem Consistent.setLanguage (name : String) {id : GrammarId} (hid : id < c.grammars.length) :
    (c.setLanguage name id).Consistent := by
  rcases setLanguage_cases c name id with heq | ⟨place, -, -, heq⟩
  · rw [heq]
    exact (h.release name).point name hid
  · rw [heq]
    refine ((h.redirect _ place hid).release name).point name ?_
    show id < (c.redirect (fun _ => true) place id).grammars.length
    rw [length_redirect]
    exact hid

omit h in
theorem length_setLanguage (c : Catalog) (name : String) (id : GrammarId) :
    (c.setLanguage name id).grammars.length = c.grammars.length := by
  rcases setLanguage_cases c name id with heq | ⟨place, -, -, heq⟩
  · rw [heq]
    rfl
  · rw [heq]
    exact length_redirect c _ place id

end Consistent

/-- A catalog that has come of another one: it is consistent, its arena is
    not shorter, and it has the grammar with the number given out. -/
structure Advances (c c' : Catalog) (given : Option GrammarId) : Prop where
  consistent : c'.Consistent
  length_le : c.grammars.length ≤ c'.grammars.length
  given_lt : ∀ a, given = some a → a < c'.grammars.length

section Advances

variable {c c' c'' : Catalog}

theorem Consistent.advances (h : c'.Consistent) (hle : c.grammars.length ≤ c'.grammars.length) :
    c.Advances c' none := ⟨h, hle, fun _ h => by cases h⟩

theorem Consistent.stays (h : c.Consistent) : c.Advances c none := h.advances (Nat.le_refl _)

theorem Advances.trans {given : Option GrammarId} (h : c.Advances c' given)
    (h' : c'.Advances c'' none) : c.Advances c'' given :=
  ⟨h'.consistent, Nat.le_trans h.length_le h'.length_le,
    fun a ha => Nat.lt_of_lt_of_le (h.given_lt a ha) h'.length_le⟩

theorem Consistent.setLanguage_advances (h : c.Consistent) (name : String) {id : GrammarId}
    (hid : id < c.grammars.length) : c.Advances (c.setLanguage name id) none :=
  (h.setLanguage name hid).advances (Nat.le_of_eq (length_setLanguage c name id).symm)

/-- A language has the number of its place, or a new one. -/
theorem Consistent.addLanguage_advances (h : c.Consistent) (name : String) {g : Grammar}
    (hg : ∀ a ∈ g.references, a < c.grammars.length) :
    c.Advances (c.addLanguage name g).2 (some (c.addLanguage name g).1) := by
  rcases addLanguage_cases c name g with ⟨place, -, hplace, heq⟩ | heq
  · have hlength : (c.grammars.set place g).length = c.grammars.length := List.length_set
    rw [heq]
    refine ⟨?_, Nat.le_of_eq hlength.symm, fun a ha => ?_⟩
    · exact (h.release name).withGrammars (h.closed.set place hg) (Nat.le_of_eq hlength.symm)
    · rw [← Option.some.inj ha]
      show place < (c.grammars.set place g).length
      rw [hlength]
      exact h.names name place hplace
  · have hlength : ((c.release name).add g).2.grammars.length = c.grammars.length + 1 :=
      length_add (c.release name) g
    rw [heq]
    refine ⟨?_, ?_, fun a ha => ?_⟩
    · refine ((h.release name).add hg).point name ?_
      rw [hlength]
      exact Nat.lt_succ_self _
    · show _ ≤ ((c.release name).add g).2.grammars.length
      rw [hlength]
      exact Nat.le_succ _
    · rw [← Option.some.inj ha]
      show _ < ((c.release name).add g).2.grammars.length
      rw [hlength]
      exact Nat.lt_succ_self _

theorem Consistent.addAlias_advances (h : c.Consistent) (name other : String) :
    c.Advances (c.addAlias name other) none := by
  rcases addAlias_cases c name other with heq | ⟨id, hid, heq⟩
  · rw [heq]
    exact h.stays
  · rw [heq]
    exact h.setLanguage_advances other (h.names name id (Registry.target?_of_grammarId? hid))

/-- What one step keeps, a fold keeps. -/
theorem Consistent.foldl_advances {α : Type} {f : Catalog → α → Catalog} {bound : Nat}
    (hf : ∀ (c : Catalog) a, c.Consistent → bound ≤ c.grammars.length →
      c.Advances (f c a) none)
    (h : c.Consistent) (hbound : bound ≤ c.grammars.length) (as : List α) :
    c.Advances (as.foldl f c) none := by
  induction as generalizing c with
  | nil => exact h.stays
  | cons a as ih =>
      have hstep := hf c a h hbound
      exact hstep.trans (ih hstep.consistent (Nat.le_trans hbound hstep.length_le))

theorem Consistent.addPlain_advances (h : c.Consistent) (aliases : List String) :
    c.Advances (c.addPlain aliases).2 (some (c.addPlain aliases).1) := by
  have hadded := h.addLanguage_advances plainName (g := {}) nofun
  exact hadded.trans (hadded.consistent.foldl_advances
    (fun _ other h _ => h.addAlias_advances plainName other) (Nat.zero_le _) aliases)

-- ── Loading ──────────────────────────────────────────────────────────────

theorem Consistent.link (h : c.Consistent) (name : String) :
    (c.link name).2.Consistent ∧ (c.link name).1 < (c.link name).2.grammars.length := by
  cases hname : c.target? name with
  | some id =>
      rw [link_of_target? hname]
      exact ⟨h, h.names name id hname⟩
  | none =>
      have hnew : name ∉ c.reserved := fun hmem =>
        OrderedMap.get?_eq_none_iff.mp hname (h.named name hmem)
      have hlt : c.grammars.length < (c.add {}).2.grammars.length := by
        rw [length_add]
        exact Nat.lt_succ_self _
      have hpointed := (h.add (g := {}) nofun).point name hlt
      have hlink : c.link name = (c.grammars.length,
          { (c.add {}).2.point name c.grammars.length with reserved := name :: c.reserved }) := by
        rw [Catalog.link, hname]
        rfl
      rw [hlink]
      refine ⟨⟨⟨hpointed.closed, hpointed.names⟩, hpointed.names_nodup, ?_, ?_⟩, hlt⟩
      · exact List.nodup_cons.mpr ⟨hnew, h.reserved_nodup⟩
      · intro n hn
        rcases List.mem_cons.mp hn with rfl | hn
        · exact OrderedMap.mem_names_set.mpr (.inl rfl)
        · exact hpointed.named n hn

/-- Reading a document keeps a catalog consistent, and all numbers it comes
    upon are those of grammars. -/
theorem consistent_upheld : Upheld Consistent fun c a => a < c.grammars.length where
  grows hgrows ha := Nat.lt_of_lt_of_le ha hgrows.length_le
  link name hc := hc.link name
  add {c g} hc hg := by
    refine ⟨hc.add hg.references, ?_⟩
    rw [length_add]
    exact Nat.lt_succ_self _

/-- A document that fails leaves everything as it was; another one advances
    the catalog. -/
theorem Consistent.load_advances (h : c.Consistent) (d : Document) :
    c.Advances (c.load d).2 (c.load d).1.toOption := by
  obtain ⟨hgrows, hread, hmade⟩ := Load.grammar_upholds consistent_upheld c d.tokens h
  rcases load_cases c d with ⟨e, l, -, hload⟩ | ⟨g, l, hrun, hload⟩
  · have hrestored := load_restores h.named (fun _ hn => h.lt_of_mem hn) hload
    rw [hload, hrestored]
    exact h.stays
  · rw [hrun] at hgrows hread hmade
    rw [hload]
    have hadded := Consistent.addLanguage_advances hread d.name (hmade g rfl).references
    have hnamed := hadded.trans (hadded.consistent.foldl_advances
      (fun _ name h hle => h.setLanguage_advances name hle) (hadded.given_lt _ rfl) d.aliases)
    exact ⟨hnamed.consistent, Nat.le_trans hgrows.length_le hnamed.length_le, hnamed.given_lt⟩

-- ── Deriving grammars ────────────────────────────────────────────────────

/-- Grammars with copies of some of them, which are all that these refer to. -/
theorem Consistent.withCopies_advances (h : c.Consistent) {copied : List GrammarId}
    (hcopied : ∀ a ∈ copied, a < c.grammars.length)
    (hrefers : ∀ a b, a ∈ copied → Refers c.grammars a b → b ∈ copied) {id : GrammarId}
    (hid : id ∈ copied) :
    c.Advances { c with grammars := withCopies c.grammars copied }
      (some (copyOf c.grammars.length copied id)) := by
  have hlt : ∀ a ∈ copied, copyOf c.grammars.length copied a
      < (withCopies c.grammars copied).length := by
    intro a ha
    rw [length_withCopies hcopied]
    exact copyOf_lt ha
  have hle : c.grammars.length ≤ (withCopies c.grammars copied).length := by
    rw [withCopies, List.length_append]
    exact Nat.le_add_right _ _
  have hclosed : Closed (withCopies c.grammars copied) := by
    intro g hg a ha
    rcases mem_withCopies hg with hg | ⟨b, hb, old, hold, rfl⟩
    · exact Nat.lt_of_lt_of_le (h.closed g hg a ha) hle
    · obtain ⟨x, hx, rfl⟩ := Grammar.mem_references_mapReferences ha
      exact hlt x (hrefers b x hb ⟨old, hold, hx⟩)
  refine ⟨h.withGrammars hclosed hle, hle, fun a ha => ?_⟩
  rw [← Option.some.inj ha]
  exact hlt id hid

theorem Consistent.exists_copy (h : c.Consistent) {id : GrammarId}
    (hid : id < c.grammars.length) : ∃ copied, c.copy id = .ok copied := by
  obtain ⟨others, hreach, -⟩ := reachable_of_closed h.closed hid
  refine ⟨(copyOf c.grammars.length (id :: others) id,
    { c with grammars := withCopies c.grammars (id :: others) }), ?_⟩
  rw [copy, deepCopy, hreach]
  rfl

theorem Consistent.exists_insertBefore (h : c.Consistent) {id : GrammarId}
    (hid : id < c.grammars.length) (anchor : Option String) (rules : List (String × Rule)) :
    ∃ inserted, c.insertBefore id anchor rules = .ok inserted :=
  Catalog.exists_insertBefore h.closed (fun _ hn => h.lt_of_mem hn) hid anchor rules

theorem Consistent.copy_advances (h : c.Consistent) {id new : GrammarId}
    (hid : id < c.grammars.length) (hcopy : c.copy id = .ok (new, c')) :
    c.Advances c' (some new) := by
  obtain ⟨copied, hreach, rfl, rfl⟩ := copy_cases hcopy
  obtain ⟨others, hlist, hreaches, -⟩ := reachable_of_closed h.closed hid
  obtain rfl : id :: others = copied := Except.ok.inj (hlist.symm.trans hreach)
  exact h.withCopies_advances (fun a ha => h.closed.reaches_lt hid (hreaches a ha))
    (fun a b ha hab => reachable_complete hreach ha hab) List.mem_cons_self

theorem Consistent.insertBefore_advances (h : c.Consistent) {id new : GrammarId}
    {anchor : Option String} {rules : List (String × Rule)}
    (hrules : RulesWithin c.grammars.length rules)
    (hinsert : c.insertBefore id anchor rules = .ok (new, c')) : c.Advances c' (some new) := by
  obtain ⟨g, live, hg, -, rfl, rfl⟩ := insertBefore_cases hinsert
  have hadded : (c.add (inserted g anchor rules)).2.Consistent := by
    refine h.add (rulesWithin_iff.mp fun r hr => ?_)
    rcases mem_rules_inserted hr with hr | hr
    · exact rulesWithin_iff.mpr (h.closed g (List.mem_of_getElem? hg)) r hr
    · exact hrules r hr
  have hnew : c.grammars.length < (c.add (inserted g anchor rules)).2.grammars.length := by
    rw [length_add]
    exact Nat.lt_succ_self _
  have hturned := hadded.redirect
    (fun i => i == c.grammars.length || live.contains i) id hnew
  refine ⟨hturned.withNames ?_ fun n hn => ?_, ?_, fun a ha => ?_⟩
  · exact OrderedMap.names_map (fun a => if a = id then c.grammars.length else a) c.names
  · rw [length_redirect]
    obtain ⟨m, hm, rfl⟩ := List.mem_map.mp hn
    split
    · exact hnew
    · exact Nat.lt_trans (h.lt_of_mem hm) hnew
  · show _ ≤ (Catalog.redirect _ _ _ _).grammars.length
    rw [length_redirect]
    exact Nat.le_of_lt hnew
  · rw [← Option.some.inj ha]
    show _ < (Catalog.redirect _ _ _ _).grammars.length
    rw [length_redirect]
    exact hnew

/-- A grammar may be changed if it goes on referring to grammars. -/
theorem Consistent.modify (h : c.Consistent) (id : GrammarId) {f : Grammar → Grammar}
    (hf : ∀ g ∈ c.grammars, ∀ a ∈ (f g).references, a < c.grammars.length) :
    ({ c with grammars := c.grammars.modify id f } : Catalog).Consistent := by
  have hlength : (c.grammars.modify id f).length = c.grammars.length := List.length_modify ..
  refine h.withGrammars (fun g hg a ha => ?_) (Nat.le_of_eq hlength.symm)
  rw [hlength]
  obtain ⟨old, hold, rfl | rfl⟩ := mem_modify hg
  · exact h.closed _ hold a ha
  · exact hf old hold a ha

end Advances

-- ── Names ────────────────────────────────────────────────────────────────

/-- A name is a language or missing, and not both. -/
theorem Consistent.languages_append_missing {c : Catalog} (h : c.Consistent) :
    c.languages.Disjoint c.missing ∧
      (c.languages ++ c.missing).Perm (OrderedMap.names c.names) := by
  constructor
  · intro n hlanguage hmissing
    exact (mem_languages_iff.mp hlanguage).2 (List.mem_mergeSort.mp hmissing)
  · have hreserved : c.reserved.Perm
        ((OrderedMap.names c.names).filter (!!c.reserved.contains ·)) := by
      refine (List.perm_ext_iff_of_nodup h.reserved_nodup (h.names_nodup.filter _)).mpr fun n => ?_
      rw [List.mem_filter, Bool.not_not, List.contains_iff_mem]
      exact ⟨fun hn => ⟨h.named n hn, hn⟩, And.right⟩
    exact ((List.mergeSort_perm _ _).append ((List.mergeSort_perm _ _).trans hreserved)).trans
      (List.filter_append_perm _ _)

end Catalog

end Highlighter
