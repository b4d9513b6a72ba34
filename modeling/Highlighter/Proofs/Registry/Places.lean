import Highlighter.Proofs.Document.Unfolding
import Highlighter.Proofs.Registry.Growth

/-! # Names and their places

    While a catalog is only loaded into, every reserved name has a place of
    its own: a grammar without rules that no other name points to
    (`Catalog.Placed`).  Reading a document keeps that, since it reserves
    names with new places only.

    The view of a catalog leaves out the places: they are filled one day,
    whereas what else there is stays when a catalog grows
    (`Catalog.Grows.holds`). -/

namespace Highlighter

open Document (View)

namespace Catalog

/-- A number that is kept for a reserved name. -/
def IsPlace (c : Catalog) (id : GrammarId) : Prop := ∃ n ∈ c.reserved, c.target? n = some id

/-- A name that is in the table and not reserved. -/
def IsLanguage (c : Catalog) (n : String) : Prop :=
  n ∈ OrderedMap.names c.names ∧ n ∉ c.reserved

theorem mem_unreserved_iff {c : Catalog} {n : String} :
    n ∈ (OrderedMap.names c.names).filter (!c.reserved.contains ·) ↔ c.IsLanguage n := by
  rw [List.mem_filter, Bool.not_eq_true', ← Bool.not_eq_true, List.contains_iff_mem, IsLanguage]

theorem mem_languages_iff {c : Catalog} {n : String} : n ∈ c.languages ↔ c.IsLanguage n := by
  rw [languages, sorted, List.mem_mergeSort, mem_unreserved_iff]

theorem IsLanguage.grammarId? {c : Catalog} {n : String} (h : c.IsLanguage n) :
    c.grammarId? n = c.target? n := by
  rw [Catalog.grammarId?, if_neg fun hres => h.2 (List.contains_iff_mem.mp hres)]

/-- Names and places are apart: no name stands twice in a table, names
    point to grammars, and every reserved one has an empty grammar to
    itself. -/
structure Placed (c : Catalog) : Prop where
  names_nodup : (OrderedMap.names c.names).Nodup
  reserved_nodup : c.reserved.Nodup
  inside : ∀ n id, c.target? n = some id → id < c.grammars.length
  place : ∀ n ∈ c.reserved, ∃ id, c.target? n = some id ∧ c.grammars[id]? = some {}
  own : ∀ n ∈ c.reserved, ∀ m id, c.target? n = some id → c.target? m = some id → m = n

/-- The grammars of a catalog that are not places, and its names. -/
def view (c : Catalog) : View where
  holds id g := c.grammars[id]? = some g ∧ ¬ c.IsPlace id
  names n id := c.target? n = some id

theorem placed_empty : ({} : Catalog).Placed where
  names_nodup := .nil
  reserved_nodup := .nil
  inside _ _ h := nomatch h
  place _ h := nomatch h
  own _ h := nomatch h

theorem Placed.isPlace_lt {c : Catalog} (h : c.Placed) {id : GrammarId} (hid : c.IsPlace id) :
    id < c.grammars.length := by
  obtain ⟨n, -, hn⟩ := hid
  exact h.inside n id hn

/-- Names point to grammars and reserved ones are names, which is what
    taking back needs. -/
theorem Placed.mem_names {c : Catalog} (h : c.Placed) {n : String} (hn : n ∈ c.reserved) :
    n ∈ OrderedMap.names c.names := by
  obtain ⟨id, hid, -⟩ := h.place n hn
  exact OrderedMap.mem_names_of_get? hid

theorem Placed.lt_of_mem {c : Catalog} (h : c.Placed) {n : String × GrammarId}
    (hn : n ∈ c.names) : n.2 < c.grammars.length :=
  h.inside n.1 n.2 (OrderedMap.get?_of_mem h.names_nodup hn)

-- ── Reading ──────────────────────────────────────────────────────────────

theorem Placed.add {c : Catalog} (h : c.Placed) (g : Grammar) : (c.add g).2.Placed where
  names_nodup := h.names_nodup
  reserved_nodup := h.reserved_nodup
  inside n id hn := by
    rw [Catalog.add, List.length_append]
    exact Nat.lt_add_right _ (h.inside n id hn)
  place n hn := by
    obtain ⟨id, hid, hempty⟩ := h.place n hn
    refine ⟨id, hid, ?_⟩
    rw [Catalog.add, List.getElem?_append_left (h.inside n id hid), hempty]
  own := h.own

theorem target?_point (c : Catalog) (name : String) (id : GrammarId) (n : String) :
    (c.point name id).target? n = if n = name then some id else c.target? n := by
  rw [target?, point]
  split
  · next h => rw [h, OrderedMap.get?_set_self]
  · next h => exact OrderedMap.get?_set_of_ne h id c.names

/-- Linking a new name points it at a new grammar. -/
theorem target?_link {c : Catalog} {name : String} (h : c.target? name = none) (n : String) :
    (c.link name).2.target? n = if n = name then some c.grammars.length else c.target? n := by
  rw [link, h]
  exact target?_point c name c.grammars.length n

/-- A name that is linked for the first time gets a place of its own. -/
theorem Placed.link_new {c : Catalog} (h : c.Placed) {name : String}
    (hname : c.target? name = none) : (c.link name).2.Placed := by
  have hnew : name ∉ OrderedMap.names c.names := OrderedMap.get?_eq_none_iff.mp hname
  have htarget := target?_link hname
  have hlink := link_of_target?_eq_none hname
  constructor
  case names_nodup =>
    rw [hlink, ← OrderedMap.set_of_not_mem hnew]
    exact OrderedMap.nodup_names_set h.names_nodup name _
  case reserved_nodup =>
    rw [hlink]
    exact List.nodup_cons.mpr ⟨fun hn => hnew (h.mem_names hn), h.reserved_nodup⟩
  case inside =>
    intro n id hn
    rw [htarget] at hn
    rw [hlink, List.length_append]
    split at hn
    · cases hn
      exact Nat.lt_succ_self _
    · exact Nat.lt_add_right _ (h.inside n id hn)
  case place =>
    intro n hn
    rw [hlink] at hn
    rw [htarget, hlink]
    split
    · exact ⟨_, rfl, List.getElem?_concat_length ..⟩
    · next hne =>
        obtain ⟨id, hid, hempty⟩ := h.place n ((List.mem_cons.mp hn).resolve_left hne)
        refine ⟨id, hid, ?_⟩
        rw [List.getElem?_append_left (h.inside n id hid), hempty]
  case own =>
    intro n hn m id hnid hmid
    rw [hlink] at hn
    rw [htarget] at hnid hmid
    -- the new grammar has the new name alone
    have hlt : ∀ k, c.target? k ≠ some c.grammars.length := fun k hk =>
      absurd (h.inside k _ hk) (Nat.lt_irrefl _)
    split at hnid <;> rename_i hnname <;> split at hmid <;> rename_i hmname
    · rw [hmname, hnname]
    · cases hnid
      exact absurd hmid (hlt m)
    · cases hmid
      exact absurd hnid (hlt n)
    · exact h.own n ((List.mem_cons.mp hn).resolve_left hnname) m id hnid hmid

theorem Placed.link {c : Catalog} (h : c.Placed) (name : String) : (c.link name).2.Placed := by
  cases hname : c.target? name with
  | some id =>
      rw [link_of_target? hname]
      exact h
  | none => exact h.link_new hname

section Grows

variable {c c' : Catalog}

theorem Grows.length_le (h : c.Grows c') : c.grammars.length ≤ c'.grammars.length := by
  obtain ⟨gs, ns, hg, -⟩ := h
  rw [hg, List.length_append]
  omega

theorem Grows.getElem? (h : c.Grows c') {id : GrammarId} {g : Grammar}
    (hid : c.grammars[id]? = some g) : c'.grammars[id]? = some g := by
  obtain ⟨gs, ns, hg, -⟩ := h
  rw [hg, List.getElem?_append_left (List.getElem?_eq_some_iff.mp hid).1, hid]

theorem Grows.target? (h : c.Grows c') {n : String} {id : GrammarId}
    (hn : c.target? n = some id) : c'.target? n = some id := by
  obtain ⟨gs, ns, -, hnames, -⟩ := h
  rw [Catalog.target?] at hn ⊢
  rw [hnames, OrderedMap.get?_append, hn, Option.some_or]

/-- What a name that was not there points to is new. -/
theorem Grows.target?_of_not_mem (h : c.Grows c') {n : String} {id : GrammarId}
    (hnew : n ∉ OrderedMap.names c.names) (hn : c'.target? n = some id) :
    n ∈ c'.reserved ∧ c.grammars.length ≤ id := by
  obtain ⟨gs, ns, -, hnames, hres, hns⟩ := h
  rw [Catalog.target?, hnames, OrderedMap.get?_append, OrderedMap.get?_eq_none_iff.mpr hnew,
    Option.none_or] at hn
  refine ⟨?_, (hns _ (OrderedMap.mem_of_get? hn)).2⟩
  rw [hres]
  exact List.mem_append_left _ (List.mem_reverse.mpr (OrderedMap.mem_names_of_get? hn))

/-- A name that was there is as much reserved as before. -/
theorem Grows.mem_reserved_iff (h : c.Grows c') {n : String}
    (hn : n ∈ OrderedMap.names c.names) : n ∈ c'.reserved ↔ n ∈ c.reserved := by
  obtain ⟨gs, ns, -, -, hres, hns⟩ := h
  rw [hres, List.mem_append, List.mem_reverse]
  refine ⟨fun hmem => hmem.resolve_left fun hmem => ?_, .inr⟩
  obtain ⟨m, hm, rfl⟩ := List.mem_map.mp hmem
  exact (hns m hm).1 hn

theorem Grows.mem_names (h : c.Grows c') {n : String} (hn : n ∈ OrderedMap.names c.names) :
    n ∈ OrderedMap.names c'.names := by
  obtain ⟨gs, ns, -, hnames, -⟩ := h
  rw [hnames, OrderedMap.names, List.map_append]
  exact List.mem_append_left _ hn

/-- Growing makes no language. -/
theorem Grows.isLanguage_iff (h : c.Grows c') {n : String} : c'.IsLanguage n ↔ c.IsLanguage n := by
  by_cases hn : n ∈ OrderedMap.names c.names
  · rw [IsLanguage, IsLanguage, h.mem_reserved_iff hn]
    exact and_congr_left fun _ => iff_of_true (h.mem_names hn) hn
  · refine iff_of_false (fun hlang => ?_) fun hlang => hn hlang.1
    obtain ⟨id, hid⟩ := OrderedMap.exists_get?_of_mem_names hlang.1
    exact hlang.2 (h.target?_of_not_mem hn hid).1

theorem Grows.isPlace (h : c.Grows c') (hc : c.Placed) {id : GrammarId}
    (hid : id < c.grammars.length) (hplace : c'.IsPlace id) : c.IsPlace id := by
  obtain ⟨n, hn, htarget⟩ := hplace
  by_cases hold : n ∈ OrderedMap.names c.names
  · have hres := (h.mem_reserved_iff hold).mp hn
    obtain ⟨place, hplace, -⟩ := hc.place n hres
    rw [h.target? hplace] at htarget
    cases htarget
    exact ⟨n, hres, hplace⟩
  · exact absurd hid (Nat.not_lt.mpr (h.target?_of_not_mem hold htarget).2)

theorem Grows.holds (h : c.Grows c') (hc : c.Placed) {id : GrammarId} {g : Grammar}
    (hid : c.view.holds id g) : c'.view.holds id g := by
  refine ⟨h.getElem? hid.1, fun hplace => hid.2 ?_⟩
  exact h.isPlace hc (List.getElem?_eq_some_iff.mp hid.1).1 hplace

end Grows

end Catalog

end Highlighter
