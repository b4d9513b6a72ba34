import Highlighter.Proofs.Registry.LateBinding
import Highlighter.Proofs.Tokenizer.Depth
import Mathlib.Data.String.Basic

/-! # The order of loading

    Documents whose names are disjoint may be loaded in any order.  The
    numbers of the grammars, and the places left over, depend on the
    order, but what can be told from outside does not.

    What the documents leave behind is said in `Catalog.Settles` without any
    order: each of them has a grammar under all its names, in which every
    link is to what its name points to, and there are no names but those
    given or mentioned.  Two such catalogs have the same languages and lack
    the same (`Settles.languages_eq`, `Settles.missing_eq`), and what their
    references have in common is a bisimulation (`Settles.bisimulation`); so
    it is for documents among others that mention none of these. -/

namespace Highlighter

open Document (TokensUnfold RulesUnfold RestUnfolds Common Reference)

-- ── Lists in order ───────────────────────────────────────────────────────

/-- Sorting forgets the order. -/
theorem sorted_eq_of_perm {ss ts : List String} (h : ss.Perm ts) : sorted ss = sorted ts := by
  have hle : ∀ a b : String, (!decide (b < a)) = true ↔ a ≤ b := by
    intro a b
    rw [Bool.not_eq_true', decide_eq_false_iff_not, not_lt]
  have hsorted : ∀ us : List String, (sorted us).Pairwise fun a b => (!decide (b < a)) = true := by
    refine List.pairwise_mergeSort (fun a b c hab hbc => ?_) fun a b => ?_
    · rw [hle] at hab hbc ⊢
      exact hab.trans hbc
    · rw [Bool.or_eq_true, hle, hle]
      exact le_total a b
  refine List.Perm.eq_of_pairwise (fun a b _ _ hab hba => ?_) (hsorted ss) (hsorted ts) ?_
  · rw [hle] at hab hba
    exact hab.antisymm hba
  · exact ((List.mergeSort_perm ss _).trans h).trans (List.mergeSort_perm ts _).symm

/-- A name is given once at most by documents whose names are disjoint. -/
theorem timesGiven_le_one {ds : List Document}
    (h : ds.Pairwise fun d e => d.given.Disjoint e.given) (n : String) : timesGiven n ds ≤ 1 := by
  induction ds with
  | nil => exact Nat.zero_le 1
  | cons d ds ih =>
      obtain ⟨hd, hds⟩ := List.pairwise_cons.mp h
      rw [timesGiven_cons]
      split
      · next hgives =>
          have hnone : timesGiven n ds = 0 := by
            refine List.countP_eq_zero.mpr fun e he heg => ?_
            rw [Document.gives, Bool.and_eq_true, List.contains_iff_mem] at hgives heg
            exact hd e he hgives.2 heg.2
          omega
      · exact ih hds

namespace Catalog

-- ── What documents leave behind ──────────────────────────────────────────

/-- The catalog has the grammars of documents, each under all its names,
    with every link to what its name points to, and no other names than
    those mentioned or given; the languages are those given. -/
structure Settles (c : Catalog) (ds : List Document) : Prop where
  placed : c.Placed
  grammar : ∀ d ∈ ds, ∃ id g, (∀ n ∈ d.given, c.target? n = some id) ∧
    c.grammars[id]? = some g ∧ TokensUnfold c.view d.tokens g
  names : ∀ n, n ∈ OrderedMap.names c.names ↔
    ∃ d ∈ ds, n ∈ d.tokens.mentions ∨ n ∈ d.given
  languages : ∀ n, c.IsLanguage n ↔ ∃ d ∈ ds, n ∈ d.given

variable {c c' : Catalog} {ds ds' : List Document}

/-- The order of the documents does not matter. -/
theorem Settles.perm (h : c.Settles ds) (hperm : ds.Perm ds') : c.Settles ds' where
  placed := h.placed
  grammar d hd := h.grammar d (hperm.mem_iff.mpr hd)
  names n := by simp only [h.names, hperm.mem_iff]
  languages n := by simp only [h.languages, hperm.mem_iff]

/-- Loading documents whose names are disjoint. -/
theorem settles_loadEach (hds : ∀ d ∈ ds, d.loadable = true)
    (hdisjoint : ds.Pairwise fun d e => d.given.Disjoint e.given) :
    (({} : Catalog).loadEach ds).Settles ds where
  placed := placed_empty.loadEach ds
  grammar := by
    intro d hd
    obtain ⟨ds₁, ds₂, rfl⟩ := List.append_of_mem hd
    obtain ⟨id, c', hload⟩ := load_of_loadable (hds d hd) (({} : Catalog).loadEach ds₁)
    have honce : ∀ n, timesGiven n ds₁ + timesGiven n (d :: ds₂) ≤ 1 := by
      intro n
      have := timesGiven_le_one hdisjoint n
      rw [timesGiven, List.countP_append] at this
      exact this
    have hcarries : (({} : Catalog).loadEach (ds₁ ++ d :: ds₂)).Carries d.tokens id
        fun n => min 1 (timesGiven n ds₁) + timesGiven n (d :: ds₂) := carries_of_loadEach hload
    obtain ⟨g, hholds, hunfolds⟩ := hcarries
    refine ⟨id, g, fun n hn => ?_, hholds.1, ?_⟩
    · have := honce n
      exact (link_of_loadEach hload hn).target?_iff.mpr (by omega)
    · refine hunfolds.mono (fun _ _ h => h) fun n x hx => ?_
      have hle : min 1 (timesGiven n ds₁) + timesGiven n (d :: ds₂) ≤ 1 := by
        have := honce n
        omega
      exact (Link.target?_iff hx).mpr hle
  names n := by
    rw [mem_names_loadEach hds placed_empty]
    exact or_iff_right fun hn => nomatch hn
  languages n := by
    rw [isLanguage_loadEach_iff, timesGiven, List.countP_pos_iff]
    refine exists_congr fun d => and_congr_right fun hd => ?_
    rw [Document.gives, hds d hd, Bool.true_and, List.contains_iff_mem]

-- ── Two such catalogs ────────────────────────────────────────────────────

theorem mem_reserved_iff (hc : c.Placed) {n : String} :
    n ∈ c.reserved ↔ n ∈ OrderedMap.names c.names ∧ ¬ c.IsLanguage n := by
  rw [IsLanguage]
  have := hc.mem_names (n := n)
  tauto

/-- Both have the same languages. -/
theorem Settles.languages_eq (h : c.Settles ds) (h' : c'.Settles ds) :
    c'.languages = c.languages := by
  refine sorted_eq_of_perm ((List.perm_ext_iff_of_nodup
    (h'.placed.names_nodup.filter _) (h.placed.names_nodup.filter _)).mpr fun n => ?_)
  rw [mem_unreserved_iff, mem_unreserved_iff, h.languages, h'.languages]

/-- Both lack the same languages. -/
theorem Settles.missing_eq (h : c.Settles ds) (h' : c'.Settles ds) : c'.missing = c.missing := by
  refine sorted_eq_of_perm ((List.perm_ext_iff_of_nodup
    h'.placed.reserved_nodup h.placed.reserved_nodup).mpr fun n => ?_)
  rw [mem_reserved_iff h.placed, mem_reserved_iff h'.placed, h.languages, h'.languages, h.names,
    h'.names]

/-- Of documents among others: what they mention and any of the others
    gives, they give themselves. -/
structure ClosedWithin (ds ds' : List Document) : Prop where
  subset : ds' ⊆ ds
  mentions : ∀ d ∈ ds', ∀ n ∈ d.tokens.mentions, (∃ e ∈ ds, n ∈ e.given) → ∃ e ∈ ds', n ∈ e.given

theorem ClosedWithin.refl (ds : List Document) : ClosedWithin ds ds :=
  ⟨fun _ h => h, fun _ _ _ _ h => h⟩

/-- What a reference stands for after loading documents, and after loading
    closed ones among them, is written alike. -/
theorem Settles.bisimulation (h : c.Settles ds) (h' : c'.Settles ds')
    (hclosed : ClosedWithin ds ds') :
    Bisimulation c.grammars c'.grammars (Common c.view c'.view) := by
  rintro a b ⟨r, ha, hb⟩
  suffices hboth : ∃ g g', c.grammars[a]? = some g ∧ c'.grammars[b]? = some g' ∧
      g.Alike (Common c.view c'.view) g' by
    obtain ⟨g, g', hg, hg', halike⟩ := hboth
    rw [hg, hg']
    exact ⟨.some halike, fun hnone => nomatch hnone⟩
  cases r with
  | inline entries rest =>
      rw [Reference.Unfolds] at ha hb
      obtain ⟨_, g, hrules, hrest, hg⟩ := ha
      obtain ⟨_, g', hrules', hrest', hg'⟩ := hb
      have hread : TokensUnfold c.view ⟨entries, rest⟩ g := ⟨_, hrules, hrest⟩
      have hread' : TokensUnfold c'.view ⟨entries, rest⟩ g' := ⟨_, hrules', hrest'⟩
      exact ⟨g, g', hg.1, hg'.1, hread.alike hread'⟩
  | language name =>
      rw [Reference.Unfolds] at ha hb
      change c.target? name = some a at ha
      change c'.target? name = some b at hb
      by_cases hgiven : ∃ d ∈ ds', name ∈ d.given
      · obtain ⟨d, hd, hname⟩ := hgiven
        obtain ⟨id, g, hid, hg, hread⟩ := h.grammar d (hclosed.subset hd)
        obtain ⟨id', g', hid', hg', hread'⟩ := h'.grammar d hd
        obtain rfl := Option.some.inj (ha.symm.trans (hid name hname))
        obtain rfl := Option.some.inj (hb.symm.trans (hid' name hname))
        exact ⟨g, g', hg, hg', hread.alike hread'⟩
      · -- a language that is missing has an empty grammar
        have hplace : ∀ (e : Catalog) es x, e.Settles es → (¬ ∃ d ∈ es, name ∈ d.given) →
            e.target? name = some x → e.grammars[x]? = some {} := by
          intro e es x he hes hx
          have hres : name ∈ e.reserved := (mem_reserved_iff he.placed).mpr
            ⟨OrderedMap.mem_names_of_get? hx, fun hlang => hes ((he.languages name).mp hlang)⟩
          obtain ⟨place, hplace, hempty⟩ := he.placed.place name hres
          obtain rfl := Option.some.inj (hx.symm.trans hplace)
          exact hempty
        have hother : ¬ ∃ d ∈ ds, name ∈ d.given := by
          obtain ⟨d, hd, hname⟩ := (h'.names name).mp (OrderedMap.mem_names_of_get? hb)
          refine fun hds => hgiven ?_
          rcases hname with hname | hname
          · exact hclosed.mentions d hd name hname hds
          · exact ⟨d, hd, hname⟩
        exact ⟨{}, {}, hplace c ds a h hother ha, hplace c' ds' b h' hgiven hb, .nil⟩

/-- Every name that is there after loading closed documents among others
    tokenizes every text to the same with the others. -/
theorem Settles.tokenize_eq (h : c.Settles ds) (h' : c'.Settles ds') (hclosed : ClosedWithin ds ds')
    {n : String} {id id' : GrammarId} (hid : c.target? n = some id)
    (hid' : c'.target? n = some id') (text : String) :
    Tokenizer.tokenize c'.grammars id' text = Tokenizer.tokenize c.grammars id text := by
  have hcommon : Common c.view c'.view id id' := by
    refine ⟨.language n, ?_, ?_⟩
    · rw [Reference.Unfolds]
      exact hid
    · rw [Reference.Unfolds]
      exact hid'
  exact (Tokenizer.tokenize_eq_of_bisimulation (h.bisimulation h' hclosed) hcommon text).symm

end Catalog

namespace Registry

/-- Loads documents one after the other, up to the first that cannot be
    loaded. -/
def loadAll (r : Registry) : List Document → Except Error Registry
  | [] => .ok r
  | d :: ds =>
      match r.load d with
      | (.ok _, r') => r'.loadAll ds
      | (.error e, _) => .error e

theorem loadAll_of_loadable {ds : List Document} (hds : ∀ d ∈ ds, d.loadable = true)
    (r : Registry) : r.loadAll ds = .ok (r.loadEach ds) := by
  induction ds generalizing r with
  | nil => rfl
  | cons d ds ih =>
      obtain ⟨hd, hds⟩ := List.forall_mem_cons.mp hds
      obtain ⟨id, c', hload⟩ := Catalog.load_of_loadable hd r.catalog
      rw [loadAll, loadEach, List.foldl_cons, ← loadEach, load, hload]
      exact ih hds _

theorem loadable_of_loadAll {ds : List Document} {r r' : Registry} (hr : r.catalog.Placed)
    (h : r.loadAll ds = .ok r') : ∀ d ∈ ds, d.loadable = true := by
  induction ds generalizing r with
  | nil => exact fun _ hd => nomatch hd
  | cons d ds ih =>
      rw [loadAll] at h
      rcases hload : r.load d with ⟨result, r₁⟩
      rw [hload] at h
      cases result with
      | error e => exact nomatch h
      | ok id =>
          have hcatalog := load_catalog hload
          have hplaced := hr.load d
          rw [hcatalog] at hplaced
          exact List.forall_mem_cons.mpr
            ⟨Catalog.loadable_of_load hr hcatalog, ih hplaced h⟩

/-- Documents whose names are disjoint may be loaded in any order: if they
    can be loaded in one, they can be in another, and then there are the
    same languages, the same are missing, and every language tokenizes
    every text to the same. -/
theorem loadAll_perm {ds ds' : List Document} {r : Registry}
    (hdisjoint : ds.Pairwise fun d e => d.given.Disjoint e.given) (hperm : ds.Perm ds')
    (h : ({} : Registry).loadAll ds = .ok r) :
    ∃ r', ({} : Registry).loadAll ds' = .ok r' ∧
      r'.catalog.languages = r.catalog.languages ∧ r'.catalog.missing = r.catalog.missing ∧
      ∀ n ∈ r.catalog.languages, ∃ id id', r.catalog.grammarId? n = some id ∧
        r'.catalog.grammarId? n = some id' ∧
        ∀ text, r'.tokenize id' text = r.tokenize id text := by
  have hds : ∀ d ∈ ds, d.loadable = true := loadable_of_loadAll Catalog.placed_empty h
  have hds' : ∀ d ∈ ds', d.loadable = true := fun d hd => hds d (hperm.mem_iff.mpr hd)
  rw [loadAll_of_loadable hds] at h
  obtain rfl := Except.ok.inj h
  have hdisjoint' : ds'.Pairwise fun d e => d.given.Disjoint e.given :=
    hdisjoint.perm hperm fun hde => hde.symm
  have hsettles := Catalog.settles_loadEach hds hdisjoint
  have hsettles' := (Catalog.settles_loadEach hds' hdisjoint').perm hperm.symm
  have hcatalog := loadEach_catalog {}
  rw [← hcatalog] at hsettles hsettles'
  refine ⟨_, loadAll_of_loadable hds' {}, hsettles.languages_eq hsettles',
    hsettles.missing_eq hsettles', fun n hn => ?_⟩
  have hlang := Catalog.mem_languages_iff.mp hn
  have hlang' := (hsettles'.languages n).mpr ((hsettles.languages n).mp hlang)
  obtain ⟨id, hid⟩ := OrderedMap.exists_get?_of_mem_names hlang.1
  obtain ⟨id', hid'⟩ := OrderedMap.exists_get?_of_mem_names hlang'.1
  refine ⟨id, id', hlang.grammarId?.trans hid, hlang'.grammarId?.trans hid', fun text => ?_⟩
  exact hsettles.tokenize_eq hsettles' (.refl ds) hid hid' text

/-- Two documents that refer to each other, one of them by a further name. -/
theorem loadAll_perm_of_mutual :
    let ds : List Document := [.wordsOf "c" "a" [], .wordsOf "a" "b" ["c"]]
    let ds' : List Document := [.wordsOf "a" "b" ["c"], .wordsOf "c" "a" []]
    let r := ({} : Registry).loadEach ds
    ds.Pairwise (fun d e => d.given.Disjoint e.given) ∧ ds.Perm ds' ∧
      ({} : Registry).loadAll ds = .ok r ∧
      ∃ r', ({} : Registry).loadAll ds' = .ok r' ∧
        r'.catalog.languages = r.catalog.languages ∧ r'.catalog.missing = r.catalog.missing ∧
        ∀ n ∈ r.catalog.languages, ∃ id id', r.catalog.grammarId? n = some id ∧
          r'.catalog.grammarId? n = some id' ∧
          ∀ text, r'.tokenize id' text = r.tokenize id text := by
  intro ds ds' r
  have hdisjoint : ds.Pairwise fun d e => d.given.Disjoint e.given := by
    simp [ds, Document.wordsOf, Document.given]
  have hperm : ds.Perm ds' := .swap _ _ _
  have hload : ({} : Registry).loadAll ds = .ok r := rfl
  exact ⟨hdisjoint, hperm, hload, loadAll_perm hdisjoint hperm hload⟩

end Registry

end Highlighter
