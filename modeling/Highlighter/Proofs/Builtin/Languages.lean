import Highlighter.Proofs.Builtin.Documents
import Highlighter.Proofs.Registry.LoadingOrder

/-! # The builtin languages

    Making the builtin registry is loading its documents one after the
    other, where the plain language counts as a document without tokens
    (`Registry.exists_builtin`).  The documents mention no language, so the
    catalog is founded (`Builtin.founded_catalog`), and since their names
    are disjoint the languages do not depend on each other: every one of
    them tokenizes all texts as it does when its document alone is loaded
    (`Builtin.tokenize_eq`). -/

namespace Highlighter

/-- Loading documents that mention no language keeps a catalog founded. -/
theorem Catalog.Founded.loadEach {ds : List Document} (hds : ∀ d ∈ ds, d.tokens.SelfContained) :
    ∀ {c : Catalog}, c.Founded → (c.loadEach ds).Founded := by
  induction ds with
  | nil => exact fun h => h
  | cons d ds ih =>
      intro c h
      obtain ⟨hd, hds⟩ := List.forall_mem_cons.mp hds
      obtain ⟨id, c', hload, hc', -⟩ := h.load hd
      rw [Catalog.loadEach, List.foldl_cons, ← Catalog.loadEach, hload]
      exact ih hds hc'

theorem Catalog.loadEach_concat (c : Catalog) (ds : List Document) (d : Document) :
    c.loadEach (ds ++ [d]) = ((c.loadEach ds).load d).2 := loadEach_append_cons c ds [] d

/-- A document that mentions no language can be loaded. -/
theorem Document.loadable_of_selfContained {d : Document} (hd : d.tokens.SelfContained) :
    d.loadable = true := by
  obtain ⟨id, c, hload, -⟩ := Catalog.founded_empty.load hd
  exact Catalog.loadable_of_load Catalog.placed_empty hload

namespace Builtin

/-- The plain language as a document. -/
def plain : Document := { name := plainName, aliases := ["text", "txt"], tokens := {} }

/-- The documents of all builtin languages. -/
def languages : List Document := documents ++ [plain]

/-- The catalog of the builtin languages. -/
def catalog : Catalog := ({} : Catalog).loadEach languages

theorem plain_mem_languages : plain ∈ languages :=
  List.mem_append_right _ (List.mem_singleton_self plain)

theorem selfContained_of_mem_languages : ∀ d ∈ languages, d.tokens.SelfContained := by
  intro d hd
  rcases List.mem_append.mp hd with hd | hd
  · exact selfContained_of_mem_documents d hd
  · obtain rfl := List.mem_singleton.mp hd
    exact ⟨trivial, trivial⟩

theorem loadable_of_mem_languages : ∀ d ∈ languages, d.loadable = true :=
  fun d hd => Document.loadable_of_selfContained (selfContained_of_mem_languages d hd)

theorem founded_catalog : catalog.Founded :=
  Catalog.founded_empty.loadEach selfContained_of_mem_languages

/-- Where all documents can be loaded, they change the catalog alone. -/
theorem loadAll_eq {ds : List Document} (hds : ∀ d ∈ ds, d.loadable = true) :
    ∀ r : Registry, loadAll r ds = .ok { r with catalog := r.catalog.loadEach ds } := by
  induction ds with
  | nil => exact fun _ => rfl
  | cons d ds ih =>
      intro r
      obtain ⟨hd, hds⟩ := List.forall_mem_cons.mp hds
      obtain ⟨id, c', hload⟩ := Catalog.load_of_loadable hd r.catalog
      rw [loadAll, Catalog.loadEach, List.foldl_cons, ← Catalog.loadEach, Registry.load, hload]
      exact ih hds _

/-- What the builtin documents leave behind. -/
theorem settles_catalog : catalog.Settles languages := by
  have hdisjoint : languages.Pairwise fun d e => ∀ n ∈ d.given, n ∉ e.given := by decide +kernel
  exact Catalog.settles_loadEach loadable_of_mem_languages
    (hdisjoint.imp fun h n hn hn' => h n hn hn')

/-- A builtin language tokenizes every text as it does when its document
    alone is loaded. -/
theorem tokenize_eq {d : Document} (hd : d ∈ languages) {n : String} (hn : n ∈ d.given) :
    ∃ id alone, catalog.grammarId? n = some id ∧
      (({} : Catalog).load d).2.grammarId? n = some alone ∧
      ∀ text, Tokenizer.tokenize catalog.grammars id text =
        Tokenizer.tokenize (({} : Catalog).load d).2.grammars alone text := by
  have halone : (({} : Catalog).loadEach [d]).Settles [d] :=
    Catalog.settles_loadEach (List.forall_mem_singleton.mpr (loadable_of_mem_languages d hd))
      (List.pairwise_singleton _ d)
  have hmentions : ∀ d ∈ languages, d.tokens.mentions = [] := by decide +kernel
  have hclosed : Catalog.ClosedWithin languages [d] := by
    refine ⟨List.cons_subset.mpr ⟨hd, List.nil_subset _⟩, fun e he m hm => ?_⟩
    rw [List.mem_singleton.mp he, hmentions d hd] at hm
    exact absurd hm List.not_mem_nil
  have hlanguage := (settles_catalog.languages n).mpr ⟨d, hd, hn⟩
  have hlanguage' := (halone.languages n).mpr ⟨d, List.mem_singleton_self d, hn⟩
  obtain ⟨id, hid⟩ := OrderedMap.exists_get?_of_mem_names hlanguage.1
  obtain ⟨alone, halone'⟩ := OrderedMap.exists_get?_of_mem_names hlanguage'.1
  refine ⟨id, alone, hlanguage.grammarId?.trans hid, hlanguage'.grammarId?.trans halone', ?_⟩
  exact fun text => (settles_catalog.tokenize_eq halone hclosed hid halone' text).symm

/-- Whether a text can be tokenized with a language when its document alone
    is loaded. -/
def tokenizesAlone (d : Document) (n text : String) : Bool :=
  let c := (({} : Catalog).load d).2
  (c.grammarId? n).any fun id => (Tokenizer.tokenize c.grammars id text).toBool

theorem exists_tokens_of_alone {d : Document} (hd : d ∈ languages) {n : String} (hn : n ∈ d.given)
    (text : String) (h : tokenizesAlone d n text = true) :
    ∃ id fs, catalog.grammarId? n = some id ∧
      Tokenizer.tokenize catalog.grammars id text = .ok fs := by
  obtain ⟨id, alone, hid, halone, htokenize⟩ := tokenize_eq hd hn
  rw [tokenizesAlone, halone, Option.any_some, ← htokenize text] at h
  cases hfs : Tokenizer.tokenize catalog.grammars id text with
  | error fault =>
      rw [hfs] at h
      exact nomatch h
  | ok fs => exact ⟨id, fs, hid, hfs⟩

end Builtin

/-- The builtin registry can be made: it has the builtin languages, and one
    hook. -/
theorem Registry.exists_builtin : ∃ r, Registry.builtin = .ok r ∧ r.catalog = Builtin.catalog ∧
    r.hooks = Hooks.addWrap {} Builtin.entityTitle ∧ r.renderer = {} := by
  have hbuiltin : ∀ c, Builtin.loadAll {} Builtin.documents = .ok { catalog := c } →
      ∃ r, Registry.builtin = .ok r ∧ r.catalog = (c.addPlain ["text", "txt"]).2 ∧
        r.hooks = Hooks.addWrap {} Builtin.entityTitle ∧ r.renderer = {} := by
    intro c h
    rw [Registry.builtin, h]
    exact ⟨_, rfl, rfl, rfl, rfl⟩
  have hload := Builtin.loadAll_eq
    (fun d hd => Builtin.loadable_of_mem_languages d (List.mem_append_left _ hd)) ({} : Registry)
  obtain ⟨r, hr, hcatalog, hrest⟩ := hbuiltin _ hload
  have hfounded := Catalog.founded_empty.loadEach Builtin.selfContained_of_mem_documents
  refine ⟨r, hr, hcatalog.trans ?_, hrest⟩
  rw [hfounded.addPlain_eq_load, Builtin.catalog, Builtin.languages, Catalog.loadEach_concat,
    Builtin.plain]

end Highlighter
