import Highlighter.Proofs.Registry.Loading

/-! # What links come to point to

    A grammar document refers to languages by name; in the catalog there
    are only numbers.  `Link` keeps track of a reference that was written
    as a name, by how often the name has been given to a grammar.  As long
    as it was not, the reference is to the place of the name.  When the
    name is given, the reference follows it to the grammar.  When the name
    is given anew it points elsewhere, and the reference stays where it
    was: only what refers to a place is ever turned.

    So a link is to what its name points to if and only if the name was
    given at most once, where all that happened before the link was made
    counts as once. -/

namespace Highlighter

open Document (View TokensUnfold)

namespace Catalog

/-- A reference to `x` that was written as the name `n`, the name having
    been given `k` times while the reference was there, or once before. -/
def Link (c : Catalog) (n : String) (x : GrammarId) : Nat → Prop
  | 0 => n ∈ c.reserved ∧ c.target? n = some x
  | 1 => n ∉ c.reserved ∧ c.target? n = some x
  | _ + 2 => (∃ y, y ≠ x ∧ c.target? n = some y) ∧ x < c.grammars.length ∧ ¬ c.IsPlace x

section Link

variable {l c c' : Catalog} {g : Grammar} {id : GrammarId} {names : List String} {n : String}
  {x : GrammarId} {k : Nat}

/-- The name still points to where the link does, unless it was given
    anew. -/
theorem Link.target?_iff (h : c.Link n x k) : c.target? n = some x ↔ k ≤ 1 := by
  match k, h with
  | 0, h => exact iff_of_true h.2 (Nat.zero_le 1)
  | 1, h => exact iff_of_true h.2 (Nat.le_refl 1)
  | k + 2, ⟨⟨y, hne, hy⟩, _⟩ =>
      refine iff_of_false (fun hx => hne ?_) (by omega)
      rw [hy] at hx
      exact Option.some.inj hx

/-- Once its name is given a link is to a grammar, not to a place. -/
theorem Link.settled (hc : c.Placed) (h : c.Link n x (k + 1)) :
    x < c.grammars.length ∧ ¬ c.IsPlace x := by
  match k, h with
  | 0, ⟨hres, hx⟩ =>
      refine ⟨hc.inside n x hx, fun ⟨m, hm, hmx⟩ => hres ?_⟩
      rw [hc.own m hm n x hmx hx]
      exact hm
  | _ + 1, h => exact h.2

/-- Reading documents changes no link. -/
theorem Link.grows (hc : c.Placed) (hgrows : c.Grows c') (h : c.Link n x k) : c'.Link n x k := by
  match k, h with
  | 0, ⟨hres, hx⟩ =>
      exact ⟨(hgrows.mem_reserved_iff (hc.mem_names hres)).mpr hres, hgrows.target? hx⟩
  | 1, ⟨hres, hx⟩ =>
      have hn := OrderedMap.mem_names_of_get? hx
      exact ⟨fun h => hres ((hgrows.mem_reserved_iff hn).mp h), hgrows.target? hx⟩
  | _ + 2, ⟨⟨y, hne, hy⟩, hlt, hplace⟩ =>
      exact ⟨⟨y, hne, hgrows.target? hy⟩, Nat.lt_of_lt_of_le hlt hgrows.length_le,
        fun h => hplace (hgrows.isPlace hc hlt h)⟩

/-- A link to a place follows its name when that is given; any other link
    stays. -/
theorem Link.given (hl : l.Placed) (hgiven : Given l g id names c) (h : l.Link n x k) :
    c.Link n (l.turn names id x) (k + if n ∈ names then 1 else 0) := by
  cases k with
  | zero =>
      obtain ⟨hres, hx⟩ := h
      by_cases hn : n ∈ names
      · rw [if_pos hn, turn_of_place hn hres hx]
        exact ⟨fun h => (hgiven.mem_reserved_iff.mp h).2 hn, hgiven.here n hn⟩
      · -- the place is not that of a name that is given
        have hturn : l.turn names id x = x := by
          refine turn_of_not_place (fun m hm hmres hmx => hn ?_) id
          rw [hl.own m hmres n x hmx hx]
          exact hm
        rw [if_neg hn, hturn]
        exact ⟨hgiven.mem_reserved_iff.mpr ⟨hres, hn⟩, (hgiven.elsewhere n hn).trans hx⟩
  | succ k =>
      obtain ⟨hlt, hplace⟩ := h.settled hl
      obtain ⟨hne, hturn, hplace'⟩ := hgiven.not_free hlt hplace
      have hlt' := Nat.lt_of_lt_of_le hlt hgiven.length_le
      rw [hturn]
      by_cases hn : n ∈ names
      · rw [if_pos hn]
        exact ⟨⟨id, Ne.symm hne, hgiven.here n hn⟩, hlt', hplace'⟩
      · rw [if_neg hn]
        match k, h with
        | 0, ⟨hres, hx⟩ =>
            exact ⟨fun h => hres (hgiven.mem_reserved_iff.mp h).1, (hgiven.elsewhere n hn).trans hx⟩
        | _ + 1, ⟨⟨y, hne, hy⟩, _⟩ =>
            exact ⟨⟨y, hne, (hgiven.elsewhere n hn).trans hy⟩, hlt', hplace'⟩

/-- What a name points to once it is given, by how often it is given anew. -/
theorem Link.loadEach (hc : c.Placed) (h : c.Link n x (k + 1)) (ds : List Document) :
    (c.loadEach ds).Link n x (k + 1 + timesGiven n ds) := by
  have hkeeps := loadEach_keeps (P := fun c k => 1 ≤ k n ∧ c.Link n x (k n))
    (fun c l k hc hl h => ⟨h.1, h.2.grows hc hl⟩)
    (fun l c g id names k hl hgiven h => by
      obtain ⟨m, hm⟩ := Nat.exists_eq_add_of_le' h.1
      have hlink := h.2
      rw [hm] at hlink
      obtain ⟨hlt, hplace⟩ := hlink.settled hl
      have := h.2.given hl hgiven
      rw [(hgiven.not_free hlt hplace).2.1] at this
      exact ⟨Nat.le_add_right_of_le h.1, this⟩)
    hc (k := fun _ => k + 1) ⟨Nat.le_add_left 1 k, h⟩ ds
  exact hkeeps.2

end Link

-- ── The links of a document ──────────────────────────────────────────────

/-- The grammars of a catalog, and the links to names that have been given
    as often as `k` says. -/
def linked (c : Catalog) (k : String → Nat) : View where
  holds := c.view.holds
  names n x := c.Link n x (k n)

/-- The grammar with the number `id` is that of tokens, with all the links
    in it. -/
def Carries (c : Catalog) (t : Document.Tokens) (id : GrammarId) (k : String → Nat) : Prop :=
  ∃ g, c.view.holds id g ∧ TokensUnfold (c.linked k) t g

section Carries

variable {l c c' : Catalog} {g : Grammar} {id new : GrammarId} {names : List String}
  {t : Document.Tokens} {k : String → Nat}

theorem Carries.grows (hc : c.Placed) (hgrows : c.Grows c') (h : c.Carries t id k) :
    c'.Carries t id k := by
  obtain ⟨g, hholds, hunfolds⟩ := h
  exact ⟨g, hgrows.holds hc hholds,
    hunfolds.mono (fun _ _ h => hgrows.holds hc h) fun _ _ h => Link.grows hc hgrows h⟩

/-- The view in which names are given is the one before, with the
    references turned. -/
theorem linked_maps (hl : l.Placed) (hgiven : Given l g new names c) :
    (l.linked k).Maps (c.linked fun n => k n + if n ∈ names then 1 else 0)
      (l.turn names new) where
  holds _ _ h := hgiven.holds h
  names _ _ h := Link.given hl hgiven h

theorem Carries.given (hl : l.Placed) (hgiven : Given l g new names c) (h : l.Carries t id k) :
    c.Carries t id fun n => k n + if n ∈ names then 1 else 0 := by
  obtain ⟨g', hholds, hunfolds⟩ := h
  have hturn := (hgiven.not_free (List.getElem?_eq_some_iff.mp hholds.1).1 hholds.2).2.1
  have hholds' := hgiven.holds hholds
  rw [hturn] at hholds'
  exact ⟨_, hholds', hunfolds.map (linked_maps hl hgiven)⟩

/-- A document that was loaded has all its links. -/
theorem carries_of_load (hc : c.Placed) {d : Document} (h : c.load d = (.ok id, c'))
    (hk : ∀ n, c.IsLanguage n ∧ k n = 1 ∨ ¬ c.IsLanguage n ∧ k n = 0) :
    c'.Carries d.tokens id fun n => k n + if n ∈ d.given then 1 else 0 := by
  obtain ⟨l, g, hgrows, hl, -, hunfolds, hgiven⟩ := load_given hc h
  have hlinks : ∀ n x, l.view.names n x → l.Link n x (k n) := by
    intro n x hx
    have hn := OrderedMap.mem_names_of_get? hx
    rcases hk n with ⟨hlang, hkn⟩ | ⟨hlang, hkn⟩
    · rw [hkn]
      exact ⟨(hgrows.isLanguage_iff.mpr hlang).2, hx⟩
    · rw [hkn]
      refine ⟨?_, hx⟩
      by_contra hres
      exact hlang (hgrows.isLanguage_iff.mp ⟨hn, hres⟩)
  have hread : TokensUnfold (l.linked k) d.tokens g :=
    hunfolds.mono (fun _ _ h => h) hlinks
  exact ⟨_, hgiven.holds_new, hread.map (linked_maps hl hgiven)⟩

/-- Loading documents keeps the links, and counts how often each name is
    given. -/
theorem Carries.loadEach (hc : c.Placed) (h : c.Carries t id k) (ds : List Document) :
    (c.loadEach ds).Carries t id fun n => k n + timesGiven n ds :=
  loadEach_keeps (P := fun c k => c.Carries t id k) (fun _ _ _ hc hl h => h.grows hc hl)
    (fun _ _ _ _ _ _ hl hgiven h => h.given hl hgiven) hc h ds

/-- A document among others that are loaded has all its links, to names
    given before, by itself and after. -/
theorem carries_of_loadEach {ds₁ ds₂ : List Document} {d : Document}
    (h : (({} : Catalog).loadEach ds₁).load d = (.ok id, c')) :
    (({} : Catalog).loadEach (ds₁ ++ d :: ds₂)).Carries d.tokens id
      fun n => min 1 (timesGiven n ds₁) + timesGiven n (d :: ds₂) := by
  have hc := placed_empty.loadEach ds₁
  have hk : ∀ n, (({} : Catalog).loadEach ds₁).IsLanguage n ∧ min 1 (timesGiven n ds₁) = 1 ∨
      ¬ (({} : Catalog).loadEach ds₁).IsLanguage n ∧ min 1 (timesGiven n ds₁) = 0 := by
    intro n
    rw [isLanguage_loadEach_iff]
    omega
  have hplaced := hc.load d
  rw [h] at hplaced
  have hrun := (carries_of_load hc h hk).loadEach hplaced ds₂
  have hcount : ∀ n, min 1 (timesGiven n ds₁) + timesGiven n (d :: ds₂)
      = min 1 (timesGiven n ds₁) + (if n ∈ d.given then 1 else 0) + timesGiven n ds₂ := by
    intro n
    rw [timesGiven_cons, Document.gives, loadable_of_load hc h, Bool.true_and]
    simp only [List.contains_iff_mem, Nat.add_assoc, Nat.add_comm (timesGiven n ds₂)]
  rw [loadEach_append_cons, h, funext hcount]
  exact hrun

/-- A name that a document among others gives points to its grammar, unless
    it is given anew after. -/
theorem link_of_loadEach {ds₁ ds₂ : List Document} {d : Document}
    (h : (({} : Catalog).loadEach ds₁).load d = (.ok id, c')) {n : String} (hn : n ∈ d.given) :
    (({} : Catalog).loadEach (ds₁ ++ d :: ds₂)).Link n id (timesGiven n (d :: ds₂)) := by
  have hc := placed_empty.loadEach ds₁
  have hplaced := hc.load d
  obtain ⟨l, g, -, hl, -, -, hgiven⟩ := load_given hc h
  have hlink : c'.Link n id 1 :=
    ⟨fun hres => (hgiven.mem_reserved_iff.mp hres).2 hn, hgiven.here n hn⟩
  have hgives : d.gives n = true := by
    rw [Document.gives, loadable_of_load hc h, Bool.true_and, List.contains_iff_mem]
    exact hn
  rw [h] at hplaced
  rw [loadEach_append_cons, h, timesGiven_cons, hgives, if_pos rfl, Nat.add_comm]
  exact hlink.loadEach hplaced ds₂

end Carries

end Catalog

namespace Registry

/-- The grammars of a registry, and the links that are to what their name
    points to if and only if the name is one of the `current`. -/
def links (r : Registry) (current : String → Prop) : View where
  holds id g := r.catalog.grammars[id]? = some g
  names n x := r.catalog.target? n = some x ↔ current n

/-- Documents are loaded one after the other.  In the end the links of one
    of them are to what their names point to if and only if the name was
    given at most once by it and those after it, and not at all if it was
    given before. -/
theorem link_current_iff (ds₁ ds₂ : List Document) {d : Document} {id : GrammarId} {r : Registry}
    (h : (({} : Registry).loadEach ds₁).load d = (.ok id, r)) :
    let after := ({} : Registry).loadEach (ds₁ ++ d :: ds₂)
    ∃ g, after.catalog.grammars[id]? = some g ∧
      TokensUnfold
        (after.links fun n => min 1 (timesGiven n ds₁) + timesGiven n (d :: ds₂) ≤ 1)
        d.tokens g := by
  intro after
  have hload := load_catalog h
  rw [loadEach_catalog] at hload
  have hafter : after.catalog = ({} : Catalog).loadEach (ds₁ ++ d :: ds₂) := loadEach_catalog _ _
  have hcarries : after.catalog.Carries d.tokens id
      fun n => min 1 (timesGiven n ds₁) + timesGiven n (d :: ds₂) := by
    rw [hafter]
    exact Catalog.carries_of_loadEach hload
  obtain ⟨g, hholds, hunfolds⟩ := hcarries
  refine ⟨g, hholds.1, hunfolds.mono (fun _ _ h => h.1) ?_⟩
  exact fun _ _ h => Catalog.Link.target?_iff h

/-- A language is given, referred to and given anew. -/
theorem link_current_iff_given_anew :
    (({} : Registry).loadEach [.words "a" []]).load (.wordsOf "a" "b" [])
        = (.ok 1, ({} : Registry).loadEach [.words "a" [], .wordsOf "a" "b" []]) ∧
      ∃ g, (({} : Registry).loadEach
          [.words "a" [], .wordsOf "a" "b" [], .words "a" []]).catalog.grammars[1]? = some g ∧
        TokensUnfold
          ((({} : Registry).loadEach [.words "a" [], .wordsOf "a" "b" [], .words "a" []]).links
            fun n => min 1 (timesGiven n [.words "a" []])
              + timesGiven n [.wordsOf "a" "b" [], .words "a" []] ≤ 1)
          (Document.wordsOf "a" "b" []).tokens g :=
  ⟨rfl, link_current_iff [.words "a" []] [.words "a" []] rfl⟩

/-- The link that was made before is then to the old grammar. -/
theorem given_anew_not_current :
    ¬ ∀ (ds₁ ds₂ : List Document) (d : Document) (id : GrammarId) (r : Registry),
      (({} : Registry).loadEach ds₁).load d = (.ok id, r) →
      ∃ g, (({} : Registry).loadEach (ds₁ ++ d :: ds₂)).catalog.grammars[id]? = some g ∧
        TokensUnfold ((({} : Registry).loadEach (ds₁ ++ d :: ds₂)).links fun _ => True)
          d.tokens g := by
  intro h
  obtain ⟨g, hg, hunfolds⟩ :=
    h [.words "a" []] [.words "a" []] (.wordsOf "a" "b" []) 1 _ rfl
  obtain ⟨x, hx, hrefs⟩ := Document.references_wordsOf hunfolds
  -- the link is still to the first grammar, the name is that of the third
  have hold : ((({} : Registry).loadEach [.words "a" [], .wordsOf "a" "b" [],
      .words "a" []]).catalog.grammars[1]?).map Grammar.references = some [0] := rfl
  have hnow : (({} : Registry).loadEach [.words "a" [], .wordsOf "a" "b" [],
      .words "a" []]).catalog.target? "a" = some 2 := rfl
  have hzero : some g.references = some [0] :=
    (congrArg (Option.map Grammar.references) hg).symm.trans hold
  rw [hrefs] at hzero
  cases hzero
  exact nomatch hnow.symm.trans (hx.mpr trivial)

end Registry

end Highlighter
