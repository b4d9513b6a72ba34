import Highlighter.Proofs.Registry.Places

/-! # Giving names to a grammar

    A document gives all its names to one grammar.  The first name decides
    on the number: that of its place, or a new one.  For each further name
    the place, if there is one, is given up, and what refers to it is
    turned to the grammar.

    `Given` says what has become of a catalog when some of the names are
    given: every other grammar is as before, but for the references to the
    places that were given up.  So what holds of a catalog that is read
    into holds of the one in which the names are given, with the references
    turned (`Given.holds`), and names and places are still apart
    (`Given.placed`). -/

namespace Highlighter

namespace Catalog

/-- Turns references to the places of some names to a grammar. -/
def turn (c : Catalog) (names : List String) (id x : GrammarId) : GrammarId :=
  if ∃ n ∈ names, n ∈ c.reserved ∧ c.target? n = some x then id else x

theorem turn_of_place {c : Catalog} {names : List String} {n : String} (hn : n ∈ names)
    (hres : n ∈ c.reserved) {x : GrammarId} (hx : c.target? n = some x) (id : GrammarId) :
    c.turn names id x = id :=
  if_pos ⟨n, hn, hres, hx⟩

theorem turn_of_not_place {c : Catalog} {names : List String} {x : GrammarId}
    (h : ∀ n ∈ names, n ∈ c.reserved → c.target? n ≠ some x) (id : GrammarId) :
    c.turn names id x = x :=
  if_neg fun ⟨n, hn, hres, hx⟩ => h n hn hres hx

theorem turn_self (c : Catalog) (names : List String) (id : GrammarId) :
    c.turn names id id = id :=
  ite_self _

/-- The catalog `c` is `l` with `names` given to the grammar `g`, whose
    number is `id`. -/
structure Given (l : Catalog) (g : Grammar) (id : GrammarId) (names : List String)
    (c : Catalog) : Prop where
  names_nodup : (OrderedMap.names c.names).Nodup
  reserved : c.reserved = l.reserved.filter (!names.contains ·)
  here : ∀ n ∈ names, c.target? n = some id
  elsewhere : ∀ n, n ∉ names → c.target? n = l.target? n
  filled : c.grammars[id]? = some (g.mapReferences (l.turn names id))
  kept : ∀ x, x ≠ id →
    c.grammars[x]? = (l.grammars[x]?).map (Grammar.mapReferences (l.turn names id))
  /-- The number is new or that of a place. -/
  free : l.IsPlace id ∨ id = l.grammars.length
  /-- Only one of the names can have had that place. -/
  own : ∀ n ∈ l.reserved, l.target? n = some id → n ∈ names

section Given

variable {l c : Catalog} {g : Grammar} {id : GrammarId} {names : List String}

theorem Given.mem_reserved_iff (h : Given l g id names c) {n : String} :
    n ∈ c.reserved ↔ n ∈ l.reserved ∧ n ∉ names := by
  rw [h.reserved, List.mem_filter, Bool.not_eq_true', ← Bool.not_eq_true, List.contains_iff_mem]

-- ── The first name ───────────────────────────────────────────────────────

theorem release_reserved (c : Catalog) (name : String) :
    (c.release name).reserved = c.reserved.filter (!([name] : List String).contains ·) := by
  refine List.filter_congr fun n _ => ?_
  rw [List.contains_cons, List.contains_nil, Bool.or_false]
  rfl

/-- A reserved name is given by filling its place. -/
theorem given_of_reserved (h : l.Placed) {name : String} (hname : name ∈ l.reserved) (g : Grammar) :
    Given l g (l.addLanguage name g).1 [name] (l.addLanguage name g).2 := by
  obtain ⟨place, hplace, -⟩ := h.place name hname
  have hturn : ∀ x, l.turn [name] place x = x := by
    intro x
    by_cases hx : x = place
    · rw [hx, turn_self]
    · refine turn_of_not_place (fun n hn _ heq => hx ?_) place
      rw [List.mem_singleton.mp hn, hplace] at heq
      exact (Option.some.inj heq).symm
  rw [addLanguage_of_reserved hname hplace]
  constructor
  case names_nodup => exact h.names_nodup
  case reserved => exact release_reserved l name
  case here =>
    intro n hn
    rw [List.mem_singleton.mp hn]
    exact hplace
  case elsewhere => exact fun _ _ => rfl
  case filled =>
    rw [Grammar.mapReferences_eq_self hturn]
    exact List.getElem?_set_self (h.inside name place hplace)
  case kept =>
    intro x hx
    rw [funext (Grammar.mapReferences_eq_self hturn ·), Option.map_id']
    exact List.getElem?_set_ne (Ne.symm hx)
  case free => exact .inl ⟨name, hname, hplace⟩
  case own => exact fun n hn hid => List.mem_singleton.mpr (h.own name hname n place hplace hid)

/-- Another name is given to a new grammar. -/
theorem given_of_not_reserved (h : l.Placed) {name : String} (hname : name ∉ l.reserved)
    (g : Grammar) : Given l g (l.addLanguage name g).1 [name] (l.addLanguage name g).2 := by
  have hturn : ∀ x, l.turn [name] l.grammars.length x = x := by
    refine fun x => turn_of_not_place (fun n hn hres _ => hname ?_) _
    rw [← List.mem_singleton.mp hn]
    exact hres
  rw [addLanguage_of_not_reserved hname]
  constructor
  case names_nodup => exact OrderedMap.nodup_names_set h.names_nodup name _
  case reserved =>
    rw [← release_reserved, release_of_not_reserved hname]
    rfl
  case here =>
    intro n hn
    rw [target?_point, if_pos (List.mem_singleton.mp hn)]
  case elsewhere =>
    intro n hn
    rw [target?_point, if_neg fun heq => hn (List.mem_singleton.mpr heq)]
    rfl
  case filled =>
    rw [Grammar.mapReferences_eq_self hturn]
    exact List.getElem?_concat_length ..
  case kept =>
    intro x hx
    rw [funext (Grammar.mapReferences_eq_self hturn ·), Option.map_id']
    show (l.grammars ++ [g])[x]? = _
    rcases Nat.lt_or_gt_of_ne hx with hlt | hgt
    · exact List.getElem?_append_left hlt
    · rw [List.getElem?_eq_none (Nat.le_of_lt hgt), List.getElem?_eq_none]
      rw [List.length_append]
      exact hgt
  case free => exact .inr rfl
  case own => exact fun n _ hid => absurd (h.inside n _ hid) (Nat.lt_irrefl _)

/-- Adding a grammar as a language gives it that name. -/
theorem given_addLanguage (h : l.Placed) (name : String) (g : Grammar) :
    Given l g (l.addLanguage name g).1 [name] (l.addLanguage name g).2 := by
  by_cases hname : name ∈ l.reserved
  · exact given_of_reserved h hname g
  · exact given_of_not_reserved h hname g

-- ── Further names ────────────────────────────────────────────────────────

theorem redirect_getElem? (c : Catalog) (old new : GrammarId) (x : GrammarId) :
    (c.redirect (fun _ => true) old new).grammars[x]?
      = (c.grammars[x]?).map (Grammar.mapReferences fun y => if y = old then new else y) := by
  simp only [redirect, if_true, List.getElem?_mapIdx]

/-- Turning references to one more place. -/
theorem turn_append {name : String} (hname : name ∈ l.reserved) {place : GrammarId}
    (hplace : l.target? name = some place) (hne : place ≠ id) (x : GrammarId) :
    (if l.turn names id x = place then id else l.turn names id x)
      = l.turn (names ++ [name]) id x := by
  by_cases hx : ∃ n ∈ names, n ∈ l.reserved ∧ l.target? n = some x
  · obtain ⟨n, hn, hres, htarget⟩ := hx
    rw [turn_of_place hn hres htarget, turn_of_place (List.mem_append_left _ hn) hres htarget,
      if_neg (Ne.symm hne)]
  · have hnot : ∀ n ∈ names, n ∈ l.reserved → l.target? n ≠ some x :=
      fun n hn hres htarget => hx ⟨n, hn, hres, htarget⟩
    rw [turn_of_not_place hnot]
    by_cases hxp : x = place
    · rw [if_pos hxp, hxp,
        turn_of_place (List.mem_append_right _ (List.mem_singleton_self name)) hname hplace]
    · rw [if_neg hxp, turn_of_not_place]
      intro n hn hres htarget
      rcases List.mem_append.mp hn with hn | hn
      · exact hnot n hn hres htarget
      · rw [List.mem_singleton.mp hn, hplace] at htarget
        exact hxp (Option.some.inj htarget).symm

/-- A name that is given already, or was not reserved, has no place to be
    turned. -/
theorem turn_append_of_not_reserved {name : String} (hname : name ∉ l.reserved ∨ name ∈ names)
    (x : GrammarId) : l.turn (names ++ [name]) id x = l.turn names id x := by
  have hiff : (∃ n ∈ names ++ [name], n ∈ l.reserved ∧ l.target? n = some x)
      ↔ ∃ n ∈ names, n ∈ l.reserved ∧ l.target? n = some x := by
    constructor
    · rintro ⟨n, hn, hres, htarget⟩
      rcases List.mem_append.mp hn with hn | hn
      · exact ⟨n, hn, hres, htarget⟩
      · obtain rfl := List.mem_singleton.mp hn
        exact ⟨n, hname.resolve_left fun h => h hres, hres, htarget⟩
    · rintro ⟨n, hn, hrest⟩
      exact ⟨n, List.mem_append_left _ hn, hrest⟩
  simp only [turn, hiff]

theorem filter_append_singleton (ns names : List String) (name : String) :
    (ns.filter (!names.contains ·)).filter (· != name)
      = ns.filter (!(names ++ [name]).contains ·) := by
  rw [List.filter_filter]
  refine List.filter_congr fun n _ => ?_
  by_cases hn : n = name <;> simp [hn]

theorem here_point {b : Catalog} (h : ∀ n ∈ names, b.target? n = some id) {name n : String}
    (hn : n ∈ names ++ [name]) : (b.point name id).target? n = some id := by
  rw [target?_point]
  split
  · rfl
  · next hne =>
      exact h n ((List.mem_append.mp hn).resolve_right fun h => hne (List.mem_singleton.mp h))

theorem elsewhere_point {b : Catalog} (h : ∀ n, n ∉ names → b.target? n = l.target? n)
    {name n : String} (hn : n ∉ names ++ [name]) :
    (b.point name id).target? n = l.target? n := by
  rw [target?_point, if_neg fun heq => hn (List.mem_append_right _ (List.mem_singleton.mpr heq))]
  exact h n fun hmem => hn (List.mem_append_left _ hmem)

/-- A further name that is reserved: its place is given up. -/
theorem Given.setLanguage_of_reserved (hl : l.Placed) (h : Given l g id names c) {name : String}
    (hname : name ∈ c.reserved) : Given l g id (names ++ [name]) (c.setLanguage name id) := by
  obtain ⟨hres, hnew⟩ := h.mem_reserved_iff.mp hname
  obtain ⟨place, hplace, -⟩ := hl.place name hres
  have hne : place ≠ id := fun heq => hnew (h.own name hres (heq ▸ hplace))
  have hcomp : ∀ x : Grammar,
      (x.mapReferences (l.turn names id)).mapReferences (fun y => if y = place then id else y)
        = x.mapReferences (l.turn (names ++ [name]) id) := by
    intro x
    rw [Grammar.mapReferences_mapReferences]
    exact congrArg (Grammar.mapReferences · x) (funext (turn_append hres hplace hne))
  rw [Catalog.setLanguage_of_reserved hname ((h.elsewhere name hnew).trans hplace) hne]
  constructor
  case names_nodup => exact OrderedMap.nodup_names_set h.names_nodup name id
  case reserved =>
    show (c.reserved.filter (· != name)) = _
    rw [h.reserved, filter_append_singleton]
  case here => exact fun n hn => here_point h.here hn
  case elsewhere => exact fun n hn => elsewhere_point h.elsewhere hn
  case filled =>
    show (c.redirect _ place id).grammars[id]? = _
    rw [redirect_getElem?, h.filled, Option.map_some, hcomp]
  case kept =>
    intro x hx
    show (c.redirect _ place id).grammars[x]? = _
    rw [redirect_getElem?, h.kept x hx, Option.map_map]
    exact congrArg (Option.map · _) (funext hcomp)
  case free => exact h.free
  case own => exact fun n hn hid => List.mem_append_left _ (h.own n hn hid)

/-- A further name that is not reserved: nothing is turned. -/
theorem Given.setLanguage_of_not_reserved (h : Given l g id names c) {name : String}
    (hname : name ∉ c.reserved) : Given l g id (names ++ [name]) (c.setLanguage name id) := by
  have hdone : name ∉ l.reserved ∨ name ∈ names := by
    by_contra hnot
    obtain ⟨hres, hnew⟩ := not_or.mp hnot
    exact hname (h.mem_reserved_iff.mpr ⟨not_not.mp hres, hnew⟩)
  have hturn : l.turn (names ++ [name]) id = l.turn names id :=
    funext (turn_append_of_not_reserved hdone)
  rw [Catalog.setLanguage_of_not_reserved hname]
  constructor
  case names_nodup => exact OrderedMap.nodup_names_set h.names_nodup name id
  case reserved =>
    rw [← filter_append_singleton, ← h.reserved]
    exact (congrArg Catalog.reserved (release_of_not_reserved hname)).symm
  case here => exact fun n hn => here_point h.here hn
  case elsewhere => exact fun n hn => elsewhere_point h.elsewhere hn
  case filled =>
    rw [hturn]
    exact h.filled
  case kept =>
    rw [hturn]
    exact h.kept
  case free => exact h.free
  case own => exact fun n hn hid => List.mem_append_left _ (h.own n hn hid)

/-- Making the grammar another language gives it that name too. -/
theorem Given.setLanguage (hl : l.Placed) (h : Given l g id names c) (name : String) :
    Given l g id (names ++ [name]) (c.setLanguage name id) := by
  by_cases hname : name ∈ c.reserved
  · exact h.setLanguage_of_reserved hl hname
  · exact h.setLanguage_of_not_reserved hname

/-- Giving one name after the other. -/
theorem Given.setLanguages (hl : l.Placed) (h : Given l g id names c) (more : List String) :
    Given l g id (names ++ more) (more.foldl (fun c name => c.setLanguage name id) c) := by
  induction more generalizing names c with
  | nil =>
      rw [List.append_nil]
      exact h
  | cons name more ih =>
      have := ih (h.setLanguage hl name)
      rw [List.append_assoc] at this
      exact this

-- ── What is kept ─────────────────────────────────────────────────────────

theorem Given.length_le (h : Given l g id names c) : l.grammars.length ≤ c.grammars.length := by
  refine Nat.le_of_not_lt fun hlt => ?_
  have hnone : c.grammars[c.grammars.length]? = none := List.getElem?_eq_none (Nat.le_refl _)
  by_cases heq : c.grammars.length = id
  · rw [heq, h.filled] at hnone
    exact nomatch hnone
  · rw [h.kept _ heq, List.getElem?_eq_getElem hlt] at hnone
    exact nomatch hnone

theorem Given.mem_names_iff (h : Given l g id names c) {n : String} :
    n ∈ OrderedMap.names c.names ↔ n ∈ OrderedMap.names l.names ∨ n ∈ names := by
  by_cases hn : n ∈ names
  · exact iff_of_true (OrderedMap.mem_names_of_get? (h.here n hn)) (.inr hn)
  · rw [or_iff_left hn, ← not_iff_not, ← OrderedMap.get?_eq_none_iff,
      ← OrderedMap.get?_eq_none_iff]
    exact iff_of_eq (congrArg (· = none) (h.elsewhere n hn))

/-- The names given become languages. -/
theorem Given.isLanguage_iff (h : Given l g id names c) {n : String} :
    c.IsLanguage n ↔ l.IsLanguage n ∨ n ∈ names := by
  rw [IsLanguage, IsLanguage, h.mem_names_iff, h.mem_reserved_iff]
  tauto

theorem Given.isPlace (h : Given l g id names c) {x : GrammarId} (hx : c.IsPlace x) :
    l.IsPlace x ∧ x ≠ id := by
  obtain ⟨n, hn, htarget⟩ := hx
  obtain ⟨hres, hnew⟩ := h.mem_reserved_iff.mp hn
  rw [h.elsewhere n hnew] at htarget
  refine ⟨⟨n, hres, htarget⟩, ?_⟩
  rintro rfl
  exact hnew (h.own n hres htarget)

/-- Names and places stay apart when names are given. -/
theorem Given.placed (hl : l.Placed) (h : Given l g id names c) : c.Placed where
  names_nodup := h.names_nodup
  reserved_nodup := by
    rw [h.reserved]
    exact hl.reserved_nodup.filter _
  inside n x hx := by
    by_cases hn : n ∈ names
    · rw [h.here n hn] at hx
      obtain rfl := Option.some.inj hx
      exact (List.getElem?_eq_some_iff.mp h.filled).1
    · rw [h.elsewhere n hn] at hx
      exact Nat.lt_of_lt_of_le (hl.inside n x hx) h.length_le
  place n hn := by
    obtain ⟨hres, hnew⟩ := h.mem_reserved_iff.mp hn
    obtain ⟨x, hx, hempty⟩ := hl.place n hres
    refine ⟨x, (h.elsewhere n hnew).trans hx, ?_⟩
    rw [h.kept x fun heq => hnew (h.own n hres (heq ▸ hx)), hempty]
    rfl
  own n hn m x hnx hmx := by
    obtain ⟨hres, hnew⟩ := h.mem_reserved_iff.mp hn
    rw [h.elsewhere n hnew] at hnx
    by_cases hm : m ∈ names
    · rw [h.here m hm] at hmx
      obtain rfl := Option.some.inj hmx
      exact absurd (h.own n hres hnx) hnew
    · rw [h.elsewhere m hm] at hmx
      exact hl.own n hres m x hnx hmx

/-- What is there has a number of its own. -/
theorem Given.not_free (h : Given l g id names c) {x : GrammarId} (hx : x < l.grammars.length)
    (hplace : ¬ l.IsPlace x) : x ≠ id ∧ l.turn names id x = x ∧ ¬ c.IsPlace x := by
  refine ⟨?_, ?_, fun hx => hplace (h.isPlace hx).1⟩
  · rintro rfl
    exact h.free.elim hplace (Nat.ne_of_lt hx)
  · exact turn_of_not_place (fun n _ hres htarget => hplace ⟨n, hres, htarget⟩) id

/-- A grammar that is there stays where it is; only the references in it
    are turned. -/
theorem Given.holds (h : Given l g id names c) {x : GrammarId} {g' : Grammar}
    (hx : l.view.holds x g') :
    c.view.holds (l.turn names id x) (g'.mapReferences (l.turn names id)) := by
  obtain ⟨hget, hplace⟩ := hx
  obtain ⟨hne, hturn, hplace'⟩ := h.not_free (List.getElem?_eq_some_iff.mp hget).1 hplace
  rw [hturn]
  refine ⟨?_, hplace'⟩
  rw [h.kept x hne, hget, Option.map_some]

/-- The grammar that has the names is no place. -/
theorem Given.holds_new (h : Given l g id names c) :
    c.view.holds id (g.mapReferences (l.turn names id)) :=
  ⟨h.filled, fun hid => (h.isPlace hid).2 rfl⟩

end Given

end Catalog

end Highlighter
