import Highlighter.Proofs.Registry.Effects

/-! # What insertions leave behind

    Inserting rules puts a new grammar in the place of an old one, for the
    languages and in all that they can reach.  What they can reach is found
    out before the new grammar is there.  So a grammar that no language
    could reach keeps its references, and the rules that are inserted may
    be the first to lead to it.

    A language never points at the old grammar afterwards.  But it still
    leads there when the rules of the new grammar lead to one that was out
    of reach and refers to the old one, and only then
    (`Catalog.insertBefore_inUse_iff`). -/

namespace Highlighter

open Relation (ReflTransGen)

namespace Catalog

/-- Languages can reach the grammar. -/
def InUse (c : Catalog) (a : GrammarId) : Prop :=
  ∃ n ∈ c.names, Reaches c.grammars n.2 a

variable {c c' : Catalog} {id new : GrammarId} {anchor : Option String}
  {rules : List (String × Rule)}

theorem InUse.refers {a b : GrammarId} (h : c.InUse a) (hab : Refers c.grammars a b) :
    c.InUse b := by
  obtain ⟨n, hn, hreaches⟩ := h
  exact ⟨n, hn, hreaches.tail hab⟩

/-- What is in use is what the languages are found to reach. -/
theorem mem_live_iff {live : List GrammarId} (h : c.live = .ok live) {a : GrammarId} :
    a ∈ live ↔ c.InUse a := by
  rw [(explores_of_reachable h).mem_iff]
  constructor
  · rintro ⟨r, hr, hra⟩
    obtain ⟨n, hn, rfl⟩ := List.mem_map.mp hr
    exact ⟨n, hn, hra⟩
  · rintro ⟨n, hn, hna⟩
    exact ⟨n.2, List.mem_map_of_mem hn, hna⟩

/-- Where a reference leads once a new grammar has the place of an old
    one. -/
def turned (old new id : GrammarId) : GrammarId := if id = old then new else id

theorem turned_ne {old new : GrammarId} (h : new ≠ old) (a : GrammarId) :
    turned old new a ≠ old := by
  rw [turned]
  split
  · exact h
  · assumption

theorem refers_redirect {concerned : GrammarId → Bool} {old new a : GrammarId}
    (ha : concerned a = true) {b : GrammarId} :
    Refers (c.redirect concerned old new).grammars a b ↔
      ∃ x, Refers c.grammars a x ∧ turned old new x = b := by
  have hget : (c.redirect concerned old new).grammars[a]?
      = c.grammars[a]?.map (Grammar.mapReferences (turned old new)) := by
    simp only [redirect, List.getElem?_mapIdx, ha, if_true]
    rfl
  constructor
  · rintro ⟨g', hg', hb⟩
    obtain ⟨g, hg, rfl⟩ := Option.map_eq_some_iff.mp (hget.symm.trans hg')
    obtain ⟨x, hx, hxb⟩ := Grammar.mem_references_mapReferences hb
    exact ⟨x, ⟨g, hg, hx⟩, hxb⟩
  · rintro ⟨x, ⟨g, hg, hx⟩, rfl⟩
    refine ⟨g.mapReferences (turned old new), ?_, ?_⟩
    · rw [hget, hg]
      rfl
    · rw [Grammar.references_mapReferences]
      exact List.mem_map_of_mem hx

theorem refers_redirect_of_eq_false {concerned : GrammarId → Bool} {old new a : GrammarId}
    (ha : concerned a = false) {b : GrammarId} :
    Refers (c.redirect concerned old new).grammars a b ↔ Refers c.grammars a b := by
  have hget : (c.redirect concerned old new).grammars[a]? = c.grammars[a]? := by
    simp [redirect, List.getElem?_mapIdx, ha]
  rw [Refers, Refers, hget]

theorem refers_add_length {g : Grammar} {b : GrammarId} :
    Refers (c.add g).2.grammars c.grammars.length b ↔ b ∈ g.references := by
  have hget : (c.add g).2.grammars[c.grammars.length]? = some g := List.getElem?_concat_length
  constructor
  · rintro ⟨g', hg', hb⟩
    obtain rfl := Option.some.inj (hget.symm.trans hg')
    exact hb
  · exact fun hb => ⟨g, hget, hb⟩

theorem refers_add_of_ne {g : Grammar} {a : GrammarId} (ha : a ≠ c.grammars.length)
    {b : GrammarId} : Refers (c.add g).2.grammars a b ↔ Refers c.grammars a b := by
  have hget : (c.add g).2.grammars[a]? = c.grammars[a]? := by
    rcases Nat.lt_or_gt_of_ne ha with hlt | hgt
    · exact List.getElem?_append_left hlt
    · rw [List.getElem?_eq_none (Nat.le_of_lt hgt), List.getElem?_eq_none]
      rw [add, List.length_append]
      exact hgt
  rw [Refers, Refers, hget]

/-- What an insertion does, said of references: those of the grammars in use
    and of the new grammar are turned to the new grammar, and so are the
    languages; other references stay. -/
structure Supplants (c : Catalog) (old : GrammarId) (g : Grammar) (c' : Catalog) : Prop where
  names : c'.names = c.names.map fun n => (n.1, turned old c.grammars.length n.2)
  inUse : ∀ a b, c.InUse a → (Refers c'.grammars a b ↔
    ∃ x, Refers c.grammars a x ∧ turned old c.grammars.length x = b)
  added : ∀ b, Refers c'.grammars c.grammars.length b ↔
    ∃ x ∈ g.references, turned old c.grammars.length x = b
  unused : ∀ a b, ¬ c.InUse a → a ≠ c.grammars.length →
    (Refers c'.grammars a b ↔ Refers c.grammars a b)

section Insertion

variable (hclosed : Closed c.grammars) (hnames : ∀ n ∈ c.names, n.2 < c.grammars.length)
include hclosed hnames

theorem InUse.lt_length {a : GrammarId} (h : c.InUse a) : a < c.grammars.length := by
  obtain ⟨n, hn, hreaches⟩ := h
  exact hclosed.reaches_lt (hnames n hn) hreaches

/-- Inserting puts the new grammar in the place of the old one. -/
theorem supplants_of_insertBefore (h : c.insertBefore id anchor rules = .ok (new, c')) :
    ∃ g, c.grammars[id]? = some g ∧ new = c.grammars.length ∧
      c.Supplants id (inserted g anchor rules) c' := by
  obtain ⟨g, live, hg, hlive, rfl, rfl⟩ := insertBefore_cases h
  have hconcerned : ∀ a, (a == c.grammars.length || live.contains a) = true ↔
      a = c.grammars.length ∨ c.InUse a := by
    intro a
    rw [Bool.or_eq_true, beq_iff_eq, List.contains_iff_mem, mem_live_iff hlive]
  refine ⟨g, hg, rfl, ?_⟩
  constructor
  case names => rfl
  case inUse =>
    intro a b ha
    have hlt := InUse.lt_length hclosed hnames ha
    refine (refers_redirect ((hconcerned a).mpr (.inr ha))).trans ?_
    simp only [refers_add_of_ne (Nat.ne_of_lt hlt)]
  case added =>
    intro b
    refine (refers_redirect ((hconcerned _).mpr (.inl rfl))).trans ?_
    simp only [refers_add_length]
  case unused =>
    intro a b ha hne
    have hfalse : (a == c.grammars.length || live.contains a) = false :=
      Bool.eq_false_iff.mpr fun htrue => ((hconcerned a).mp htrue).elim hne ha
    exact (refers_redirect_of_eq_false hfalse).trans (refers_add_of_ne hne)

end Insertion

namespace Supplants

variable {old : GrammarId} {g : Grammar} (h : c.Supplants old g c')
include h

theorem inUse_of_mem {n : String × GrammarId} (hn : n ∈ c.names) :
    c'.InUse (turned old c.grammars.length n.2) := by
  refine ⟨(n.1, turned old c.grammars.length n.2), ?_, .refl⟩
  rw [h.names]
  exact List.mem_map_of_mem hn

theorem ne_old_of_mem (hold : old < c.grammars.length) {n : String × GrammarId}
    (hn : n ∈ c'.names) : n.2 ≠ old := by
  rw [h.names] at hn
  obtain ⟨m, -, rfl⟩ := List.mem_map.mp hn
  exact turned_ne (Nat.ne_of_gt hold) m.2

/-- Grammars in use stay so, up to those that only the old one leads to. -/
theorem inUse_turned {a : GrammarId} (ha : c.InUse a) :
    c'.InUse (turned old c.grammars.length a) ∨ c'.InUse c.grammars.length := by
  obtain ⟨n, hn, hreaches⟩ := ha
  induction hreaches with
  | refl => exact .inl (h.inUse_of_mem hn)
  | @tail a b hna hab ih =>
      rcases ih with hin | hnew
      · by_cases haold : a = old
        · rw [turned, if_pos haold] at hin
          exact .inr hin
        · rw [turned, if_neg haold] at hin
          exact .inl (hin.refers ((h.inUse a _ ⟨n, hn, hna⟩).mpr ⟨b, hab, rfl⟩))
      · exact .inr hnew

/-- The new grammar comes into use if the old one was. -/
theorem inUse_new (hold : c.InUse old) : c'.InUse c.grammars.length := by
  have hturned := h.inUse_turned hold
  rwa [turned, if_pos rfl, or_self] at hturned

/-- What was out of use comes into use with the new grammar. -/
theorem inUse_of_reaches (hold : c.InUse old) {x a : GrammarId} (hx : x ∈ g.references)
    (hxa : Reaches c.grammars x a) : c'.InUse a ∨ c.InUse a := by
  induction hxa with
  | refl =>
      by_cases hxold : x = old
      · exact .inr (hxold ▸ hold)
      · have hxnew := (h.added _).mpr ⟨x, hx, rfl⟩
        rw [turned, if_neg hxold] at hxnew
        exact .inl ((h.inUse_new hold).refers hxnew)
  | @tail a b _ hab ih =>
      by_cases ha : c.InUse a
      · exact .inr (ha.refers hab)
      · have hne : a ≠ c.grammars.length := Nat.ne_of_lt hab.lt_length
        exact .inl ((ih.resolve_right ha).refers ((h.unused a b ha hne).mpr hab))

/-- What is in use afterwards was so before, or the new grammar leads
    there. -/
theorem inUse_cases {a : GrammarId} (ha : c'.InUse a) :
    c.InUse a ∨ c.InUse old ∧
      (a = c.grammars.length ∨ ∃ x ∈ g.references, Reaches c.grammars x a) := by
  obtain ⟨n, hn, hreaches⟩ := ha
  induction hreaches with
  | refl =>
      rw [h.names] at hn
      obtain ⟨m, hm, rfl⟩ := List.mem_map.mp hn
      have hin : c.InUse m.2 := ⟨m, hm, .refl⟩
      by_cases hmold : m.2 = old
      · exact .inr ⟨hmold ▸ hin, .inl (if_pos hmold)⟩
      · simp only [turned, if_neg hmold]
        exact .inl hin
  | @tail a b _ hab ih =>
      by_cases ha : c.InUse a
      · obtain ⟨x, hax, rfl⟩ := (h.inUse a b ha).mp hab
        have hin := ha.refers hax
        by_cases hxold : x = old
        · exact .inr ⟨hxold ▸ hin, .inl (if_pos hxold)⟩
        · simp only [turned, if_neg hxold]
          exact .inl hin
      · obtain ⟨hold, hfrom⟩ := ih.resolve_left ha
        by_cases hnew : a = c.grammars.length
        · subst hnew
          obtain ⟨x, hx, rfl⟩ := (h.added b).mp hab
          by_cases hxold : x = old
          · exact .inr ⟨hold, .inl (if_pos hxold)⟩
          · simp only [turned, if_neg hxold]
            exact .inr ⟨hold, .inr ⟨x, hx, .refl⟩⟩
        · obtain ⟨x, hx, hxa⟩ := hfrom.resolve_left hnew
          exact .inr ⟨hold, .inr ⟨x, hx, hxa.tail ((h.unused a b ha hnew).mp hab)⟩⟩

/-- The old grammar stays in use exactly where the new one leads to a
    grammar that refers to it and was out of use. -/
theorem inUse_old_iff (hold : old < c.grammars.length) :
    c'.InUse old ↔ c.InUse old ∧ ∃ x ∈ g.references, ∃ y, Reaches c.grammars x y ∧
      Refers c.grammars y old ∧ ¬ c.InUse y := by
  have hne : c.grammars.length ≠ old := Nat.ne_of_gt hold
  constructor
  · rintro ⟨n, hn, hreaches⟩
    rcases ReflTransGen.cases_tail hreaches with heq | ⟨y, hny, hyold⟩
    · exact absurd heq.symm (h.ne_old_of_mem hold hn)
    · -- only a grammar out of use has kept its reference
      have hy : ¬ c.InUse y := by
        intro hin
        obtain ⟨x, -, hx⟩ := (h.inUse y old hin).mp hyold
        exact turned_ne hne x hx
      have hynew : y ≠ c.grammars.length := by
        rintro rfl
        obtain ⟨x, -, hx⟩ := (h.added old).mp hyold
        exact turned_ne hne x hx
      obtain ⟨hin, hfrom⟩ := (h.inUse_cases ⟨n, hn, hny⟩).resolve_left hy
      obtain ⟨x, hx, hxy⟩ := hfrom.resolve_left hynew
      exact ⟨hin, x, hx, y, hxy, (h.unused y old hy hynew).mp hyold, hy⟩
  · rintro ⟨hin, x, hx, y, hxy, hyold, hy⟩
    have hyin := (h.inUse_of_reaches hin hx hxy).resolve_right hy
    exact hyin.refers ((h.unused y old hy (Nat.ne_of_lt hyold.lt_length)).mpr hyold)

end Supplants

/-- After rules are inserted no language points at the old grammar.  It
    still is in use exactly if it was before and the new grammar leads to
    one that was out of use and refers to it. -/
theorem insertBefore_inUse_iff (hclosed : Closed c.grammars)
    (hnames : ∀ n ∈ c.names, n.2 < c.grammars.length) {g : Grammar}
    (hg : c.grammars[id]? = some g) (anchor : Option String) (rules : List (String × Rule)) :
    ∃ new c', c.insertBefore id anchor rules = .ok (new, c') ∧
      (∀ n ∈ c'.names, n.2 ≠ id) ∧
      (c'.InUse id ↔ c.InUse id ∧
        ∃ x ∈ (inserted g anchor rules).references, ∃ y, Reaches c.grammars x y ∧
          Refers c.grammars y id ∧ ¬ c.InUse y) := by
  obtain ⟨hid, -⟩ := List.getElem?_eq_some_iff.mp hg
  obtain ⟨⟨new, c'⟩, hinsert⟩ := exists_insertBefore hclosed hnames hid anchor rules
  obtain ⟨g', hg', -, h⟩ := supplants_of_insertBefore hclosed hnames hinsert
  obtain rfl := Option.some.inj (hg.symm.trans hg')
  exact ⟨new, c', hinsert, fun n hn => h.ne_old_of_mem hid hn, h.inUse_old_iff hid⟩

/-- Words are put in the place of words in the letters too, which refer to
    them and are in the rule that is inserted. -/
theorem insertBefore_inUse_wordsAndLetters :
    let c := { wordsAndLetters with names := [("words", 0), ("letters", 1)] }
    let rules := [("capitals", Rule.patterns (.single
      { regex := Regex.ofStrings "[A-Z]+" "", inside := some 1 }))]
    (Closed c.grammars ∧ (∀ n ∈ c.names, n.2 < c.grammars.length) ∧
      c.grammars[0]? = some ⟨[("word", .patterns (.single
        { regex := Regex.ofStrings "[a-z]+" "", inside := some 1 }))]⟩) ∧
      ∃ new c', c.insertBefore 0 (some "word") rules = .ok (new, c') ∧
        (∀ n ∈ c'.names, n.2 ≠ 0) ∧ ¬ c'.InUse 0 := by
  intro c rules
  have hnames : ∀ n ∈ c.names, n.2 < c.grammars.length := by decide
  have hclosed : Closed c.grammars := wordsAndLetters_closed
  have hwords : c.grammars[0]? = some ⟨[("word", .patterns (.single
      { regex := Regex.ofStrings "[a-z]+" "", inside := some 1 }))]⟩ := rfl
  obtain ⟨new, c', hinsert, hpoints, hiff⟩ :=
    insertBefore_inUse_iff hclosed hnames hwords (some "word") rules
  refine ⟨⟨hclosed, hnames, hwords⟩, new, c', hinsert, hpoints, fun hin => ?_⟩
  -- both grammars are languages, so none is out of use
  obtain ⟨-, -, -, y, -, hy, hunused⟩ := hiff.mp hin
  have hlt : y < 2 := hy.lt_length
  refine hunused ?_
  rcases Nat.le_one_iff_eq_zero_or_eq_one.mp (Nat.le_of_lt_succ hlt) with rfl | rfl
  · exact ⟨("words", 0), List.mem_cons_self, .refl⟩
  · exact ⟨("letters", 1), List.mem_cons_of_mem _ List.mem_cons_self, .refl⟩

/-- Words as a language, and numbers that have the words inside of them and
    are no language. -/
def numbersAside : Catalog where
  grammars :=
    [⟨[("word", .patterns (.single { regex := Regex.ofStrings "[a-z]+" "" }))]⟩,
      ⟨[("inner", .patterns (.single
        { regex := Regex.ofStrings "[0-9]+" "", inside := some 0 }))]⟩]
  names := [("words", 0)]

/-- A rule with the numbers inside, put into the words, leaves the old words
    in use. -/
theorem exists_insertBefore_inUse :
    Closed numbersAside.grammars ∧
      (∀ n ∈ numbersAside.names, n.2 < numbersAside.grammars.length) ∧
      ∃ new c', numbersAside.insertBefore 0 none [("num", .patterns (.single
        { regex := Regex.ofStrings "[0-9]+" "", inside := some 1 }))] = .ok (new, c') ∧
        c'.InUse 0 := by
  have hclosed : Closed numbersAside.grammars := by
    intro g hg
    simp only [numbersAside, List.mem_cons, List.not_mem_nil, or_false] at hg
    rcases hg with rfl | rfl <;> decide
  have hnames : ∀ n ∈ numbersAside.names, n.2 < numbersAside.grammars.length := by decide
  have hid : 0 < numbersAside.grammars.length := Nat.zero_lt_two
  obtain ⟨⟨new, c'⟩, hinsert⟩ := exists_insertBefore hclosed hnames hid none
    [("num", .patterns (.single { regex := Regex.ofStrings "[0-9]+" "", inside := some 1 }))]
  obtain ⟨g, hg, -, h⟩ := supplants_of_insertBefore hclosed hnames hinsert
  obtain rfl := Option.some.inj hg
  -- the words refer to nothing, so the numbers are out of use
  have hunused : ¬ numbersAside.InUse 1 := by
    rintro ⟨n, hn, hreaches⟩
    obtain rfl := List.mem_singleton.mp hn
    rcases ReflTransGen.cases_head hreaches with heq | ⟨b, ⟨g, hg, hb⟩, -⟩
    · exact absurd heq (by decide)
    · obtain rfl := Option.some.inj hg
      exact absurd hb List.not_mem_nil
  refine ⟨hclosed, hnames, new, c', hinsert, (h.inUse_old_iff hid).mpr ?_⟩
  exact ⟨⟨("words", 0), List.mem_cons_self, .refl⟩, 1, List.mem_cons_self, 1, .refl,
    ⟨_, rfl, List.mem_cons_self⟩, hunused⟩

end Catalog

end Highlighter
