import Highlighter.Proofs.Registry.Insertion

/-! # What insertions change

    Inserting rules adds one grammar and changes nothing but references to
    the old one: of the grammars that languages can reach, of the new
    grammar and of the names (`Catalog.insertBefore_repoints`).

    The references are turned in one grammar after the other.  A grammar that
    was turned has none to the old grammar left, so that turning it again
    changes nothing, and what comes out hangs on the set of the grammars
    alone, not on their order (`Catalog.getElem?_turnEach`). -/

namespace Highlighter

open Relation (ReflTransGen)

/-- Changing the elements at some places, one after the other, changes
    each of them once. -/
theorem getElem?_foldl_modify {α : Type} {f : α → α} (hf : ∀ a, f (f a) = f a) (order : List Nat)
    (as : List α) (i : Nat) :
    (order.foldl (fun as j => as.modify j f) as)[i]?
      = if i ∈ order then as[i]?.map f else as[i]? := by
  induction order generalizing as with
  | nil => rfl
  | cons j order ih =>
      have htwice : (as[i]?.map f).map f = as[i]?.map f := by
        rw [Option.map_map]
        exact congrFun (congrArg Option.map (funext hf)) _
      rw [List.foldl_cons, ih]
      by_cases hji : j = i
      · subst hji
        rw [List.getElem?_modify_eq, if_pos List.mem_cons_self]
        exact (congrArg (ite _ · _) htwice).trans (ite_self _)
      · have hmem : i ∈ j :: order ↔ i ∈ order := by
          rw [List.mem_cons, or_iff_right (Ne.symm hji)]
        simp only [List.getElem?_modify_ne f as hji, hmem]

namespace Catalog

variable {c c' : Catalog} {id new old : GrammarId} {anchor : Option String}
  {rules : List (String × Rule)}

/-- Names point where they did, but for those at the old grammar. -/
theorem get?_map_turned (names : List (String × GrammarId)) (old new : GrammarId) (name : String) :
    OrderedMap.get? name (names.map fun n => (n.1, turned old new n.2))
      = (OrderedMap.get? name names).map (turned old new) := by
  rw [OrderedMap.get?, OrderedMap.get?, List.find?_map, Option.map_map, Option.map_map]
  rfl

theorem turned_turned (h : new ≠ old) (a : GrammarId) :
    turned old new (turned old new a) = turned old new a :=
  if_neg (turned_ne h a)

/-- The grammars with the references to one of them turned to another, in
    some of them, one after the other. -/
def turnEach (old new : GrammarId) (order : List GrammarId) (gs : List Grammar) : List Grammar :=
  order.foldl (fun gs a => gs.modify a (Grammar.mapReferences (turned old new))) gs

theorem getElem?_turnEach (h : new ≠ old) (order : List GrammarId) (gs : List Grammar)
    (a : GrammarId) :
    (turnEach old new order gs)[a]?
      = if a ∈ order then gs[a]?.map (Grammar.mapReferences (turned old new)) else gs[a]? := by
  refine getElem?_foldl_modify (fun g => ?_) order gs a
  rw [Grammar.mapReferences_mapReferences]
  exact congrFun (congrArg Grammar.mapReferences (funext (turned_turned h))) g

theorem getElem?_redirect (c : Catalog) (concerned : GrammarId → Bool) (old new a : GrammarId) :
    (c.redirect concerned old new).grammars[a]?
      = if concerned a then c.grammars[a]?.map (Grammar.mapReferences (turned old new))
        else c.grammars[a]? := by
  rw [redirect, List.getElem?_mapIdx]
  cases concerned a with
  | true => rfl
  | false => exact Option.map_id'

/-- All that becomes different when a grammar is put in the place of an
    old one. -/
structure Repoints (c : Catalog) (old : GrammarId) (built : Grammar) (c' : Catalog) : Prop where
  /-- There is one grammar more, which refers to itself where the rules that
      it is built from refer to the old one. -/
  length : c'.grammars.length = c.grammars.length + 1
  added : c'.grammars[c.grammars.length]?
    = some (built.mapReferences (turned old c.grammars.length))
  unused : ∀ a g, c.grammars[a]? = some g → ¬ c.InUse a → c'.grammars[a]? = some g
  inUse : ∀ a g, c.grammars[a]? = some g → c.InUse a →
    c'.grammars[a]? = some (g.mapReferences (turned old c.grammars.length))
  /-- The names are the same, and stand for the same grammars but for the
      old one. -/
  names : OrderedMap.names c'.names = OrderedMap.names c.names
  target? : ∀ name, c'.target? name = (c.target? name).map (turned old c.grammars.length)
  /-- The same languages are missing. -/
  reserved : c'.reserved = c.reserved
  /-- The grammars may have been gone through in any order. -/
  anyOrder : ∀ order, (∀ a, a ∈ order ↔ c.InUse a ∨ a = c.grammars.length) →
    c'.grammars = turnEach old c.grammars.length order (c.grammars ++ [built])

/-- Inserting rules adds one grammar, and changes nothing but references to
    the old one in the grammars that languages can reach, in the new grammar
    and in the names. -/
theorem insertBefore_repoints (hclosed : Closed c.grammars)
    (hnames : ∀ n ∈ c.names, n.2 < c.grammars.length) {g : Grammar}
    (hg : c.grammars[id]? = some g) (anchor : Option String) (rules : List (String × Rule)) :
    ∃ c', c.insertBefore id anchor rules = .ok (c.grammars.length, c') ∧
      c.Repoints id (inserted g anchor rules) c' := by
  obtain ⟨hid, -⟩ := List.getElem?_eq_some_iff.mp hg
  obtain ⟨⟨new, c'⟩, hinsert⟩ := exists_insertBefore hclosed hnames hid anchor rules
  obtain ⟨g', live, hg', hlive, rfl, rfl⟩ := insertBefore_cases hinsert
  obtain rfl := Option.some.inj (hg.symm.trans hg')
  have hnew : c.grammars.length ≠ id := Nat.ne_of_gt hid
  have hconcerned : ∀ a, (a == c.grammars.length || live.contains a) = true ↔
      c.InUse a ∨ a = c.grammars.length := by
    intro a
    rw [Bool.or_eq_true, beq_iff_eq, List.contains_iff_mem, mem_live_iff hlive, or_comm]
  have hget := (c.add (inserted g anchor rules)).2.getElem?_redirect
    (fun a => a == c.grammars.length || live.contains a) id c.grammars.length
  refine ⟨_, hinsert, ?_⟩
  constructor
  case length => simp [redirect, add]
  case added =>
    refine (hget _).trans ?_
    rw [if_pos ((hconcerned _).mpr (.inr rfl)), add, List.getElem?_concat_length]
    rfl
  case unused =>
    intro a g ha hunused
    have hlt := (List.getElem?_eq_some_iff.mp ha).1
    have hnot := mt (hconcerned a).mp (not_or.mpr ⟨hunused, Nat.ne_of_lt hlt⟩)
    refine (hget a).trans ?_
    rw [if_neg hnot, add, List.getElem?_append_left hlt, ha]
  case inUse =>
    intro a g ha hin
    have hlt := (List.getElem?_eq_some_iff.mp ha).1
    refine (hget a).trans ?_
    rw [if_pos ((hconcerned a).mpr (.inl hin)), add, List.getElem?_append_left hlt, ha]
    rfl
  case names =>
    rw [OrderedMap.names, OrderedMap.names, List.map_map]
    rfl
  case target? => exact get?_map_turned c.names id c.grammars.length
  case reserved => rfl
  case anyOrder =>
    intro order horder
    refine List.ext_getElem? fun a => (hget a).trans ?_
    rw [getElem?_turnEach hnew]
    exact if_congr ((hconcerned a).trans (horder a).symm) rfl rfl

/-- Words that go on with themselves, letters that have the words inside of
    the second alternative, numbers that have them inside and that nothing
    refers to, and a language that is missing. -/
def wordsLettersNumbers : Catalog where
  grammars :=
    [⟨[("word", .patterns (.single { regex := Regex.ofStrings "[a-z]+" "", inside := some 1 })),
        (restName, .grammar 0)]⟩,
      ⟨[("letter", .patterns (.alternatives
        [{ regex := Regex.ofStrings "[a-m]" "", greedy := true },
          { regex := Regex.ofStrings "[n-z]" "", aliases := ["late"], inside := some 0 }]))]⟩,
      ⟨[("number", .patterns (.single
        { regex := Regex.ofStrings "[0-9]+" "", inside := some 0 }))]⟩,
      {}]
  names := [("words", 0), ("letters", 1), ("gone", 3)]
  reserved := ["gone"]

/-- The words are turned to the new grammar in the letters and in themselves,
    but not in the numbers. -/
theorem insertBefore_repoints_wordsLettersNumbers :
    let c := wordsLettersNumbers
    let rules := [("capitals", Rule.patterns (.single
      { regex := Regex.ofStrings "[A-Z]+" "", inside := some 0 }))]
    (Closed c.grammars ∧ (∀ n ∈ c.names, n.2 < c.grammars.length) ∧
      c.grammars[0]? = some ⟨[("word", .patterns (.single
        { regex := Regex.ofStrings "[a-z]+" "", inside := some 1 })), (restName, .grammar 0)]⟩) ∧
      ∃ c', c.insertBefore 0 (some "word") rules = .ok (4, c') ∧
        c'.grammars[1]? = some ⟨[("letter", .patterns (.alternatives
          [{ regex := Regex.ofStrings "[a-m]" "", greedy := true },
            { regex := Regex.ofStrings "[n-z]" "", aliases := ["late"], inside := some 4 }]))]⟩ ∧
        c'.grammars[2]? = c.grammars[2]? ∧
        c'.grammars[4]?.map Grammar.references = some [4, 1, 4] ∧
        c'.target? "words" = some 4 ∧ c'.target? "letters" = some 1 ∧ c'.reserved = ["gone"] ∧
        c'.grammars = turnEach 0 4 [3, 1, 4, 0]
          (c.grammars ++ [inserted ⟨[("word", .patterns (.single
            { regex := Regex.ofStrings "[a-z]+" "", inside := some 1 })), (restName, .grammar 0)]⟩
            (some "word") rules]) := by
  intro c rules
  have hclosed : Closed c.grammars := by
    show ∀ g ∈ c.grammars, ∀ a ∈ g.references, a < c.grammars.length
    decide
  have hnames : ∀ n ∈ c.names, n.2 < c.grammars.length := by decide
  have hwords : c.grammars[0]? = some ⟨[("word", .patterns (.single
      { regex := Regex.ofStrings "[a-z]+" "", inside := some 1 })), (restName, .grammar 0)]⟩ := rfl
  have hpointed : ∀ n ∈ c.names, c.InUse n.2 := fun n hn => ⟨n, hn, .refl⟩
  have hnumbers : ¬ c.InUse 2 := by
    rintro ⟨n, hn, hreaches⟩
    rcases ReflTransGen.cases_tail hreaches with heq | ⟨a, -, g, hg, hmem⟩
    · exact absurd heq.symm ((by decide : ∀ n ∈ c.names, n.2 ≠ 2) n hn)
    · exact absurd hmem ((by decide : ∀ g ∈ c.grammars, 2 ∉ g.references) g
        (List.mem_of_getElem? hg))
  have horder : ∀ a, a ∈ [3, 1, 4, 0] ↔ c.InUse a ∨ a = 4 := by
    intro a
    constructor
    · intro ha
      rcases (by simpa using ha : a = 3 ∨ a = 1 ∨ a = 4 ∨ a = 0) with rfl | rfl | rfl | rfl
      · exact .inl (hpointed ("gone", 3) (by decide))
      · exact .inl (hpointed ("letters", 1) (by decide))
      · exact .inr rfl
      · exact .inl (hpointed ("words", 0) (by decide))
    · rintro (hin | rfl)
      · have hlt : a < 4 := InUse.lt_length hclosed hnames hin
        have hne : a ≠ 2 := fun heq => hnumbers (heq ▸ hin)
        exact (by decide : ∀ a < 4, a ≠ 2 → a ∈ [3, 1, 4, 0]) a hlt hne
      · decide
  obtain ⟨c', hinsert, h⟩ := insertBefore_repoints hclosed hnames hwords (some "word") rules
  refine ⟨⟨hclosed, hnames, hwords⟩, c', hinsert, ?_, ?_, ?_, ?_, ?_, h.reserved,
    h.anyOrder _ horder⟩
  · exact h.inUse 1 _ rfl (hpointed ("letters", 1) (by decide))
  · exact h.unused 2 _ rfl hnumbers
  · rw [show c'.grammars[4]? = _ from h.added]
    decide
  · exact h.target? "words"
  · exact h.target? "letters"

end Catalog

end Highlighter
