import Highlighter.Proofs.Registry.Insertion

/-! # Where inserted rules come to stand

    A grammar with rules inserted is built by setting its rules one after the
    other, and the inserted ones when the anchor comes
    (`Catalog.inserted_eq_foldl`).  A name keeps the place where it was set
    first and the value that it was given last (`OrderedMap.names_setAll`,
    `OrderedMap.get?_setAll`).  So the names in front of the anchor stay, the
    inserted names that are new there come next, and then what is left of the
    names behind.  In front of the anchor an inserted value counts, and from
    the anchor on the old one (`Catalog.insertBefore_spliced`). -/

namespace Highlighter

open OrderedMap (get?)

/-- Rules are set on a grammar one after the other. -/
theorem Grammar.setAll_eq_foldl (g : Grammar) (rules : List (String × Rule)) :
    g.setAll rules = rules.foldl (fun g r => g.set r.1 r.2) g := by
  induction rules generalizing g with
  | nil => rfl
  | cons r rules ih => exact ih (g.set r.1 r.2)

namespace Catalog

-- ── The grammar that is built ────────────────────────────────────────────

/-- What a grammar becomes when rules are inserted behind its names `front`
    and before its names `behind`. -/
structure Spliced (g : Grammar) (rules : List (String × Rule)) (front behind : List String)
    (built : Grammar) : Prop where
  names : built.names = front ++ (OrderedMap.names rules).filter (· ∉ front)
    ++ behind.filter (· ∉ OrderedMap.names rules)
  front : ∀ n ∈ front, built.get? n = (get? n rules).or (g.get? n)
  behind : ∀ n ∈ behind, built.get? n = g.get? n
  added : ∀ n, n ∉ g.names → built.get? n = get? n rules

/-- An anchor splits the rules of a grammar in two. -/
theorem inserted_of_split {g : Grammar} {name : String} {front back : List String}
    (hnodup : g.names.Nodup) (hsplit : g.names = front ++ name :: back)
    (rules : List (String × Rule)) :
    ∃ before behind, g.rules = before ++ behind ∧ OrderedMap.names before = front ∧
      OrderedMap.names behind = name :: back ∧
      inserted g (some name) rules
        = ⟨OrderedMap.setAll (OrderedMap.setAll before rules) behind⟩ := by
  have hfront : ∀ n ∈ front, (n != name) = true := by
    intro n hn
    rw [hsplit] at hnodup
    exact bne_iff_ne.mpr ((List.nodup_append.mp hnodup).2.2 n hn name List.mem_cons_self)
  have htake : (name :: back).takeWhile (· != name) = [] := by simp
  have hdrop : (name :: back).dropWhile (· != name) = name :: back := by simp
  have hmem : g.names.contains name = true := by
    rw [hsplit, List.contains_iff_mem]
    exact List.mem_append_right _ List.mem_cons_self
  have hbefore : OrderedMap.names (g.rules.takeWhile (·.1 != name))
      = g.names.takeWhile (· != name) := by
    rw [Grammar.names, OrderedMap.names, OrderedMap.names, List.takeWhile_map]
    rfl
  have hbehind : OrderedMap.names (g.rules.dropWhile (·.1 != name))
      = g.names.dropWhile (· != name) := by
    rw [Grammar.names, OrderedMap.names, OrderedMap.names, List.dropWhile_map]
    rfl
  refine ⟨g.rules.takeWhile (·.1 != name), g.rules.dropWhile (·.1 != name),
    List.takeWhile_append_dropWhile.symm, ?_, ?_, ?_⟩
  · rw [hbefore, hsplit, List.takeWhile_append_of_pos hfront, htake, List.append_nil]
  · rw [hbehind, hsplit, List.dropWhile_append_of_pos hfront, hdrop]
  · rw [inserted, hmem]
    rfl

/-- Without the anchor among them, rules are set one after the other. -/
theorem foldl_set_of_not_mem {name : String} {entries : List (String × Rule)}
    (h : name ∉ OrderedMap.names entries) (rules : List (String × Rule)) (built : Grammar) :
    entries.foldl (fun built r => (if r.1 = name then built.setAll rules else built).set r.1 r.2)
      built = built.setAll entries := by
  induction entries generalizing built with
  | nil => rfl
  | cons e es ih =>
      obtain ⟨hname, hes⟩ := not_or.mp (mt List.mem_cons.mpr h)
      rw [List.foldl_cons, if_neg (Ne.symm hname), ih hes]
      rfl

/-- A grammar is built rule by rule, and the inserted rules are set when the
    anchor comes. -/
theorem inserted_eq_foldl {g : Grammar} {name : String} (hnodup : g.names.Nodup)
    (hname : name ∈ g.names) (rules : List (String × Rule)) :
    inserted g (some name) rules
      = g.rules.foldl
        (fun built r => (if r.1 = name then built.setAll rules else built).set r.1 r.2) {} := by
  obtain ⟨front, back, hsplit⟩ := List.append_of_mem hname
  obtain ⟨before, behind, hall, hbefore, hbehind, hbuilt⟩ :=
    inserted_of_split hnodup hsplit rules
  rw [hsplit, List.nodup_append] at hnodup
  obtain ⟨hfront, hback, hapart⟩ := hnodup
  have hnot : name ∉ OrderedMap.names before := by
    rw [hbefore]
    exact fun hin => hapart name hin name List.mem_cons_self rfl
  obtain ⟨⟨anchor, value⟩, rest, rfl, hanchor, hrest⟩ := List.map_eq_cons_iff.mp hbehind
  obtain rfl : anchor = name := hanchor
  have hnot' : anchor ∉ OrderedMap.names rest := by
    rw [show OrderedMap.names rest = back from hrest]
    exact (List.nodup_cons.mp hback).1
  have hset : Grammar.setAll {} before = ⟨before⟩ := by
    have hnames : (OrderedMap.names ([] ++ before)).Nodup := by rwa [List.nil_append, hbefore]
    exact congrArg Grammar.mk (OrderedMap.setAll_of_nodup hnames)
  rw [hbuilt, hall, List.foldl_append, foldl_set_of_not_mem hnot, hset, List.foldl_cons, if_pos rfl,
    foldl_set_of_not_mem hnot']
  rfl

/-- Rules inserted before an anchor are spliced in there. -/
theorem spliced_inserted {g : Grammar} {name : String} {front back : List String}
    {rules : List (String × Rule)} (hnodup : g.names.Nodup)
    (hrules : (OrderedMap.names rules).Nodup) (hsplit : g.names = front ++ name :: back) :
    Spliced g rules front (name :: back) (inserted g (some name) rules) := by
  obtain ⟨before, behind, hall, rfl, hbehind, hbuilt⟩ := inserted_of_split hnodup hsplit rules
  rw [← hbehind] at hsplit ⊢
  rw [hbuilt]
  rw [hsplit, List.nodup_append] at hnodup
  obtain ⟨-, hnodup, hapart⟩ := hnodup
  -- values are looked for behind the anchor, among the inserted rules and in front
  have hget : ∀ n, Grammar.get? ⟨OrderedMap.setAll (OrderedMap.setAll before rules) behind⟩ n
      = (get? n behind).or ((get? n rules).or (get? n before)) := by
    intro n
    rw [Grammar.get?, OrderedMap.get?_setAll hnodup, OrderedMap.get?_setAll hrules]
  have hgetg : ∀ n, g.get? n = (get? n before).or (get? n behind) := by
    intro n
    rw [Grammar.get?, hall, OrderedMap.get?_append]
  constructor
  case names =>
    have hfilter : ∀ n ∈ OrderedMap.names behind,
        decide (n ∉ OrderedMap.names (OrderedMap.setAll before rules))
          = decide (n ∉ OrderedMap.names rules) := by
      intro n hn
      have hbefore : n ∉ OrderedMap.names before := fun hin => hapart n hin n hn rfl
      rw [OrderedMap.names_setAll hrules]
      simp [hbefore]
    show OrderedMap.names (OrderedMap.setAll (OrderedMap.setAll before rules) behind) = _
    rw [OrderedMap.names_setAll hnodup, List.filter_congr hfilter, OrderedMap.names_setAll hrules]
  case front =>
    intro n hn
    have hnone : get? n behind = none :=
      OrderedMap.get?_eq_none_iff.mpr fun hin => hapart n hn n hin rfl
    rw [hget, hgetg, hnone, Option.none_or, Option.or_none]
  case behind =>
    intro n hn
    obtain ⟨r, hr⟩ := OrderedMap.exists_get?_of_mem_names hn
    have hnone : get? n before = none :=
      OrderedMap.get?_eq_none_iff.mpr fun hin => hapart n hin n hn rfl
    rw [hget, hgetg, hnone, hr, Option.none_or, Option.some_or]
  case added =>
    intro n hn
    rw [hsplit, List.mem_append, not_or] at hn
    rw [hget, OrderedMap.get?_eq_none_iff.mpr hn.1, OrderedMap.get?_eq_none_iff.mpr hn.2,
      Option.none_or, Option.or_none]

/-- Without an anchor in the grammar the rules are set on it. -/
theorem inserted_of_not_mem {g : Grammar} {anchor : Option String}
    (h : ∀ name, anchor = some name → name ∉ g.names) (rules : List (String × Rule)) :
    inserted g anchor rules = rules.foldl (fun g r => g.set r.1 r.2) g := by
  rw [← Grammar.setAll_eq_foldl]
  cases anchor with
  | none => rfl
  | some name =>
      have hmem : ¬ g.names.contains name = true := by
        rw [List.contains_iff_mem]
        exact h name rfl
      rw [inserted, if_neg hmem]

-- ── Insertions ───────────────────────────────────────────────────────────

/-- The new grammar is the one with the rules inserted, in which what
    referred to the old grammar refers to the new one. -/
theorem getElem?_of_insertBefore {c c' : Catalog} {id new : GrammarId} {g : Grammar}
    {anchor : Option String} {rules : List (String × Rule)} (hg : c.grammars[id]? = some g)
    (h : c.insertBefore id anchor rules = .ok (new, c')) :
    c'.grammars[new]? = some ((inserted g anchor rules).mapReferences (turned id new)) := by
  obtain ⟨g', live, hg', -, rfl, rfl⟩ := insertBefore_cases h
  obtain rfl := Option.some.inj (hg.symm.trans hg')
  simp only [redirect, add, List.getElem?_mapIdx, List.getElem?_concat_length, Option.map_some,
    beq_self_eq_true, Bool.true_or, if_true]
  rfl

/-- Rules with different names are inserted into a grammar whose names do
    not repeat.  If the grammar has the anchor, a grammar is built rule by
    rule, with the inserted ones when the anchor comes: the names in front of
    it stay and come first, then the inserted names that are not among those,
    then the others that are not inserted.  The inserted values count in
    front of the anchor and for new names, the old ones from the anchor on.
    If the grammar has no such name, the rules are set on it one after the
    other.  References of the grammar to itself are turned to the new one. -/
theorem insertBefore_spliced {c : Catalog} {id : GrammarId} {g : Grammar}
    {rules : List (String × Rule)} (hg : c.grammars[id]? = some g) (hnodup : g.names.Nodup)
    (hrules : (OrderedMap.names rules).Nodup) (anchor : Option String) :
    (Closed c.grammars → (∀ n ∈ c.names, n.2 < c.grammars.length) →
      ∃ new c', c.insertBefore id anchor rules = .ok (new, c')) ∧
    ∀ new c', c.insertBefore id anchor rules = .ok (new, c') →
      ∃ built, c'.grammars[new]? = some (built.mapReferences (turned id new)) ∧
        (∀ name front back, anchor = some name → g.names = front ++ name :: back →
          Spliced g rules front (name :: back) built ∧ built = g.rules.foldl
            (fun built r => (if r.1 = name then built.setAll rules else built).set r.1 r.2) {}) ∧
        ((∀ name, anchor = some name → name ∉ g.names) →
          built = rules.foldl (fun g r => g.set r.1 r.2) g) := by
  refine ⟨fun hclosed hnames => ?_, fun new c' h => ?_⟩
  · obtain ⟨hid, -⟩ := List.getElem?_eq_some_iff.mp hg
    obtain ⟨⟨new, c'⟩, hinsert⟩ := exists_insertBefore hclosed hnames hid anchor rules
    exact ⟨new, c', hinsert⟩
  · refine ⟨inserted g anchor rules, getElem?_of_insertBefore hg h, ?_, ?_⟩
    · rintro name front back rfl hsplit
      have hname : name ∈ g.names := hsplit ▸ List.mem_append_right _ List.mem_cons_self
      exact ⟨spliced_inserted hnodup hrules hsplit, inserted_eq_foldl hnodup hname rules⟩
    · exact fun habsent => inserted_of_not_mem habsent rules

/-- Rules for a name in front of the anchor, one behind it and a new one, in
    a grammar that refers to itself, and then to the new one. -/
theorem insertBefore_spliced_overlap :
    let rule (source : String) : Rule := .patterns (.single { regex := Regex.ofStrings source "" })
    let g : Grammar := ⟨[("x", rule "x"), ("y", rule "y"), ("z", .grammar 0)]⟩
    let rules := [("z", rule "Z"), ("w", rule "w"), ("x", rule "X")]
    let c : Catalog := { grammars := [g], names := [("a", 0)] }
    (c.grammars[0]? = some g ∧ g.names.Nodup ∧ (OrderedMap.names rules).Nodup ∧
      Closed c.grammars ∧ ∀ n ∈ c.names, n.2 < c.grammars.length) ∧
      ∃ new c', ∃ built : Grammar, c.insertBefore 0 (some "y") rules = .ok (new, c') ∧
        c'.grammars[new]? = some (built.mapReferences (turned 0 new)) ∧
        built.names = ["x", "z", "w", "y"] ∧ built.get? "x" = some (rule "X") ∧
        built.get? "z" = some (.grammar 0) ∧ built.get? "w" = some (rule "w") ∧
        (built.mapReferences (turned 0 new)).get? "z" = some (.grammar new) := by
  intro rule g rules c
  have hg : c.grammars[0]? = some g := rfl
  have hnodup : g.names.Nodup := by decide
  have hrules : (OrderedMap.names rules).Nodup := by decide
  have hclosed : Closed c.grammars := by
    show ∀ g ∈ c.grammars, ∀ a ∈ g.references, a < c.grammars.length
    decide
  have hnames : ∀ n ∈ c.names, n.2 < c.grammars.length := by decide
  obtain ⟨hexists, hspliced⟩ := insertBefore_spliced hg hnodup hrules (some "y")
  obtain ⟨new, c', hinsert⟩ := hexists hclosed hnames
  obtain ⟨built, hbuilt, hwith, -⟩ := hspliced new c' hinsert
  obtain ⟨h, -⟩ := hwith "y" ["x"] ["z"] rfl rfl
  have hz : built.get? "z" = some (.grammar 0) := (h.behind "z" (by decide)).trans rfl
  refine ⟨⟨hg, hnodup, hrules, hclosed, hnames⟩,
    new, c', built, hinsert, hbuilt, ?_, ?_, hz, ?_, ?_⟩
  · exact h.names.trans (by decide)
  · exact (h.front "x" (by decide)).trans rfl
  · exact (h.added "w" (by decide)).trans rfl
  · exact (OrderedMap.get?_map _ "z" built.rules).trans (congrArg (Option.map _) hz)

end Catalog

end Highlighter
