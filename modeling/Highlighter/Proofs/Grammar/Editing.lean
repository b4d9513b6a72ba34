import Highlighter.Grammar.Basic
import Highlighter.Proofs.OrderedMap
import Mathlib.Data.List.Induction
import Mathlib.Order.Bounds.Basic
import Mathlib.Order.Nat

/-! # Editing a grammar

    Grammars are made by edits, one after the other, from the one without
    rules.  What such a grammar is can be told from the edits alone
    (`Grammar.Records`): a name has a rule if it was set and not taken out
    since; the rule is the one it was given last, with the changes made to
    it afterwards; and names stand in the order in which they were first
    set since they were last taken out.  Every edit keeps that
    (`Grammar.Records.apply`). -/

namespace Highlighter.Grammar

/-- A way of editing a grammar. -/
inductive Edit where
  /-- Gives a name a rule. -/
  | set (name : String) (r : Rule)
  /-- Gives a name a rule, in writing down a grammar. -/
  | token (name : String) (r : Rule)
  /-- Says what grammar is merged in, in writing down a grammar. -/
  | rest (id : GrammarId)
  /-- Takes out a name. -/
  | remove (name : String)
  /-- Changes the rule of a name where it is, if there is one. -/
  | change (name : String) (f : Rule → Rule)

namespace Edit

/-- The grammar after an edit. -/
def apply : Edit → Grammar → Grammar
  | .set name r, g => g.set name r
  | .token name r, g => g.set name r
  | .rest id, g => g.set restName (.grammar id)
  | .remove name, g => g.remove name
  | .change name f, g => g.modify name f

/-- The name that an edit sets, with the rule that it gets. -/
def setting? : Edit → Option (String × Rule)
  | .set name r | .token name r => some (name, r)
  | .rest id => some (restName, .grammar id)
  | .remove _ | .change _ _ => none

/-- What becomes of the rule of a name that an edit neither sets nor takes
    out. -/
def revise (name : String) : Edit → Rule → Rule
  | .change n f, r => if n = name then f r else r
  | .set _ _, r | .token _ _, r | .rest _, r | .remove _, r => r

/-- The grammar after several edits. -/
def applyAll (edits : List Edit) (g : Grammar) : Grammar := edits.foldl (fun g e => e.apply g) g

theorem apply_of_setting {e : Edit} {name : String} {r : Rule} (h : e.setting? = some (name, r))
    (g : Grammar) : e.apply g = g.set name r := by
  cases e with
  | set n s | token n s | rest id =>
      cases h
      rfl
  | remove n | change n f => cases h

theorem revise_of_setting {e : Edit} {s : String × Rule} (h : e.setting? = some s) (name : String)
    (r : Rule) : e.revise name r = r := by
  cases e with
  | set n t | token n t | rest id => rfl
  | remove n | change n f => cases h

end Edit

/-- The grammar that edits make of the one without rules. -/
def build (edits : List Edit) : Grammar := Edit.applyAll edits {}

-- ── What the edits say ───────────────────────────────────────────────────

/-- The edits, by their place, that have set a name since it was last taken
    out. -/
def settings (edits : List Edit) (name : String) : Set Nat :=
  {i | (∃ e r, edits[i]? = some e ∧ e.setting? = some (name, r)) ∧
    ∀ j e, i < j → edits[j]? = some e → e ≠ .remove name}

/-- The edits give a name a rule: the one of the last setting, as the edits
    after that have changed it. -/
def Gives (edits : List Edit) (name : String) (rule : Rule) : Prop :=
  ∃ i e given, IsGreatest (settings edits name) i ∧ edits[i]? = some e ∧
    e.setting? = some (name, given) ∧
    rule = (edits.drop (i + 1)).foldl (fun r e => e.revise name r) given

/-- One name was first set before another one was. -/
def Precedes (edits : List Edit) (a b : String) : Prop :=
  ∃ i j, IsLeast (settings edits a) i ∧ IsLeast (settings edits b) j ∧ i < j

section Settings

variable {edits : List Edit} {e : Edit} {name : String} {rule : Rule} {i : Nat}

theorem lt_of_mem_settings (h : i ∈ settings edits name) : i < edits.length := by
  obtain ⟨⟨e, -, he, -⟩, -⟩ := h
  exact (List.getElem?_eq_some_iff.mp he).1

/-- One more edit adds itself if it sets the name, and leaves none of those
    before if it takes the name out. -/
theorem mem_settings_concat : i ∈ settings (edits ++ [e]) name ↔
    (i ∈ settings edits name ∧ e ≠ .remove name) ∨
      (i = edits.length ∧ ∃ r, e.setting? = some (name, r)) := by
  constructor
  · -- the place of a setting is before the last edit or that of the last edit
    rintro ⟨⟨e', r, he', hset⟩, hlater⟩
    have hle : i ≤ edits.length := by
      have hlt := (List.getElem?_eq_some_iff.mp he').1
      rw [List.length_append, List.length_singleton] at hlt
      exact Nat.le_of_lt_succ hlt
    rcases Nat.lt_or_eq_of_le hle with hlt | rfl
    · rw [List.getElem?_append_left hlt] at he'
      refine .inl ⟨⟨⟨e', r, he', hset⟩, fun j e'' hij he'' => ?_⟩, ?_⟩
      · refine hlater j e'' hij ?_
        rw [List.getElem?_append_left (List.getElem?_eq_some_iff.mp he'').1, he'']
      · exact hlater edits.length e hlt List.getElem?_concat_length
    · rw [List.getElem?_concat_length] at he'
      obtain rfl := Option.some.inj he'
      exact .inr ⟨rfl, r, hset⟩
  · rintro (⟨⟨⟨e', r, he', hset⟩, hlater⟩, hremove⟩ | ⟨rfl, r, hset⟩)
    · have hlt := (List.getElem?_eq_some_iff.mp he').1
      refine ⟨⟨e', r, by rw [List.getElem?_append_left hlt, he'], hset⟩, fun j e'' hij he'' => ?_⟩
      by_cases hj : j < edits.length
      · rw [List.getElem?_append_left hj] at he''
        exact hlater j e'' hij he''
      · rw [List.getElem?_append_right (Nat.le_of_not_lt hj)] at he''
        rw [← List.mem_singleton.mp (List.mem_of_getElem? he'')] at hremove
        exact hremove
    · refine ⟨⟨e, r, List.getElem?_concat_length, hset⟩, fun j e'' hij he'' => ?_⟩
      have hlt := (List.getElem?_eq_some_iff.mp he'').1
      rw [List.length_append, List.length_singleton] at hlt
      exact absurd (Nat.le_of_lt_succ hlt) (Nat.not_le.mpr hij)

/-- An edit that sets other names and takes out other names. -/
theorem settings_concat_of_other (hset : ∀ r, e.setting? ≠ some (name, r))
    (hremove : e ≠ .remove name) : settings (edits ++ [e]) name = settings edits name := by
  ext i
  rw [mem_settings_concat]
  refine ⟨fun h => h.elim And.left fun h => ?_, fun h => .inl ⟨h, hremove⟩⟩
  obtain ⟨-, r, hr⟩ := h
  exact absurd hr (hset r)

theorem settings_concat_remove (edits : List Edit) (name : String) :
    settings (edits ++ [.remove name]) name = ∅ := by
  refine Set.eq_empty_of_forall_notMem fun i hi => ?_
  rcases mem_settings_concat.mp hi with ⟨-, hremove⟩ | ⟨-, r, hset⟩
  · exact hremove rfl
  · cases hset

/-- The first setting stays the first. -/
theorem isLeast_concat (h : IsLeast (settings edits name) i) (hremove : e ≠ .remove name) :
    IsLeast (settings (edits ++ [e]) name) i := by
  refine ⟨mem_settings_concat.mpr (.inl ⟨h.1, hremove⟩), fun k hk => ?_⟩
  rcases mem_settings_concat.mp hk with ⟨hk, -⟩ | ⟨rfl, -⟩
  · exact h.2 hk
  · exact Nat.le_of_lt (lt_of_mem_settings h.1)

/-- A setting is the last one when it is made. -/
theorem isGreatest_concat (h : e.setting? = some (name, rule)) :
    IsGreatest (settings (edits ++ [e]) name) edits.length := by
  refine ⟨mem_settings_concat.mpr (.inr ⟨rfl, rule, h⟩), fun k hk => ?_⟩
  rcases mem_settings_concat.mp hk with ⟨hk, -⟩ | ⟨rfl, -⟩
  · exact Nat.le_of_lt (lt_of_mem_settings hk)
  · exact Nat.le_refl _

theorem gives_concat_of_setting {given : Rule} (h : e.setting? = some (name, given)) :
    Gives (edits ++ [e]) name rule ↔ rule = given := by
  have hgreatest : IsGreatest (settings (edits ++ [e]) name) edits.length := isGreatest_concat h
  have hdrop : (edits ++ [e]).drop (edits.length + 1) = [] :=
    List.drop_eq_nil_of_le (by rw [List.length_append, List.length_singleton])
  constructor
  · rintro ⟨i, e', given', hi, he', hset, rfl⟩
    obtain rfl := hi.unique hgreatest
    rw [List.getElem?_concat_length] at he'
    obtain rfl := Option.some.inj he'
    obtain rfl : given' = given := congrArg Prod.snd (Option.some.inj (hset.symm.trans h))
    rw [hdrop, List.foldl_nil]
  · rintro rfl
    exact ⟨edits.length, e, rule, hgreatest, List.getElem?_concat_length, h, by rw [hdrop]; rfl⟩

theorem gives_concat_of_other (hset : ∀ r, e.setting? ≠ some (name, r))
    (hremove : e ≠ .remove name) :
    Gives (edits ++ [e]) name rule ↔ ∃ old, Gives edits name old ∧ e.revise name old = rule := by
  have hdrop : ∀ i < edits.length, ∀ given,
      ((edits ++ [e]).drop (i + 1)).foldl (fun r e => e.revise name r) given
        = e.revise name ((edits.drop (i + 1)).foldl (fun r e => e.revise name r) given) := by
    intro i hi given
    rw [List.drop_append_of_le_length hi, List.foldl_append]
    rfl
  rw [Gives, settings_concat_of_other hset hremove]
  constructor
  · rintro ⟨i, e', given, hi, he', hgiven, rfl⟩
    have hlt := lt_of_mem_settings hi.1
    rw [List.getElem?_append_left hlt] at he'
    exact ⟨_, ⟨i, e', given, hi, he', hgiven, rfl⟩, (hdrop i hlt given).symm⟩
  · rintro ⟨_, ⟨i, e', given, hi, he', hgiven, rfl⟩, rfl⟩
    have hlt := lt_of_mem_settings hi.1
    refine ⟨i, e', given, hi, ?_, hgiven, (hdrop i hlt given).symm⟩
    rw [List.getElem?_append_left hlt, he']

end Settings

-- ── What edits make ──────────────────────────────────────────────────────

/-- The grammar is as the edits say. -/
structure Records (edits : List Edit) (g : Grammar) : Prop where
  nodup : g.names.Nodup
  mem_names_iff : ∀ name, name ∈ g.names ↔ (settings edits name).Nonempty
  get?_iff : ∀ name rule, g.get? name = some rule ↔ Gives edits name rule
  ordered : g.names.Pairwise (Precedes edits)

section Apply

variable {edits : List Edit} {g : Grammar}

theorem names_modify (g : Grammar) (name : String) (f : Rule → Rule) :
    (g.modify name f).names = g.names := by
  rw [modify]
  split
  · next r hr => exact OrderedMap.names_set_of_mem (OrderedMap.mem_names_of_get? hr) (f r)
  · rfl

theorem get?_modify (g : Grammar) (n : String) (f : Rule → Rule) (name : String) :
    (g.modify n f).get? name = (g.get? name).map ((Edit.change n f).revise name) := by
  rw [modify]
  by_cases hname : n = name
  · obtain rfl := hname
    have hrevise : (Edit.change n f).revise n = f := funext fun r => if_pos rfl
    rw [hrevise]
    split
    · next r hr =>
        rw [hr]
        exact OrderedMap.get?_set_self n (f r) g.rules
    · next hr => rw [hr, Option.map_none]
  · have hrevise : (Edit.change n f).revise name = id := funext fun r => if_neg hname
    rw [hrevise, Option.map_id, id_eq]
    split
    · next r hr => exact OrderedMap.get?_set_of_ne (Ne.symm hname) (f r) g.rules
    · rfl

/-- The names that are left after an edit keep their order. -/
theorem Precedes.concat {e : Edit} {a b : String} (h : Precedes edits a b)
    (ha : e ≠ .remove a) (hb : e ≠ .remove b) : Precedes (edits ++ [e]) a b := by
  obtain ⟨i, j, hi, hj, hlt⟩ := h
  exact ⟨i, j, isLeast_concat hi ha, isLeast_concat hj hb, hlt⟩

/-- The rule of a name that is neither set nor taken out is revised. -/
theorem Records.get?_iff_of_other (h : Records edits g) {e : Edit} {g' : Grammar} {name : String}
    (hset : ∀ r, e.setting? ≠ some (name, r)) (hremove : e ≠ .remove name)
    (hget : g'.get? name = (g.get? name).map (e.revise name)) (rule : Rule) :
    g'.get? name = some rule ↔ Gives (edits ++ [e]) name rule := by
  rw [hget, Option.map_eq_some_iff, gives_concat_of_other hset hremove]
  exact exists_congr fun old => and_congr_left' (h.get?_iff name old)

/-- The first setting of a name that was not there puts it at the end. -/
theorem Records.ordered_set (h : Records edits g) {e : Edit} {name : String} {r : Rule}
    (he : e.setting? = some (name, r)) :
    (g.set name r).names.Pairwise (Precedes (edits ++ [e])) := by
  classical
  have hkept : ∀ n, e ≠ .remove n := by
    rintro n rfl
    cases he
  have hold : g.names.Pairwise (Precedes (edits ++ [e])) :=
    h.ordered.imp fun hab => hab.concat (hkept _) (hkept _)
  by_cases hname : name ∈ g.names
  · have hsame : (g.set name r).names = g.names := OrderedMap.names_set_of_mem hname r
    rw [hsame]
    exact hold
  · have hnew : (g.set name r).names = g.names ++ [name] := by
      rw [names, names, Grammar.set, OrderedMap.set_of_not_mem hname, OrderedMap.names_append]
      rfl
    have hunset : ¬ (settings edits name).Nonempty := mt (h.mem_names_iff name).mpr hname
    have hfirst : IsLeast (settings (edits ++ [e]) name) edits.length := by
      refine ⟨(isGreatest_concat he).1, fun k hk => ?_⟩
      rcases mem_settings_concat.mp hk with ⟨hk, -⟩ | ⟨rfl, -⟩
      · exact absurd ⟨k, hk⟩ hunset
      · exact Nat.le_refl _
    rw [hnew, List.pairwise_append]
    refine ⟨hold, List.pairwise_singleton _ _, fun a ha b hb => ?_⟩
    obtain rfl := List.mem_singleton.mp hb
    -- a name that is there was set before this edit
    have hleast := ((h.mem_names_iff a).mp ha).isLeast_natFind
    exact ⟨_, edits.length, isLeast_concat hleast (hkept a), hfirst, lt_of_mem_settings hleast.1⟩

theorem Records.setting (h : Records edits g) {e : Edit} {name : String} {r : Rule}
    (he : e.setting? = some (name, r)) : Records (edits ++ [e]) (e.apply g) := by
  have hkept : ∀ n, e ≠ .remove n := by
    rintro n rfl
    cases he
  have hother : ∀ n, n ≠ name → ∀ s, e.setting? ≠ some (n, s) := by
    intro n hn s hs
    exact hn (congrArg Prod.fst (Option.some.inj (hs.symm.trans he)))
  rw [Edit.apply_of_setting he]
  constructor
  case nodup => exact nodup_names_set h.nodup name r
  case mem_names_iff =>
    intro n
    rw [mem_names_set]
    by_cases hn : n = name
    · obtain rfl := hn
      exact iff_of_true (.inl rfl) ⟨_, (isGreatest_concat he).1⟩
    · rw [settings_concat_of_other (hother n hn) (hkept n), or_iff_right hn, h.mem_names_iff]
  case get?_iff =>
    intro n rule
    by_cases hn : n = name
    · obtain rfl := hn
      have hget : (g.set n r).get? n = some r := OrderedMap.get?_set_self n r g.rules
      rw [hget, gives_concat_of_setting he, Option.some_inj, eq_comm]
    · refine h.get?_iff_of_other (hother n hn) (hkept n) ?_ rule
      have hrevise : e.revise n = id := funext fun s => Edit.revise_of_setting he n s
      rw [hrevise, Option.map_id]
      exact OrderedMap.get?_set_of_ne hn r g.rules
  case ordered => exact h.ordered_set he

theorem Records.remove (h : Records edits g) (name : String) :
    Records (edits ++ [.remove name]) (g.remove name) := by
  have hset : ∀ n r, (Edit.remove name).setting? ≠ some (n, r) :=
    fun n r hr => Option.some_ne_none _ hr.symm
  have hother : ∀ n, n ≠ name → Edit.remove name ≠ .remove n :=
    fun n hn heq => hn (Edit.remove.inj heq).symm
  have hnames : (g.remove name).names = g.names.erase name :=
    OrderedMap.names_remove name g.rules
  constructor
  case nodup => exact OrderedMap.nodup_names_remove h.nodup name
  case mem_names_iff =>
    intro n
    rw [hnames, h.nodup.mem_erase_iff]
    by_cases hn : n = name
    · obtain rfl := hn
      rw [settings_concat_remove]
      exact iff_of_false (fun hmem => hmem.1 rfl) Set.not_nonempty_empty
    · rw [settings_concat_of_other (hset n) (hother n hn), and_iff_right hn, h.mem_names_iff]
  case get?_iff =>
    intro n rule
    by_cases hn : n = name
    · obtain rfl := hn
      have hget : (g.remove n).get? n = none := OrderedMap.get?_remove_self h.nodup n
      rw [hget]
      refine iff_of_false nofun ?_
      rintro ⟨i, -, -, hi, -⟩
      rw [settings_concat_remove] at hi
      exact hi.1
    · refine h.get?_iff_of_other (hset n) (hother n hn) ?_ rule
      have hrevise : (Edit.remove name).revise n = id := rfl
      rw [hrevise, Option.map_id]
      exact OrderedMap.get?_remove_of_ne hn g.rules
  case ordered =>
    have hleft : ∀ n ∈ g.names.erase name, Edit.remove name ≠ .remove n :=
      fun n hn => hother n (h.nodup.mem_erase_iff.mp hn).1
    rw [hnames]
    refine (h.ordered.sublist List.erase_sublist).imp_of_mem fun {a b} ha hb hab => ?_
    exact hab.concat (hleft a ha) (hleft b hb)

theorem Records.change (h : Records edits g) (name : String) (f : Rule → Rule) :
    Records (edits ++ [.change name f]) (g.modify name f) := by
  have hset : ∀ n r, (Edit.change name f).setting? ≠ some (n, r) :=
    fun n r hr => Option.some_ne_none _ hr.symm
  have hkept : ∀ n, Edit.change name f ≠ .remove n := nofun
  constructor
  case nodup =>
    rw [names_modify]
    exact h.nodup
  case mem_names_iff =>
    intro n
    rw [names_modify, settings_concat_of_other (hset n) (hkept n), h.mem_names_iff]
  case get?_iff =>
    exact fun n rule => h.get?_iff_of_other (hset n) (hkept n) (get?_modify g name f n) rule
  case ordered =>
    rw [names_modify]
    exact h.ordered.imp fun hab => hab.concat (hkept _) (hkept _)

/-- A grammar that is as the edits say is so after one more edit. -/
theorem Records.apply (h : Records edits g) (e : Edit) : Records (edits ++ [e]) (e.apply g) := by
  cases e with
  | set name r => exact h.setting rfl
  | token name r => exact h.setting rfl
  | rest id => exact h.setting rfl
  | remove name => exact h.remove name
  | change name f => exact h.change name f

/-- What edits make of the grammar without rules is as they say. -/
theorem records_build (edits : List Edit) : Records edits (build edits) := by
  induction edits using List.reverseRecOn with
  | nil =>
      have hempty : ∀ name, settings [] name = ∅ := fun name =>
        Set.eq_empty_of_forall_notMem fun i hi => absurd (lt_of_mem_settings hi) (Nat.not_lt_zero i)
      constructor
      case nodup => exact .nil
      case mem_names_iff =>
        intro name
        rw [hempty]
        exact iff_of_false List.not_mem_nil Set.not_nonempty_empty
      case get?_iff =>
        rintro name rule
        refine iff_of_false nofun ?_
        rintro ⟨i, -, -, hi, -⟩
        rw [hempty] at hi
        exact hi.1
      case ordered => exact .nil
  | append_singleton edits e ih =>
      have hbuild : build (edits ++ [e]) = e.apply (build edits) := List.foldl_append
      rw [hbuild]
      exact ih.apply e

/-- Editing keeps names apart, whatever grammar is edited. -/
theorem nodup_names_applyAll (h : g.names.Nodup) (edits : List Edit) :
    (Edit.applyAll edits g).names.Nodup := by
  refine edits.foldlRecOn (motive := fun g : Grammar => g.names.Nodup) _ h fun g hg e _ => ?_
  cases e with
  | set name r => exact nodup_names_set hg name r
  | token name r => exact nodup_names_set hg name r
  | rest id => exact nodup_names_set hg restName _
  | remove name => exact OrderedMap.nodup_names_remove hg name
  | change name f =>
      show (g.modify name f).names.Nodup
      rw [names_modify]
      exact hg

end Apply

end Highlighter.Grammar
