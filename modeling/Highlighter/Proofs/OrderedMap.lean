import Highlighter.OrderedMap

/-! # Laws of ordered maps

    Where names stand and which values they have after several entries were
    set (`names_setAll`, `get?_setAll`), a name was taken out
    (`names_remove`, `get?_remove_self`) or all values were changed.  A map
    without repeated names is nothing but its names in order and their
    values (`ext_get?`). -/

namespace Highlighter.OrderedMap

variable {α : Type}

-- ── Setting several entries ──────────────────────────────────────────────

/-- Setting several entries adds these to those that were there. -/
theorem mem_setAll {entries more : List (String × α)} {e : String × α}
    (h : e ∈ setAll entries more) : e ∈ entries ∨ e ∈ more := by
  induction more generalizing entries with
  | nil => exact .inl h
  | cons m more ih =>
      have hset : e ∈ set m.1 m.2 entries ∨ e ∈ more := ih h
      rcases hset with h | h
      · rcases mem_set h with rfl | h
        · exact .inr List.mem_cons_self
        · exact .inl h
      · exact .inr (List.mem_cons_of_mem _ h)

theorem set_ne_nil (name : String) (a : α) (entries : List (String × α)) :
    set name a entries ≠ [] := by
  cases entries with
  | nil => exact List.cons_ne_nil _ _
  | cons e es =>
      rw [set]
      split <;> exact List.cons_ne_nil _ _

/-- No entries are left only where there were none and none were set. -/
theorem setAll_eq_nil_iff {entries more : List (String × α)} :
    setAll entries more = [] ↔ entries = [] ∧ more = [] := by
  induction more generalizing entries with
  | nil => exact (and_iff_left rfl).symm
  | cons m more ih =>
      refine iff_of_false (fun h => ?_) fun h => List.cons_ne_nil _ _ h.2
      exact set_ne_nil _ _ _ (ih.mp h).1

/-- Setting several entries adds the names that are new, in order. -/
theorem names_setAll {more : List (String × α)} (hmore : (names more).Nodup)
    (entries : List (String × α)) :
    names (setAll entries more) = names entries ++ (names more).filter (· ∉ names entries) := by
  induction more generalizing entries with
  | nil => exact (List.append_nil _).symm
  | cons e es ih =>
      obtain ⟨m, a⟩ := e
      obtain ⟨hm, hes⟩ := List.nodup_cons.mp hmore
      show names (setAll (set m a entries) es) = names entries ++ (m :: names es).filter _
      rw [ih hes]
      by_cases hin : m ∈ names entries
      · rw [names_set_of_mem hin, List.filter_cons_of_neg (by simpa using hin)]
      · have hothers : ∀ n ∈ names es,
            decide (n ∉ names entries ++ [m]) = decide (n ∉ names entries) := by
          rintro n hn
          have hne : n ≠ m := fun heq => hm (heq ▸ hn)
          simp [hne]
        rw [set_of_not_mem hin, names_append, List.filter_cons_of_pos (by simpa using hin),
          List.append_assoc]
        exact congrArg (fun ns => names entries ++ m :: ns) (List.filter_congr hothers)

theorem get?_cons_self (name : String) (a : α) (entries : List (String × α)) :
    get? name ((name, a) :: entries) = some a := by
  simp [get?]

theorem get?_cons_of_ne {name n : String} (h : n ≠ name) (a : α) (entries : List (String × α)) :
    get? n ((name, a) :: entries) = get? n entries := by
  have hne : (name == n) = false := beq_eq_false_iff_ne.mpr (Ne.symm h)
  simp [get?, hne]

/-- Setting several entries gives their names their values. -/
theorem get?_setAll {more : List (String × α)} (hmore : (names more).Nodup)
    (entries : List (String × α)) (name : String) :
    get? name (setAll entries more) = (get? name more).or (get? name entries) := by
  induction more generalizing entries with
  | nil => rfl
  | cons e es ih =>
      obtain ⟨m, a⟩ := e
      obtain ⟨hm, hes⟩ := List.nodup_cons.mp hmore
      show get? name (setAll (set m a entries) es) = _
      rw [ih hes]
      by_cases hname : name = m
      · obtain rfl := hname
        rw [get?_eq_none_iff.mpr hm, get?_set_self, get?_cons_self]
        rfl
      · rw [get?_set_of_ne hname, get?_cons_of_ne hname]

/-- Entries whose names are new stand at the end. -/
theorem setAll_of_nodup {entries more : List (String × α)}
    (h : (names (entries ++ more)).Nodup) : setAll entries more = entries ++ more := by
  induction more generalizing entries with
  | nil => exact (List.append_nil entries).symm
  | cons e es ih =>
      obtain ⟨m, a⟩ := e
      have hm : m ∉ names entries := by
        rw [names_append] at h
        exact fun hin => (List.nodup_append.mp h).2.2 m hin m List.mem_cons_self rfl
      show setAll (set m a entries) es = _
      rw [List.append_cons] at h ⊢
      rw [set_of_not_mem hm, ih h]

-- ── Taking out a name ────────────────────────────────────────────────────

theorem remove_cons (name : String) (e : String × α) (entries : List (String × α)) :
    remove name (e :: entries) = if e.1 = name then entries else e :: remove name entries := by
  by_cases h : e.1 = name
  · rw [remove, List.eraseP_cons_of_pos (by simpa using h), if_pos h]
  · rw [remove, List.eraseP_cons_of_neg (by simpa using h), if_neg h]
    rfl

/-- Taking out a name leaves the others where they are. -/
theorem names_remove (name : String) (entries : List (String × α)) :
    names (remove name entries) = (names entries).erase name := by
  induction entries with
  | nil => rfl
  | cons e es ih =>
      have hcons : names (e :: es) = e.1 :: names es := rfl
      rw [remove_cons, hcons]
      split
      · next h => rw [h, List.erase_cons_head]
      · next h =>
          rw [List.erase_cons_tail (by simpa using h), ← ih]
          rfl

theorem get?_remove_self {entries : List (String × α)} (h : (names entries).Nodup)
    (name : String) : get? name (remove name entries) = none := by
  rw [get?_eq_none_iff, names_remove]
  exact fun hmem => (h.mem_erase_iff.mp hmem).1 rfl

theorem get?_remove_of_ne {name n : String} (h : n ≠ name) (entries : List (String × α)) :
    get? n (remove name entries) = get? n entries := by
  induction entries with
  | nil => rfl
  | cons e es ih =>
      obtain ⟨m, a⟩ := e
      rw [remove_cons]
      split
      · next hm =>
          obtain rfl : m = name := hm
          rw [get?_cons_of_ne h]
      · by_cases hn : n = m
        · rw [hn, get?_cons_self, get?_cons_self]
        · rw [get?_cons_of_ne hn, get?_cons_of_ne hn, ih]

/-- Where names do not repeat, taking out one is leaving out all of it. -/
theorem remove_eq_filter {entries : List (String × α)} (h : (names entries).Nodup)
    (name : String) : remove name entries = entries.filter (·.1 != name) := by
  induction entries with
  | nil => rfl
  | cons e es ih =>
      obtain ⟨he, hes⟩ := List.nodup_cons.mp h
      rw [remove_cons]
      split
      · next heq =>
          have hothers : ∀ f ∈ es, (f.1 != name) = true := by
            intro f hf
            refine bne_iff_ne.mpr fun hf' => ?_
            exact he (List.mem_map.mpr ⟨f, hf, hf'.trans heq.symm⟩)
          rw [List.filter_cons_of_neg (by simpa using heq), List.filter_eq_self.mpr hothers]
      · next hne => rw [List.filter_cons_of_pos (by simpa using hne), ih hes]

theorem names_filter (keep : String → Bool) (entries : List (String × α)) :
    names (entries.filter fun e => keep e.1) = (names entries).filter keep :=
  List.filter_map.symm

/-- What a name stands for does not depend on which others are left out. -/
theorem get?_filter (keep : String → Bool) {name : String} (h : keep name = true)
    (entries : List (String × α)) :
    get? name (entries.filter fun e => keep e.1) = get? name entries := by
  rw [get?, get?, List.find?_filter]
  refine congrArg (fun p => (entries.find? p).map (·.2)) (funext fun e => ?_)
  by_cases he : e.1 = name
  · simp [he, h]
  · simp [he]

-- ── Maps as names and values ─────────────────────────────────────────────

/-- A map in which no name stands twice is given by its names in order and
    by what they stand for. -/
theorem ext_get? {entries others : List (String × α)} (h : (names entries).Nodup)
    (hnames : names entries = names others)
    (hget : ∀ n ∈ names entries, get? n entries = get? n others) : entries = others := by
  induction entries generalizing others with
  | nil => exact (List.map_eq_nil_iff.mp hnames.symm).symm
  | cons e es ih =>
      obtain ⟨m, a⟩ := e
      cases others with
      | nil => cases hnames
      | cons o os =>
          obtain ⟨m', a'⟩ := o
          obtain ⟨rfl, hes⟩ : m = m' ∧ names es = names os := List.cons.inj hnames
          obtain ⟨hm, hnodup⟩ := List.nodup_cons.mp h
          have ha := hget m List.mem_cons_self
          rw [get?_cons_self, get?_cons_self] at ha
          have hothers : ∀ n ∈ names es, get? n es = get? n os := by
            intro n hn
            have hne : n ≠ m := fun heq => hm (heq ▸ hn)
            have hn := hget n (List.mem_cons_of_mem _ hn)
            rwa [get?_cons_of_ne hne, get?_cons_of_ne hne] at hn
          rw [Option.some.inj ha, ih hnodup hes hothers]

-- ── Changing all values ──────────────────────────────────────────────────

/-- Changing every value changes no name. -/
theorem names_mapWithName (f : String → α → α) (entries : List (String × α)) :
    names (entries.map fun e => (e.1, f e.1 e.2)) = names entries := by
  rw [names, names, List.map_map]
  rfl

/-- A value that is changed along with its name. -/
theorem get?_mapWithName (f : String → α → α) (name : String) (entries : List (String × α)) :
    get? name (entries.map fun e => (e.1, f e.1 e.2)) = (get? name entries).map (f name) := by
  induction entries with
  | nil => rfl
  | cons e es ih =>
      obtain ⟨m, a⟩ := e
      rw [List.map_cons]
      by_cases hm : name = m
      · rw [hm, get?_cons_self, get?_cons_self, Option.map_some]
      · rw [get?_cons_of_ne hm, get?_cons_of_ne hm, ih]

theorem names_map (f : α → α) (entries : List (String × α)) :
    names (entries.map fun e => (e.1, f e.2)) = names entries :=
  names_mapWithName (fun _ => f) entries

theorem get?_map (f : α → α) (name : String) (entries : List (String × α)) :
    get? name (entries.map fun e => (e.1, f e.2)) = (get? name entries).map f :=
  get?_mapWithName (fun _ => f) name entries

end Highlighter.OrderedMap
