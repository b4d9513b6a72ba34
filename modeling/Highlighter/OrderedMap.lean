/-! # Ordered maps

    A list of named values as a map: setting a name replaces its value
    where it stands or adds it at the end, so the names keep the order of
    their first setting and never repeat. -/

namespace Highlighter.OrderedMap

variable {α : Type}

/-- The names, in order. -/
def names (entries : List (String × α)) : List String := entries.map (·.1)

/-- The value of a name. -/
def get? (name : String) (entries : List (String × α)) : Option α :=
  (entries.find? (·.1 == name)).map (·.2)

/-- Gives a name a value: in place of the one it has, or at the end. -/
def set (name : String) (a : α) : List (String × α) → List (String × α)
  | [] => [(name, a)]
  | (n, old) :: entries => if n == name then (n, a) :: entries else (n, old) :: set name a entries

/-- Takes out a name. -/
def remove (name : String) (entries : List (String × α)) : List (String × α) :=
  entries.eraseP (·.1 == name)

/-- Sets one entry after the other. -/
def setAll (entries : List (String × α)) (more : List (String × α)) : List (String × α) :=
  more.foldl (fun entries e => set e.1 e.2 entries) entries

theorem mem_names_set {entries : List (String × α)} {name n : String} {a : α} :
    n ∈ names (set name a entries) ↔ n = name ∨ n ∈ names entries := by
  induction entries with
  | nil => simp [set, names]
  | cons e es ih =>
      obtain ⟨m, old⟩ := e
      rw [set]
      split <;> rename_i h
      · have : m = name := by simpa using h
        subst this
        simp [names]
      · simp only [names, List.map_cons, List.mem_cons] at ih ⊢
        rw [ih]
        exact ⟨fun h => h.elim (fun h => .inr (.inl h)) (fun h => h.imp_right .inr),
          fun h => h.elim (fun h => .inr (.inl h)) (fun h => h.imp_right .inr)⟩

/-- Setting adds one entry to those that were there. -/
theorem mem_set {entries : List (String × α)} {name : String} {a : α} {e : String × α}
    (h : e ∈ set name a entries) : e = (name, a) ∨ e ∈ entries := by
  induction entries with
  | nil => exact .inl (List.mem_singleton.mp h)
  | cons f es ih =>
      obtain ⟨m, old⟩ := f
      rw [set] at h
      by_cases hm : (m == name) = true
      · rw [if_pos hm] at h
        obtain rfl : m = name := eq_of_beq hm
        rcases List.mem_cons.mp h with rfl | h
        · exact .inl rfl
        · exact .inr (List.mem_cons_of_mem _ h)
      · rw [if_neg hm] at h
        rcases List.mem_cons.mp h with rfl | h
        · exact .inr List.mem_cons_self
        · exact (ih h).imp_right (List.mem_cons_of_mem _)

/-- Setting keeps the names apart. -/
theorem nodup_names_set {entries : List (String × α)} (h : (names entries).Nodup) (name : String)
    (a : α) : (names (set name a entries)).Nodup := by
  induction entries with
  | nil => simp [set, names]
  | cons e es ih =>
      obtain ⟨m, old⟩ := e
      rw [names, List.map_cons, List.nodup_cons] at h
      rw [set]
      split <;> rename_i hm
      · rw [names, List.map_cons, List.nodup_cons]
        exact h
      · rw [names, List.map_cons, List.nodup_cons]
        refine ⟨fun hmem => ?_, ih h.2⟩
        rcases mem_names_set.mp hmem with rfl | hmem
        · simp at hm
        · exact h.1 hmem

/-- Setting several entries keeps the names apart. -/
theorem nodup_names_setAll {entries : List (String × α)} (h : (names entries).Nodup)
    (more : List (String × α)) : (names (setAll entries more)).Nodup := by
  induction more generalizing entries with
  | nil => exact h
  | cons e es ih => exact ih (nodup_names_set h e.1 e.2)

/-- Taking out a name keeps the others apart. -/
theorem nodup_names_remove {entries : List (String × α)} (h : (names entries).Nodup)
    (name : String) : (names (remove name entries)).Nodup :=
  h.sublist ((List.eraseP_sublist).map _)

/-- The value just set. -/
theorem get?_set_self (name : String) (a : α) (entries : List (String × α)) :
    get? name (set name a entries) = some a := by
  induction entries with
  | nil => simp [set, get?]
  | cons e es ih =>
      obtain ⟨m, old⟩ := e
      rw [set]
      split <;> rename_i h
      · simp only [get?, List.find?_cons, h, Option.map_some]
      · simp only [get?, List.find?_cons, h] at ih ⊢
        exact ih

/-- The value of another name. -/
theorem get?_set_of_ne {name n : String} (h : n ≠ name) (a : α) (entries : List (String × α)) :
    get? n (set name a entries) = get? n entries := by
  induction entries with
  | nil =>
      have : (name == n) = false := beq_eq_false_iff_ne.mpr (Ne.symm h)
      simp [set, get?, this]
  | cons e es ih =>
      obtain ⟨m, old⟩ := e
      rw [set]
      split <;> rename_i hm
      · have hmn : (m == n) = false := by
          obtain rfl : m = name := by simpa using hm
          exact beq_eq_false_iff_ne.mpr (Ne.symm h)
        simp only [get?, List.find?_cons, hmn]
      · simp only [get?, List.find?_cons] at ih ⊢
        cases hmn : m == n
        · exact ih
        · rfl

theorem get?_eq_none_iff {name : String} {entries : List (String × α)} :
    get? name entries = none ↔ name ∉ names entries := by
  rw [get?, Option.map_eq_none_iff, List.find?_eq_none, names, List.mem_map]
  constructor
  · rintro h ⟨e, he, rfl⟩
    exact h e he (beq_self_eq_true _)
  · intro h e he heq
    exact h ⟨e, he, eq_of_beq heq⟩

theorem mem_of_get? {name : String} {a : α} {entries : List (String × α)}
    (h : get? name entries = some a) : (name, a) ∈ entries := by
  obtain ⟨e, he, rfl⟩ := Option.map_eq_some_iff.mp h
  have hname := List.find?_some he
  obtain rfl : e.1 = name := eq_of_beq hname
  exact List.mem_of_find?_eq_some he

/-- Where names do not repeat, an entry is found by its name. -/
theorem get?_of_mem {entries : List (String × α)} (h : (names entries).Nodup) {e : String × α}
    (he : e ∈ entries) : get? e.1 entries = some e.2 := by
  induction entries with
  | nil => exact nomatch he
  | cons f es ih =>
      rw [names, List.map_cons, List.nodup_cons] at h
      rw [get?, List.find?_cons]
      rcases List.mem_cons.mp he with rfl | he
      · rw [beq_self_eq_true]
        rfl
      · have hne : (f.1 == e.1) = false := by
          rw [beq_eq_false_iff_ne]
          exact fun heq => h.1 (heq ▸ List.mem_map_of_mem he)
        rw [hne]
        exact ih h.2 he

theorem mem_names_of_get? {name : String} {a : α} {entries : List (String × α)}
    (h : get? name entries = some a) : name ∈ names entries :=
  List.mem_map_of_mem (mem_of_get? h)

theorem exists_get?_of_mem_names {name : String} {entries : List (String × α)}
    (h : name ∈ names entries) : ∃ a, get? name entries = some a := by
  cases ha : get? name entries with
  | none => exact absurd h (get?_eq_none_iff.mp ha)
  | some a => exact ⟨a, rfl⟩

/-- Changing all values commutes with setting one. -/
theorem map_set (f : α → α) (name : String) (a : α) (entries : List (String × α)) :
    (set name a entries).map (fun e => (e.1, f e.2))
      = set name (f a) (entries.map fun e => (e.1, f e.2)) := by
  induction entries with
  | nil => rfl
  | cons e es ih =>
      obtain ⟨m, old⟩ := e
      rw [set, List.map_cons, set]
      split
      · rfl
      · rw [List.map_cons, ih]

theorem get?_append (name : String) (entries more : List (String × α)) :
    get? name (entries ++ more) = (get? name entries).or (get? name more) := by
  simp only [get?, List.find?_append]
  cases entries.find? (·.1 == name) <;> rfl

/-- A name that is there keeps its place. -/
theorem names_set_of_mem {name : String} {entries : List (String × α)} (h : name ∈ names entries)
    (a : α) : names (set name a entries) = names entries := by
  induction entries with
  | nil => exact nomatch h
  | cons e es ih =>
      obtain ⟨m, old⟩ := e
      rw [set]
      by_cases hm : (m == name) = true
      · rw [if_pos hm]
        rfl
      · have hne : name ≠ m := fun heq => hm (beq_iff_eq.mpr heq.symm)
        rw [if_neg hm]
        exact congrArg (m :: ·) (ih ((List.mem_cons.mp h).resolve_left hne))

theorem names_append (entries more : List (String × α)) :
    names (entries ++ more) = names entries ++ names more := List.map_append

/-- A new name stands at the end. -/
theorem set_of_not_mem {name : String} {entries : List (String × α)} (h : name ∉ names entries)
    (a : α) : set name a entries = entries ++ [(name, a)] := by
  induction entries with
  | nil => rfl
  | cons e es ih =>
      obtain ⟨m, old⟩ := e
      rw [names, List.map_cons, List.mem_cons, not_or] at h
      have hm : ¬ (m == name) = true := fun heq => h.1 (eq_of_beq heq).symm
      rw [set, if_neg hm, ih h.2, List.cons_append]

end Highlighter.OrderedMap
