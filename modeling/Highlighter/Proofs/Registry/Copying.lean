import Highlighter.Proofs.Grammar.Exploration
import Highlighter.Proofs.Registry.Extension

/-! # Copies and their originals

    A copy takes along all that the original can reach: the walk enters
    every grammar that a grammar it has entered refers to
    (`reachable_complete`).  So a reference between copied grammars becomes
    one between their copies, and what is copied is written like its copy
    (`bisimulation_withCopies`): the copy tokenizes as the original does.

    The grammars that were there refer to one another only, and copies
    refer to copies.  What is done to the ones does not show in the others
    (`copy_tokenize`). -/

namespace Highlighter

variable {gs : List Grammar}

-- ── Copies ───────────────────────────────────────────────────────────────

/-- A copy keeps its number when more is copied. -/
theorem copyOf_extended {start : Nat} {copied more : List GrammarId} (h : copied <+: more)
    {a : GrammarId} (ha : a ∈ copied) : copyOf start more a = copyOf start copied a := by
  obtain ⟨rest, rfl⟩ := h
  rw [copyOf, copyOf, List.idxOf_append_of_mem ha]

/-- The next grammar to be copied gets the next number. -/
theorem copyOf_concat {start : Nat} {copied : List GrammarId} {a : GrammarId} (ha : a ∉ copied) :
    copyOf start (copied ++ [a]) a = start + copied.length := by
  rw [copyOf, List.idxOf_append_of_notMem ha, List.idxOf_cons_self, Nat.add_zero]

theorem copyOf_lt {start : Nat} {copied : List GrammarId} {a : GrammarId} (ha : a ∈ copied) :
    copyOf start copied a < start + copied.length :=
  Nat.add_lt_add_left (List.idxOf_lt_length_of_mem ha) start

theorem copyOf_inj {start : Nat} {copied : List GrammarId} {a b : GrammarId} (ha : a ∈ copied)
    (h : copyOf start copied a = copyOf start copied b) : a = b :=
  (List.idxOf_inj ha).mp (Nat.add_left_cancel h)

/-- A grammar is written like the one with its references changed. -/
theorem Grammar.Alike.of_mapReferences {R : GrammarId → GrammarId → Prop}
    {f : GrammarId → GrammarId} {g : Grammar} (h : ∀ a ∈ g.references, R a (f a)) :
    g.Alike R (g.mapReferences f) := by
  refine List.forall₂_map_right_iff.mpr (List.forall₂_same.mpr fun r hr => ⟨rfl, ?_⟩)
  have hrefs : ∀ a ∈ r.2.references, R a (f a) :=
    fun a ha => h a (List.mem_flatMap.mpr ⟨r, hr, ha⟩)
  obtain ⟨name, rule⟩ := r
  cases rule with
  | grammar id => exact .grammar (hrefs id List.mem_cons_self)
  | patterns ps =>
      have hall : ∀ p ∈ ps.toList, p.Alike R { p with inside := p.inside.map f } := by
        intro p hp
        refine ⟨_, rfl, ?_⟩
        cases hi : p.inside with
        | none => exact .none
        | some a => exact .some (hrefs a (List.mem_filterMap.mpr ⟨p, hp, hi⟩))
      cases ps with
      | single p => exact .single (hall p List.mem_cons_self)
      | alternatives ps =>
          exact .alternatives (List.forall₂_map_right_iff.mpr (List.forall₂_same.mpr hall))

/-- There is a copy of every grammar that was copied. -/
theorem withCopies_eq_append {copied : List GrammarId} (hcopied : ∀ a ∈ copied, a < gs.length) :
    withCopies gs copied = gs ++ copied.map fun id =>
      Grammar.mapReferences (copyOf gs.length copied) (gs[id]?.getD {}) := by
  refine congrArg (gs ++ ·) (List.filterMap_eq_map_iff_forall_eq_some.mpr fun id hid => ?_)
  rw [List.getElem?_eq_getElem (hcopied id hid)]
  rfl

theorem length_withCopies {copied : List GrammarId} (hcopied : ∀ a ∈ copied, a < gs.length) :
    (withCopies gs copied).length = gs.length + copied.length := by
  rw [withCopies_eq_append hcopied, List.length_append, List.length_map]

/-- The copy of a grammar is the grammar with the references to copies. -/
theorem withCopies_copyOf {copied : List GrammarId} (hcopied : ∀ a ∈ copied, a < gs.length)
    {a : GrammarId} (ha : a ∈ copied) :
    (withCopies gs copied)[copyOf gs.length copied a]?
      = (gs[a]?).map (Grammar.mapReferences (copyOf gs.length copied)) := by
  have hindex : copied[copied.idxOf a]? = some a := List.getElem?_idxOf ha
  rw [withCopies_eq_append hcopied, copyOf, List.getElem?_append_right (Nat.le_add_right _ _),
    Nat.add_sub_cancel_left, List.getElem?_map, hindex, Option.map_some,
    List.getElem?_eq_getElem (hcopied a ha)]
  rfl

/-- Copied grammars and their copies are a bisimulation. -/
theorem bisimulation_withCopies {copied : List GrammarId} (hcopied : ∀ a ∈ copied, a < gs.length)
    (hrefers : ∀ a b, a ∈ copied → Refers gs a b → b ∈ copied) :
    Bisimulation gs (withCopies gs copied)
      fun a b => a ∈ copied ∧ b = copyOf gs.length copied a := by
  rintro a _ ⟨ha, rfl⟩
  have hg : gs[a]? = some (gs.get ⟨a, hcopied a ha⟩) := List.getElem?_eq_getElem (hcopied a ha)
  rw [withCopies_copyOf hcopied ha, hg]
  refine ⟨.some (.of_mapReferences fun b hb => ⟨?_, rfl⟩), nofun⟩
  exact hrefers a b ha ⟨_, hg, hb⟩

-- ── Changes ──────────────────────────────────────────────────────────────

/-- A change to one rule of a grammar. -/
inductive RuleChange where
  | set (name : String) (rule : Rule)
  | remove (name : String)

/-- The grammar with a rule changed. -/
def RuleChange.apply : RuleChange → Grammar → Grammar
  | .set name rule, g => g.set name rule
  | .remove name, g => g.remove name

/-- The grammars with rules changed one after the other, each in the grammar
    with the number beside it. -/
def changeAll (gs : List Grammar) (changes : List (GrammarId × RuleChange)) : List Grammar :=
  changes.foldl (fun gs change => gs.modify change.1 change.2.apply) gs

/-- A grammar that is not changed stays. -/
theorem changeAll_getElem? {a : GrammarId} (changes : List (GrammarId × RuleChange))
    (h : ∀ change ∈ changes, change.1 ≠ a) : (changeAll gs changes)[a]? = gs[a]? := by
  induction changes generalizing gs with
  | nil => rfl
  | cons change changes ih =>
      obtain ⟨hne, h⟩ := List.forall_mem_cons.mp h
      rw [changeAll, List.foldl_cons, ← changeAll, ih h, List.getElem?_modify_ne _ _ hne]

/-- Tokenizing looks at a sealed set of grammars only. -/
theorem tokenize_of_sealed {hs : List Grammar} {S : GrammarId → Prop} (hS : Sealed gs S)
    (hsame : ∀ a, S a → gs[a]? = hs[a]?) {a : GrammarId} (ha : S a) (text : String) :
    Tokenizer.tokenize hs a text = Tokenizer.tokenize gs a text :=
  (Tokenizer.tokenize_eq_of_bisimulation (bisimulation_of_sealed hS hsame) ⟨rfl, ha⟩ text).symm

/-- What is changed among the copies does not show in the grammars that
    were there. -/
theorem tokenize_original (h : Closed gs) (copied : List GrammarId)
    {changes : List (GrammarId × RuleChange)} (hchanges : ∀ change ∈ changes, gs.length ≤ change.1)
    {a : GrammarId} (ha : a < gs.length) (text : String) :
    Tokenizer.tokenize (changeAll (withCopies gs copied) changes) a text
      = Tokenizer.tokenize gs a text := by
  have hsealed : Sealed gs fun a => a < gs.length :=
    fun _ b _ ⟨g, hg, hb⟩ => h g (List.mem_of_getElem? hg) b hb
  refine tokenize_of_sealed hsealed (fun b hb => ?_) ha text
  have hother : ∀ change ∈ changes, change.1 ≠ b :=
    fun change hc => Nat.ne_of_gt (Nat.lt_of_lt_of_le hb (hchanges change hc))
  rw [changeAll_getElem? changes hother, withCopies_getElem? hb]

/-- What is changed among the grammars that were there does not show in the
    copies. -/
theorem tokenize_copy (copied : List GrammarId) {changes : List (GrammarId × RuleChange)}
    (hchanges : ∀ change ∈ changes, change.1 < gs.length) {a : GrammarId} (ha : gs.length ≤ a)
    (text : String) :
    Tokenizer.tokenize (changeAll (withCopies gs copied) changes) a text
      = Tokenizer.tokenize (withCopies gs copied) a text := by
  have hsealed : Sealed (withCopies gs copied) fun a => gs.length ≤ a :=
    fun _ _ ha ⟨_, hg, hb⟩ => length_le_of_mem_copy ha hg hb
  refine tokenize_of_sealed hsealed (fun b hb => (changeAll_getElem? changes ?_).symm) ha text
  exact fun change hc => Nat.ne_of_lt (Nat.lt_of_lt_of_le (hchanges change hc) hb)

/-- A copy tokenizes every text as the original does.  Whatever rules are
    set or removed in the grammars that came with the copy, those that were
    there before tokenize every text as before; and so does the copy when
    those are changed. -/
theorem Catalog.copy_tokenize {c : Catalog} (hclosed : Closed c.grammars) {id : GrammarId}
    (hid : id < c.grammars.length) :
    ∃ new c', c.copy id = .ok (new, c') ∧ c.grammars.length ≤ new ∧
      new < c'.grammars.length ∧
      (∀ text, Tokenizer.tokenize c'.grammars new text = Tokenizer.tokenize c.grammars id text) ∧
      (∀ changes : List (GrammarId × RuleChange),
        (∀ change ∈ changes, c.grammars.length ≤ change.1) →
        ∀ a < c.grammars.length, ∀ text,
          Tokenizer.tokenize (changeAll c'.grammars changes) a text
            = Tokenizer.tokenize c.grammars a text) ∧
      ∀ changes : List (GrammarId × RuleChange),
        (∀ change ∈ changes, change.1 < c.grammars.length) →
        ∀ text, Tokenizer.tokenize (changeAll c'.grammars changes) new text
          = Tokenizer.tokenize c.grammars id text := by
  obtain ⟨others, hreach, hreaches, -⟩ := reachable_of_closed hclosed hid
  have hcopied : ∀ a ∈ id :: others, a < c.grammars.length :=
    fun a ha => hclosed.reaches_lt hid (hreaches a ha)
  have hcopy : c.copy id = .ok (copyOf c.grammars.length (id :: others) id,
      { c with grammars := withCopies c.grammars (id :: others) }) := by
    rw [copy, deepCopy, hreach]
    rfl
  have hnew : copyOf c.grammars.length (id :: others) id = c.grammars.length := by
    rw [copyOf, List.idxOf_cons_self, Nat.add_zero]
  have hsame : ∀ text, Tokenizer.tokenize (withCopies c.grammars (id :: others))
      c.grammars.length text = Tokenizer.tokenize c.grammars id text := by
    intro text
    have hbisim := bisimulation_withCopies hcopied
      fun a b ha hab => reachable_complete hreach ha hab
    exact (Tokenizer.tokenize_eq_of_bisimulation hbisim ⟨List.mem_cons_self, hnew.symm⟩ text).symm
  rw [hnew] at hcopy
  refine ⟨_, _, hcopy, Nat.le_refl _, ?_, hsame,
    fun changes hchanges a ha => tokenize_original hclosed _ hchanges ha,
    fun changes hchanges text => ?_⟩
  · have hfirst := withCopies_copyOf hcopied List.mem_cons_self
    rw [hnew, List.getElem?_eq_getElem hid] at hfirst
    exact (List.getElem?_eq_some_iff.mp hfirst).1
  · exact (tokenize_copy _ hchanges (Nat.le_refl _) text).trans (hsame text)

/-- A word with letters inside of it, and letters that have the words merged
    into them. -/
def wordsAndLetters : Catalog :=
  { grammars :=
      [⟨[("word", .patterns (.single
          { regex := Regex.ofStrings "[a-z]+" "", inside := some 1 }))]⟩,
        ⟨[("letter", .patterns (.single { regex := Regex.ofStrings "[a-z]" "" })),
          (restName, .grammar 0)]⟩] }

theorem wordsAndLetters_closed : Closed wordsAndLetters.grammars := by
  intro g hg a ha
  rcases List.mem_cons.mp hg with rfl | hg
  · obtain rfl := List.mem_singleton.mp ha
    exact Nat.lt_succ_self 1
  · obtain rfl := List.mem_singleton.mp hg
    obtain rfl := List.mem_singleton.mp ha
    exact Nat.zero_lt_two

/-- Two grammars that refer to each other are copied, and in the copy the
    letters are changed to refer to the words that were there. -/
theorem Catalog.copy_tokenize_of_mutual :
    (Closed wordsAndLetters.grammars ∧ 0 < wordsAndLetters.grammars.length) ∧
      ∃ new c', wordsAndLetters.copy 0 = .ok (new, c') ∧
        (∀ text, Tokenizer.tokenize c'.grammars new text
          = Tokenizer.tokenize wordsAndLetters.grammars 0 text) ∧
        ∀ text, Tokenizer.tokenize (changeAll c'.grammars
            [(2, .remove "word"), (3, .set "letter" (.grammar 0))]) 0 text
          = Tokenizer.tokenize wordsAndLetters.grammars 0 text := by
  have hclosed := wordsAndLetters_closed
  have hid : 0 < wordsAndLetters.grammars.length := Nat.zero_lt_two
  obtain ⟨new, c', hcopy, -, -, hsame, hchanged, -⟩ := Catalog.copy_tokenize hclosed hid
  refine ⟨⟨hclosed, hid⟩, new, c', hcopy, hsame, hchanged _ (fun change hc => ?_) 0 hid⟩
  rcases List.mem_cons.mp hc with rfl | hc
  · exact Nat.le_refl 2
  · obtain rfl := List.mem_singleton.mp hc
    exact Nat.le_succ 2

end Highlighter
