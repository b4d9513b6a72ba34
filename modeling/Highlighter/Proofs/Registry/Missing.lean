import Highlighter.Proofs.Registry.Runs

/-! # Missing languages

    A missing language has a place, an empty grammar that is filled when the
    language comes.  Whatever is done to a registry apart from writing into
    its grammars, the places stay empty, with one exception: rules can be
    inserted into a place like into any other grammar.  Then the name points
    to the grammar with the rules and is missing all the same, so this one
    is replaced when the language comes.

    What is true is `Registry.missing_empty_iff`: the place of a missing
    language is empty if and only if no rules were inserted into it.  The
    invariant is `Catalog.Tracks`, with the names into whose places rules
    were inserted as its parameter. -/

namespace Highlighter

/-- An empty grammar finds nothing. -/
theorem Tokenizer.tokenize_of_empty {gs : List Grammar} {id : GrammarId} (h : gs[id]? = some {})
    (text : String) :
    tokenize gs id text = .ok (if text.isEmpty then [] else [.raw text]) := by
  have hentries : entries gs id = .ok [] := by
    rw [entries, mergedRules, grammarAt, h]
    rfl
  rw [tokenize, tokenizeWithin, tokenizeBy, hentries]
  split <;> rfl

-- ── The invariant ────────────────────────────────────────────────────────

namespace Catalog

/-- Each reserved name has a place of its own, which is empty unless the
    name is one of those that were filled; and these are names. -/
structure Tracks (filled : String → Prop) (c : Catalog) : Prop where
  place : ∀ n ∈ c.reserved, ∃ id g, c.target? n = some id ∧ c.grammars[id]? = some g ∧
    (g = {} ↔ ¬ filled n)
  own : ∀ n ∈ c.reserved, ∀ m ∈ c.reserved, ∀ id,
    c.target? n = some id → c.target? m = some id → m = n
  known : ∀ n, filled n → n ∈ OrderedMap.names c.names

section Tracks

variable {filled : String → Prop} {c c' : Catalog} (h : c.Tracks filled)
include h

/-- When no more names are filled, nothing is to be shown. -/
theorem Tracks.or_none {filled' : String → Prop} (hnone : ∀ n, ¬ filled' n) :
    c.Tracks fun n => filled n ∨ filled' n := by
  simpa only [hnone, or_false] using h

theorem Tracks.lt {n : String} (hn : n ∈ c.reserved) {id : GrammarId}
    (hid : c.target? n = some id) : id < c.grammars.length := by
  obtain ⟨place, g, hplace, hg, -⟩ := h.place n hn
  obtain rfl := Option.some.inj (hplace.symm.trans hid)
  exact (List.getElem?_eq_some_iff.mp hg).1

/-- The grammars may change if the places are as empty as before. -/
theorem Tracks.withGrammars {gs : List Grammar}
    (hgs : ∀ n ∈ c.reserved, ∀ id g, c.target? n = some id → c.grammars[id]? = some g →
      ∃ g', gs[id]? = some g' ∧ (g' = {} ↔ g = {})) :
    ({ c with grammars := gs } : Catalog).Tracks filled where
  place n hn := by
    obtain ⟨id, g, hid, hg, hempty⟩ := h.place n hn
    obtain ⟨g', hg', hsame⟩ := hgs n hn id g hid hg
    exact ⟨id, g', hid, hg', hsame.trans hempty⟩
  own := h.own
  known := h.known

theorem Tracks.append (gs : List Grammar) :
    ({ c with grammars := c.grammars ++ gs } : Catalog).Tracks filled := by
  refine h.withGrammars fun n hn id g hid hg => ⟨g, ?_, Iff.rfl⟩
  rw [List.getElem?_append_left (h.lt hn hid), hg]

theorem Tracks.redirect (concerned : GrammarId → Bool) (old new : GrammarId) :
    (c.redirect concerned old new).Tracks filled := by
  refine h.withGrammars fun n hn id g hid hg => ?_
  rw [List.getElem?_mapIdx, hg]
  refine ⟨_, rfl, ?_⟩
  split
  · exact Grammar.mapReferences_eq_empty_iff
  · exact Iff.rfl

theorem Tracks.release (name : String) : (c.release name).Tracks filled where
  place n hn := h.place n (mem_release_iff.mp hn).1
  own n hn m hm := h.own n (mem_release_iff.mp hn).1 m (mem_release_iff.mp hm).1
  known := h.known

theorem Tracks.point {name : String} (hname : name ∉ c.reserved) (id : GrammarId) :
    (c.point name id).Tracks filled := by
  have hsame : ∀ n ∈ c.reserved, (c.point name id).target? n = c.target? n := by
    intro n hn
    rw [target?_point, if_neg]
    rintro rfl
    exact hname hn
  constructor
  case place =>
    intro n hn
    rw [hsame n hn]
    exact h.place n hn
  case own =>
    intro n hn m hm place hnplace hmplace
    rw [hsame n hn] at hnplace
    rw [hsame m hm] at hmplace
    exact h.own n hn m hm place hnplace hmplace
  case known => exact fun n hn => OrderedMap.mem_names_set.mpr (.inr (h.known n hn))

-- ── Giving names ─────────────────────────────────────────────────────────

theorem Tracks.setLanguage (name : String) (id : GrammarId) :
    (c.setLanguage name id).Tracks filled := by
  rcases setLanguage_cases c name id with heq | ⟨place, -, -, heq⟩
  · rw [heq]
    exact (h.release name).point (not_mem_release c name) id
  · rw [heq]
    exact ((h.redirect _ place id).release name).point (not_mem_release _ name) id

theorem Tracks.addLanguage (name : String) (g : Grammar) :
    (c.addLanguage name g).2.Tracks filled := by
  rcases addLanguage_cases c name g with ⟨place, hname, hplace, heq⟩ | heq
  · rw [heq]
    refine (h.release name).withGrammars fun n hn id old hid hold => ⟨old, ?_, Iff.rfl⟩
    obtain ⟨hn, hne⟩ := mem_release_iff.mp hn
    -- the place that is filled is that of no other name
    have hother : place ≠ id := by
      rintro rfl
      exact hne (h.own name hname n hn place hplace hid)
    rw [List.getElem?_set_ne hother]
    exact hold
  · rw [heq]
    exact ((h.release name).append [g]).point (not_mem_release c name) _

theorem Tracks.addAlias (name other : String) : (c.addAlias name other).Tracks filled := by
  rcases addAlias_cases c name other with heq | ⟨id, -, heq⟩
  · rw [heq]
    exact h
  · rw [heq]
    exact h.setLanguage other id

theorem Tracks.addPlain (aliases : List String) : (c.addPlain aliases).2.Tracks filled :=
  aliases.foldlRecOn _ (h.addLanguage plainName {}) fun _ h other _ => h.addAlias plainName other

/-- A name that is linked for the first time gets a place of its own, which
    is empty. -/
theorem Tracks.link (name : String) : (c.link name).2.Tracks filled := by
  cases hname : c.target? name with
  | some id =>
      rw [link_of_target? hname]
      exact h
  | none =>
      have hnew : name ∉ OrderedMap.names c.names := OrderedMap.get?_eq_none_iff.mp hname
      have htarget := target?_link hname
      have hlink := link_of_target?_eq_none hname
      constructor
      case place =>
        intro n hn
        rw [hlink] at hn
        rw [htarget, hlink]
        split
        · next heq =>
            refine ⟨_, {}, rfl, List.getElem?_concat_length .., iff_of_true rfl fun hfilled => ?_⟩
            rw [heq] at hfilled
            exact hnew (h.known name hfilled)
        · next hne =>
            have hold := (List.mem_cons.mp hn).resolve_left hne
            obtain ⟨id, g, hid, hg, hempty⟩ := h.place n hold
            refine ⟨id, g, hid, ?_, hempty⟩
            rw [List.getElem?_append_left (h.lt hold hid), hg]
      case own =>
        intro n hn m hm id hnid hmid
        rw [hlink] at hn hm
        rw [htarget] at hnid hmid
        split at hnid <;> rename_i hnname <;> split at hmid <;> rename_i hmname
        · rw [hmname, hnname]
        · rw [← Option.some.inj hnid] at hmid
          exact absurd (h.lt ((List.mem_cons.mp hm).resolve_left hmname) hmid) (Nat.lt_irrefl _)
        · rw [← Option.some.inj hmid] at hnid
          exact absurd (h.lt ((List.mem_cons.mp hn).resolve_left hnname) hnid) (Nat.lt_irrefl _)
        · exact h.own n ((List.mem_cons.mp hn).resolve_left hnname)
            m ((List.mem_cons.mp hm).resolve_left hmname) id hnid hmid
      case known =>
        intro n hn
        rw [hlink, OrderedMap.names, List.map_append]
        exact List.mem_append_left _ (h.known n hn)

omit h in
theorem tracks_stepwise : Stepwise fun c c' => c.Tracks filled → c'.Tracks filled where
  refl _ h := h
  trans _ _ _ hab hbc h := hbc (hab h)
  add _ g h := h.append [g]
  link _ name h := h.link name

theorem Tracks.load (hc : c.Consistent) (d : Document) : (c.load d).2.Tracks filled := by
  have hread := Load.grammar_keeps tracks_stepwise d.tokens c h
  rcases load_cases c d with ⟨e, l, -, hload⟩ | ⟨g, l, hrun, hload⟩
  · rw [hload, load_restores hc.named (fun _ hn => hc.lt_of_mem hn) hload]
    exact h
  · rw [hrun] at hread
    rw [hload]
    exact d.aliases.foldlRecOn _ (Tracks.addLanguage hread d.name g)
      fun _ h name _ => h.setLanguage name _

-- ── Deriving grammars ────────────────────────────────────────────────────

/-- Rules that are inserted into a place fill it. -/
theorem Tracks.insertBefore {id new : GrammarId} {anchor : Option String}
    {rules : List (String × Rule)} (hinsert : c.insertBefore id anchor rules = .ok (new, c')) :
    c'.Tracks fun n =>
      filled n ∨ n ∈ c.reserved ∧ c.target? n = some id ∧ rules ≠ [] := by
  obtain ⟨g, live, hg, -, -, rfl⟩ := insertBefore_cases hinsert
  -- the names point where they did, but for those of the grammar
  have htarget : ∀ n, OrderedMap.get? n
      (c.names.map fun n => (n.1, if n.2 = id then c.grammars.length else n.2))
        = (c.target? n).map fun a => if a = id then c.grammars.length else a :=
    fun n => OrderedMap.get?_map (fun a => if a = id then c.grammars.length else a) n c.names
  constructor
  case place =>
    intro n (hn : n ∈ c.reserved)
    obtain ⟨place, old, hplace, hold, hempty⟩ := h.place n hn
    by_cases hid : place = id
    · obtain rfl := hid
      obtain rfl := Option.some.inj (hold.symm.trans hg)
      refine ⟨c.grammars.length, (inserted old anchor rules).mapReferences
        fun a => if a = place then c.grammars.length else a, ?_, ?_, ?_⟩
      · exact (htarget n).trans (by rw [hplace, Option.map_some, if_pos rfl])
      · show (List.mapIdx _ (c.grammars ++ _))[_]? = _
        rw [List.getElem?_mapIdx, List.getElem?_concat_length, Option.map_some, if_pos]
        simp
      · rw [Grammar.mapReferences_eq_empty_iff, inserted_eq_empty_iff, hempty]
        have hnot : ¬ (n ∈ c.reserved ∧ c.target? n = some place ∧ rules ≠ []) ↔ rules = [] := by
          rw [and_iff_right hn, and_iff_right hplace, not_not]
        rw [not_or, hnot]
    · have hsame : ¬ (n ∈ c.reserved ∧ c.target? n = some id ∧ rules ≠ []) := fun hfilled =>
        hid (Option.some.inj (hplace.symm.trans hfilled.2.1))
      have hlive := (h.append [inserted g anchor rules]).redirect
        (fun i => i == c.grammars.length || live.contains i) id c.grammars.length
      obtain ⟨place', g', hplace', hg', hempty'⟩ := hlive.place n hn
      obtain rfl := Option.some.inj (hplace.symm.trans hplace')
      refine ⟨place, g', ?_, hg', hempty'.trans ?_⟩
      · exact (htarget n).trans (by rw [hplace, Option.map_some, if_neg hid])
      · rw [not_or, and_iff_left hsame]
  case own =>
    intro n hn m hm a hna hma
    obtain ⟨x, -, hx, -⟩ := h.place n hn
    obtain ⟨y, -, hy, -⟩ := h.place m hm
    have hxlt := h.lt hn hx
    have hylt := h.lt hm hy
    replace hna := (htarget n).symm.trans hna
    replace hma := (htarget m).symm.trans hma
    rw [hx, Option.map_some, Option.some.injEq] at hna
    rw [hy, Option.map_some, Option.some.injEq] at hma
    have hxy : x = y := by
      -- a new number is none of those that were there
      split at hna <;> rename_i hxid <;> split at hma <;> rename_i hyid
      · rw [hxid, hyid]
      · rw [← hna] at hma
        exact absurd (hma ▸ hylt) (Nat.lt_irrefl _)
      · rw [← hma] at hna
        exact absurd (hna ▸ hxlt) (Nat.lt_irrefl _)
      · exact hna.trans hma.symm
    exact h.own n hn m hm x hx (hxy ▸ hy)
  case known =>
    intro n hn
    show n ∈ OrderedMap.names (c.names.map fun n => (n.1, _))
    rw [OrderedMap.names_map fun a => if a = id then c.grammars.length else a]
    rcases hn with hn | ⟨-, hn, -⟩
    · exact h.known n hn
    · exact OrderedMap.mem_names_of_get? hn

end Tracks

end Catalog

-- ── Operations ───────────────────────────────────────────────────────────

namespace Operation

/-- The operation writes into a grammar that is there. -/
def IsEdit : Operation → Prop
  | .edit _ _ => True
  | _ => False

/-- The operation inserts rules into the place of a missing language. -/
def Fills (r : Registry) : Operation → String → Prop
  | .insertBefore id _ rules, n =>
      n ∈ r.catalog.reserved ∧ r.catalog.target? n = some id ∧ rules ≠ []
  | _, _ => False

/-- Places stay as empty as they were, but for those that are filled. -/
theorem run_tracks {filled : String → Prop} {r r' : Registry} {op : Operation}
    (hr : r.catalog.Consistent) (h : r.catalog.Tracks filled) (hop : ¬ op.IsEdit)
    (hrun : op.run r = some r') : r'.catalog.Tracks fun n => filled n ∨ op.Fills r n := by
  cases op with
  | insertBefore id anchor rules =>
      obtain ⟨new, c, hinsert, rfl⟩ := run_insertBefore hrun
      exact h.insertBefore hinsert
  | edit id f => exact absurd trivial hop
  | add g =>
      cases hrun
      exact (h.append [g]).or_none fun _ => not_false
  | setLanguage name id =>
      cases hrun
      exact (h.setLanguage name id).or_none fun _ => not_false
  | addLanguage name g =>
      cases hrun
      exact (h.addLanguage name g).or_none fun _ => not_false
  | addAlias name other =>
      cases hrun
      exact (h.addAlias name other).or_none fun _ => not_false
  | addPlain aliases =>
      cases hrun
      exact (h.addPlain aliases).or_none fun _ => not_false
  | load d =>
      cases hrun
      exact (h.load hr d).or_none fun _ => not_false
  | copy id =>
      obtain ⟨new, c, hcopy, rfl⟩ := run_copy hrun
      obtain ⟨copied, -, -, rfl⟩ := Catalog.copy_cases hcopy
      exact (h.append _).or_none fun _ => not_false
  | extend language rules =>
      obtain ⟨new, hextend⟩ := run_extend hrun
      obtain ⟨id, c, -, hcopy, rfl⟩ := Registry.extend_cases hextend
      obtain ⟨copied, -, rfl, rfl⟩ := Catalog.copy_cases hcopy
      have hcopied : Catalog.Tracks filled
        { r.catalog with grammars := withCopies r.catalog.grammars copied } := h.append _
      refine (hcopied.withGrammars fun n hn place g hplace hg =>
        ⟨g, ?_, Iff.rfl⟩).or_none fun _ => not_false
      -- the copy is behind all grammars that were there
      have hne : copyOf r.catalog.grammars.length copied id ≠ place :=
        Nat.ne_of_gt (Nat.lt_of_lt_of_le (h.lt hn hplace) (Nat.le_add_right _ _))
      rw [List.getElem?_modify_ne _ _ hne]
      exact hg
  | configure hooks renderer =>
      cases hrun
      exact h.or_none fun _ => not_false

end Operation

namespace Registry

/-- An operation that is given numbers of grammars and writes into none. -/
def Orderly (_ : Past) (r : Registry) (op : Operation) : Prop :=
  op.Given (· < r.catalog.grammars.length) ∧ ¬ op.IsEdit

/-- In an orderly run the filled places are those that operations filled. -/
theorem Run.tracks {past : Past} {r : Registry} (h : Run Orderly past r) :
    r.catalog.Consistent ∧ r.catalog.Tracks fun n => ∃ done ∈ past, done.2.Fills done.1 n := by
  induction h with
  | empty =>
      refine ⟨Catalog.consistent_empty, fun n hn => ?_, fun n hn => ?_, fun n hn => ?_⟩
      · exact absurd hn List.not_mem_nil
      · exact absurd hn List.not_mem_nil
      · obtain ⟨done, hdone, -⟩ := hn
        exact absurd hdone List.not_mem_nil
  | step op _ hpermit hrun ih =>
      obtain ⟨hr, htracks⟩ := ih
      refine ⟨(op.run_advances hr hpermit.1 hrun).consistent, ?_⟩
      have hstep := Operation.run_tracks hr htracks hpermit.2 hrun
      simpa only [List.exists_mem_cons_iff, or_comm] using hstep

/-- In an orderly run every missing language points to a grammar, and this
    is empty unless rules were inserted into it.  An empty one finds
    nothing in any text, and is what is replaced when the language is
    added. -/
theorem missing_empty_iff {past : Past} {r : Registry} (h : Run Orderly past r) {n : String}
    (hn : n ∈ r.catalog.missing) :
    ∃ id g, r.catalog.target? n = some id ∧ r.catalog.grammars[id]? = some g ∧
      (g = {} ↔ ∀ done ∈ past, ¬ done.2.Fills done.1 n) ∧
      (g = {} → ∀ text, r.tokenize id text = .ok (if text.isEmpty then [] else [.raw text])) ∧
      ∀ language, r.catalog.addLanguage n language
        = (id, { r.catalog.release n with grammars := r.catalog.grammars.set id language }) := by
  obtain ⟨-, htracks⟩ := h.tracks
  have hreserved : n ∈ r.catalog.reserved := List.mem_mergeSort.mp hn
  obtain ⟨id, g, hid, hg, hempty⟩ := htracks.place n hreserved
  refine ⟨id, g, hid, hg, ?_, ?_, Catalog.addLanguage_of_reserved hreserved hid⟩
  · rw [hempty]
    exact ⟨fun hnot done hdone hfills => hnot ⟨done, hdone, hfills⟩,
      fun hall ⟨done, hdone, hfills⟩ => hall done hdone hfills⟩
  · rintro rfl text
    exact Tokenizer.tokenize_of_empty hg text

/-- A language refers to a missing one, and another document that does so
    fails: the place is empty. -/
theorem missing_empty_iff_words :
    let past := [(wordsOfMissing, Operation.load (brokenDocument "c" "n" "ghost")),
      ({}, .load (.wordsOf "n" "l" []))]
    Run Orderly past wordsOfMissing ∧ "n" ∈ wordsOfMissing.catalog.missing ∧
      ∃ id, wordsOfMissing.catalog.target? "n" = some id ∧
        wordsOfMissing.catalog.grammars[id]? = some {} ∧
        wordsOfMissing.tokenize id "ab" = .ok [.raw "ab"] := by
  intro past
  have hload : Run Orderly [({}, .load (.wordsOf "n" "l" []))] wordsOfMissing :=
    .step _ .empty ⟨trivial, not_false⟩ rfl
  have hrun : Run Orderly past wordsOfMissing := hload.step _ ⟨trivial, not_false⟩ rfl
  have hn : "n" ∈ wordsOfMissing.catalog.missing := List.mem_mergeSort.mpr List.mem_cons_self
  obtain ⟨id, g, hid, hg, hempty, htokens, -⟩ := missing_empty_iff hrun hn
  obtain rfl : g = {} := hempty.mpr fun done hdone hfills => by
    rcases List.mem_cons.mp hdone with rfl | hdone
    · exact hfills
    · obtain rfl := List.mem_singleton.mp hdone
      exact hfills
  exact ⟨hrun, hn, id, hid, hg, htokens rfl "ab"⟩

/-- Rules are inserted into the place of a missing language, and it is
    missing still. -/
theorem missing_filled_by_insertion :
    ¬ ∀ (past : Past) (r : Registry), Run Orderly past r → ∀ n ∈ r.catalog.missing,
      ∃ id, r.catalog.target? n = some id ∧ r.catalog.grammars[id]? = some {} := by
  intro h
  have hload : Run Orderly [({}, .load (.wordsOf "n" "l" []))] wordsOfMissing :=
    .step _ .empty ⟨trivial, not_false⟩ rfl
  -- languages can reach both the place and the words
  have hlive : wordsOfMissing.catalog.live = .ok [0, 1] := by
    have hrun : Walk.run [{}, words] [0, 1] [.reference "" 0 "", .reference "" 1 ""]
        = .ok [⟨"", .grammar 0, ""⟩, ⟨"", .grammar 1, ""⟩,
          ⟨"word", .patterns (.single { regex := { source := "[a-z]+" }, inside := some 0 }),
            "word"⟩] := by
      simp [Walk.run, Walk.stops, words, Patterns.toList, Rule.references, bind, Except.bind]
    show (Walk.run [{}, words] [0, 1] [.reference "" 0 "", .reference "" 1 ""] >>= _) = _
    rw [hrun]
    rfl
  have hinsert : wordsOfMissing.catalog.insertBefore 0 none letters.rules = .ok (2,
      { grammars := [{}, ⟨[("word", .patterns (.single
          { regex := { source := "[a-z]+" }, inside := some 2 }))]⟩, letters]
        names := [("n", 2), ("l", 1)]
        reserved := ["n"] }) := by
    rw [Catalog.insertBefore, hlive]
    rfl
  have hletters : ∀ a ∈ letters.references, a < 2 := fun _ ha => absurd ha List.not_mem_nil
  have hrun := hload.step (.insertBefore 0 none letters.rules)
    ⟨⟨Nat.zero_lt_two, rulesWithin_iff.mpr hletters⟩, not_false⟩
    (by rw [Operation.run, hinsert])
  obtain ⟨id, hid, hempty⟩ := h _ _ hrun "n" (List.mem_mergeSort.mpr List.mem_cons_self)
  obtain rfl := Option.some.inj hid
  cases hempty

end Registry

end Highlighter
