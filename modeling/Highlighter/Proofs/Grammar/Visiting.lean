import Highlighter.Proofs.Grammar.Exploration

/-! # What a walk meets

    A walk is made of blocks: the grammar that it enters, and a rule of
    patterns together with each of its alternatives.  What is still to be
    met is made of the same blocks, and entering a grammar puts those of
    its rules in front.  `Tours` says so as rules that follow the walk block
    by block (`exists_tours`).

    So the walk meets the rules of every grammar that it enters, each once
    and in order, and no others (`walk_visits`). -/

namespace Highlighter

variable {gs : List Grammar}

/-- The rules of a grammar that are patterns, in order. -/
def Grammar.patternRules (g : Grammar) : List (String × Patterns) :=
  g.rules.filterMap fun
    | (name, .patterns ps) => some (name, ps)
    | (_, .grammar _) => none

namespace Walk

-- ── Blocks ───────────────────────────────────────────────────────────────

/-- Visits that belong together, or stops of which those are to come. -/
inductive Block where
  /-- A grammar is entered. -/
  | entering (key : String) (id : GrammarId) (hint : String)
  /-- A rule of the grammar `owner` is met. -/
  | rule (owner : GrammarId) (name : String) (ps : Patterns)

/-- The alternatives of a rule, each with its number. -/
def numbered (name : String) : Patterns → List Visit
  | .single _ => []
  | .alternatives ps => ps.zipIdx.map fun (p, n) => ⟨toString n, .alternative p, name⟩

/-- The visits of a block: a rule comes under its name, and its alternatives
    follow. -/
def Block.visits : Block → List Visit
  | .entering key id hint => [⟨key, .grammar id, hint⟩]
  | .rule _ name ps => ⟨name, .patterns ps, name⟩ :: numbered name ps

/-- The stops at which a block is met. -/
def Block.stops : Block → List Stop
  | .entering key id hint => [.reference key id hint]
  | .rule owner name ps => (Block.rule owner name ps).visits.map .visit

/-- The grammars that are entered in blocks. -/
def entered (blocks : List Block) : List GrammarId :=
  blocks.filterMap fun
    | .entering _ id _ => some id
    | .rule .. => none

/-- The rules of a grammar that are met in blocks. -/
def rulesOf (a : GrammarId) (blocks : List Block) : List (String × Patterns) :=
  blocks.filterMap fun
    | .entering .. => none
    | .rule owner name ps => if owner = a then some (name, ps) else none

/-- The blocks of a rule of the grammar `owner`. -/
def ruleBlocks (owner : GrammarId) : String × Rule → List Block
  | (name, .grammar id) => [.entering name id name]
  | (name, .patterns ps) =>
      .rule owner name ps ::
        (Rule.references (.patterns ps)).map fun id => .entering "inside" id name

/-- The blocks of a grammar. -/
def grammarBlocks (owner : GrammarId) (g : Grammar) : List Block :=
  g.rules.flatMap (ruleBlocks owner)

theorem rulesOf_append (a : GrammarId) (blocks others : List Block) :
    rulesOf a (blocks ++ others) = rulesOf a blocks ++ rulesOf a others :=
  List.filterMap_append

theorem rulesOf_rule_self (a : GrammarId) (name : String) (ps : Patterns) (blocks : List Block) :
    rulesOf a (.rule a name ps :: blocks) = (name, ps) :: rulesOf a blocks :=
  List.filterMap_cons_some (if_pos rfl)

theorem rulesOf_rule_of_ne {a owner : GrammarId} (h : owner ≠ a) (name : String) (ps : Patterns)
    (blocks : List Block) : rulesOf a (.rule owner name ps :: blocks) = rulesOf a blocks :=
  List.filterMap_cons_none (if_neg h)

/-- References are rules of no grammar. -/
theorem rulesOf_references {α : Type} (a : GrammarId) (key hint : α → String) (id : α → GrammarId)
    (xs : List α) : rulesOf a (xs.map fun x => .entering (key x) (id x) (hint x)) = [] := by
  rw [rulesOf, List.filterMap_map]
  exact List.filterMap_eq_nil_iff.mpr fun _ _ => rfl

/-- The blocks of a grammar have its rules, in order. -/
theorem rulesOf_grammarBlocks (a : GrammarId) (g : Grammar) :
    rulesOf a (grammarBlocks a g) = g.patternRules := by
  obtain ⟨rules⟩ := g
  induction rules with
  | nil => rfl
  | cons r rules ih =>
      obtain ⟨name, rule⟩ := r
      have hall : rulesOf a (grammarBlocks a ⟨(name, rule) :: rules⟩)
          = rulesOf a (ruleBlocks a (name, rule)) ++ Grammar.patternRules ⟨rules⟩ := by
        rw [← ih, ← rulesOf_append]
        rfl
      rw [hall]
      cases rule with
      | grammar id => rfl
      | patterns ps =>
          have hrefs := rulesOf_references a (fun _ => "inside") (fun _ => name) (fun id => id)
            (Rule.references (.patterns ps))
          rw [ruleBlocks, rulesOf_rule_self, hrefs]
          rfl

/-- The blocks of a grammar have rules of no other. -/
theorem rulesOf_grammarBlocks_of_ne {a owner : GrammarId} (h : owner ≠ a) (g : Grammar) :
    rulesOf a (grammarBlocks owner g) = [] := by
  rw [rulesOf, grammarBlocks, List.filterMap_flatMap]
  refine List.flatMap_eq_nil_iff.mpr fun r _ => ?_
  obtain ⟨name, rule⟩ := r
  cases rule with
  | grammar id => rfl
  | patterns ps =>
      exact (rulesOf_rule_of_ne h name ps _).trans
        (rulesOf_references a (fun _ => "inside") (fun _ => name) (fun id => id) _)

theorem alternatives_eq (name : String) (n : Nat) (ps : List Pattern) :
    alternatives name n ps
      = (ps.zipIdx n).map fun (p, n) => .visit ⟨toString n, .alternative p, name⟩ := by
  induction ps generalizing n with
  | nil => rfl
  | cons p ps ih => rw [alternatives, ih, List.zipIdx_cons, List.map_cons]

/-- The stops of a rule are those of its blocks. -/
theorem stops_eq (owner : GrammarId) (r : String × Rule) :
    stops r = (ruleBlocks owner r).flatMap Block.stops := by
  obtain ⟨name, rule⟩ := r
  cases rule with
  | grammar id => rfl
  | patterns ps =>
      have hrefs : ((Rule.references (.patterns ps)).map fun id =>
          Block.entering "inside" id name).flatMap Block.stops
            = (Rule.references (.patterns ps)).map fun id => .reference "inside" id name := by
        rw [List.flatMap_map]
        exact List.flatMap_pure_eq_map _ _
      rw [ruleBlocks, List.flatMap_cons, hrefs]
      cases ps with
      | single p => rfl
      | alternatives ps =>
          rw [stops, alternatives_eq, Block.stops, Block.visits, List.map_cons, numbered,
            List.map_map]
          rfl

theorem flatMap_stops (owner : GrammarId) (g : Grammar) :
    g.rules.flatMap stops = (grammarBlocks owner g).flatMap Block.stops := by
  rw [grammarBlocks, List.flatMap_assoc]
  exact congrArg (fun f => g.rules.flatMap f) (funext (stops_eq owner))

-- ── Tours ────────────────────────────────────────────────────────────────

/-- Visits to come are met before anything else. -/
theorem run_visits (gs : List Grammar) (unseen : List GrammarId) (ws : List Visit)
    (pending : List Stop) :
    run gs unseen (ws.map .visit ++ pending)
      = (run gs unseen pending >>= fun vs => .ok (ws ++ vs)) := by
  induction ws with
  | nil => exact (bind_pure (run gs unseen pending)).symm
  | cons w ws ih =>
      rw [List.map_cons, List.cons_append, run, ih, bind_assoc]
      rfl

/-- A walk that has blocks pending meets blocks, `unseen` being the grammars
    not entered. -/
inductive Tours (gs : List Grammar) :
    (unseen : List GrammarId) → (pending met : List Block) → Prop where
  | done {unseen : List GrammarId} : Tours gs unseen [] []
  | rule {unseen : List GrammarId} {owner : GrammarId} {name : String} {ps : Patterns}
      {pending met : List Block} (hrest : Tours gs unseen pending met) :
      Tours gs unseen (.rule owner name ps :: pending) (.rule owner name ps :: met)
  | known {unseen : List GrammarId} {key : String} {id : GrammarId} {hint : String}
      {pending met : List Block} (hid : id ∉ unseen) (hrest : Tours gs unseen pending met) :
      Tours gs unseen (.entering key id hint :: pending) met
  | enter {unseen : List GrammarId} {key : String} {id : GrammarId} {hint : String} {g : Grammar}
      {pending met : List Block} (hid : id ∈ unseen) (hg : gs[id]? = some g)
      (hrest : Tours gs (unseen.erase id) (grammarBlocks id g ++ pending) met) :
      Tours gs unseen (.entering key id hint :: pending) (.entering key id hint :: met)

/-- A walk meets blocks. -/
theorem exists_tours (unseen : List GrammarId) (pending : List Block) {vs : List Visit}
    (h : run gs unseen (pending.flatMap Block.stops) = .ok vs) :
    ∃ met, Tours gs unseen pending met ∧ vs = met.flatMap Block.visits := by
  match pending with
  | [] =>
      rw [List.flatMap_nil, run] at h
      exact ⟨[], .done, (Except.ok.inj h).symm⟩
  | .rule owner name ps :: pending =>
      rw [List.flatMap_cons, Block.stops, run_visits] at h
      obtain ⟨ws, hws, hvs⟩ := Tokenizer.exists_of_bind_ok h
      obtain rfl := Except.ok.inj hvs
      obtain ⟨met, hmet, rfl⟩ := exists_tours unseen pending hws
      exact ⟨.rule owner name ps :: met, .rule hmet, rfl⟩
  | .entering key id hint :: pending =>
      rw [List.flatMap_cons, Block.stops, List.singleton_append, run] at h
      cases hg : gs[id]? with
      | none =>
          rw [hg] at h
          cases h
      | some g =>
          rw [hg] at h
          by_cases hid : id ∈ unseen
          · simp only [hid, if_true, flatMap_stops id, ← List.flatMap_append] at h
            obtain ⟨ws, hws, hvs⟩ := Tokenizer.exists_of_bind_ok h
            obtain rfl := Except.ok.inj hvs
            obtain ⟨met, hmet, rfl⟩ := exists_tours (unseen.erase id) _ hws
            exact ⟨.entering key id hint :: met, .enter hid hg hmet, rfl⟩
          · simp only [hid, if_false] at h
            obtain ⟨met, hmet, rfl⟩ := exists_tours unseen pending h
            exact ⟨met, .known hid hmet, rfl⟩
termination_by (unseen.length, pending.length)
decreasing_by
  · exact Prod.Lex.right _ (Nat.lt_succ_self _)
  · have hlength := List.length_erase_of_mem hid
    have hpos := List.length_pos_of_mem hid
    exact Prod.Lex.left _ _ (by omega)
  · exact Prod.Lex.right _ (Nat.lt_succ_self _)

namespace Tours

variable {unseen : List GrammarId} {pending met : List Block} {a : GrammarId}

/-- Only grammars that were not entered before are. -/
theorem mem_unseen (h : Tours gs unseen pending met) (ha : a ∈ entered met) : a ∈ unseen := by
  induction h with
  | done => exact nomatch ha
  | rule _ ih => exact ih ha
  | known _ _ ih => exact ih ha
  | enter hid _ _ ih =>
      rcases List.mem_cons.mp ha with rfl | ha
      · exact hid
      · exact List.mem_of_mem_erase (ih ha)

/-- Of a grammar that is not entered the rules that were pending are met. -/
theorem rulesOf_of_not_entered (h : Tours gs unseen pending met) (ha : a ∉ entered met) :
    rulesOf a met = rulesOf a pending := by
  induction h with
  | done => rfl
  | @rule _ owner name ps _ _ _ ih =>
      by_cases howner : owner = a
      · obtain rfl := howner
        rw [rulesOf_rule_self, rulesOf_rule_self, ih ha]
      · rw [rulesOf_rule_of_ne howner, rulesOf_rule_of_ne howner, ih ha]
  | known _ _ ih => exact ih ha
  | enter _ _ _ ih =>
      obtain ⟨hne, hmet⟩ := not_or.mp (mt List.mem_cons.mpr ha)
      have hrules := ih hmet
      rw [rulesOf_append, rulesOf_grammarBlocks_of_ne (Ne.symm hne)] at hrules
      exact hrules

/-- Of a grammar that is entered, and of which nothing was pending, all rules
    are met. -/
theorem rulesOf_of_entered (h : Tours gs unseen pending met) (hnodup : unseen.Nodup)
    (hnone : rulesOf a pending = []) (ha : a ∈ entered met) {g : Grammar} (hg : gs[a]? = some g) :
    rulesOf a met = g.patternRules := by
  induction h with
  | done => exact nomatch ha
  | @rule _ owner name ps _ _ _ ih =>
      have howner : owner ≠ a := by
        rintro rfl
        rw [rulesOf_rule_self] at hnone
        exact nomatch hnone
      rw [rulesOf_rule_of_ne howner] at hnone ⊢
      exact ih hnodup hnone ha
  | known _ _ ih => exact ih hnodup hnone ha
  | @enter _ _ id _ _ pending _ hid hg' hrest ih =>
      by_cases hida : id = a
      · obtain rfl := hida
        obtain rfl := Option.some.inj (hg.symm.trans hg')
        -- it is not entered again
        have hnot : id ∉ entered _ := fun hmem => hnodup.not_mem_erase (hrest.mem_unseen hmem)
        have hrules := hrest.rulesOf_of_not_entered hnot
        rw [rulesOf_append, rulesOf_grammarBlocks, show rulesOf id pending = [] from hnone,
          List.append_nil] at hrules
        exact hrules
      · have hmem := (List.mem_cons.mp ha).resolve_left (Ne.symm hida)
        refine ih (hnodup.erase id) ?_ hmem
        rw [rulesOf_append, rulesOf_grammarBlocks_of_ne hida]
        exact hnone

end Tours

/-- The grammars that visits enter are those of their blocks. -/
theorem filterMap_visits (blocks : List Block) :
    (blocks.flatMap Block.visits).filterMap Visit.grammar? = entered blocks := by
  induction blocks with
  | nil => rfl
  | cons b blocks ih =>
      rw [List.flatMap_cons, List.filterMap_append, ih]
      cases b with
      | entering key id hint => rfl
      | rule owner name ps =>
          cases ps with
          | single p => rfl
          | alternatives ps =>
              have hnone : (numbered name (.alternatives ps)).filterMap Visit.grammar? = [] := by
                rw [numbered, List.filterMap_map]
                exact List.filterMap_eq_nil_iff.mpr fun _ _ => rfl
              rw [Block.visits, List.filterMap_cons_none rfl, hnone]
              rfl

end Walk

/-- In a closed arena a walk from named grammars ends.  It enters what these
    can reach, each grammar once, and these are the grammars listed for them.
    It is made of blocks: of every grammar that is entered it meets the rules
    of patterns, each once and in order, under their names and followed by
    their alternatives with numbers; it meets no other rule. -/
theorem walk_visits (h : Closed gs) {roots : List (String × GrammarId)}
    (hroots : ∀ r ∈ roots, r.2 < gs.length) :
    ∃ vs found blocks, walk gs roots = .ok vs ∧ reachable gs (roots.map (·.2)) = .ok found ∧
      (∀ a, a ∈ found ↔ ∃ r ∈ roots, Reaches gs r.2 a) ∧
      vs.filterMap Visit.grammar? = found ∧ found.Nodup ∧
      vs = blocks.flatMap Walk.Block.visits ∧
      (∀ a g, a ∈ found → gs[a]? = some g → Walk.rulesOf a blocks = g.patternRules) ∧
      ∀ a, a ∉ found → Walk.rulesOf a blocks = [] := by
  obtain ⟨vs, hvs⟩ := exists_walk h hroots
  have hexplores := explores_of_walk hvs
  obtain ⟨found, hfound⟩ := exists_reachable h fun id hid => by
    obtain ⟨r, hr, rfl⟩ := List.mem_map.mp hid
    exact hroots r hr
  obtain rfl := hexplores.unique (explores_of_reachable hfound)
  have hpending : (roots.map fun r => Walk.Block.entering r.1 r.2 r.1).flatMap Walk.Block.stops
      = roots.map fun r => .reference r.1 r.2 r.1 := by
    rw [List.flatMap_map]
    exact List.flatMap_pure_eq_map _ _
  rw [walk, ← hpending] at hvs
  obtain ⟨blocks, htours, rfl⟩ := Walk.exists_tours _ _ hvs
  have hnone := fun a => Walk.rulesOf_references a Prod.fst Prod.fst Prod.snd roots
  rw [hpending] at hvs
  refine ⟨_, _, blocks, hvs, hfound, fun a => ?_, rfl, hexplores.nodup List.nodup_nil, rfl, ?_, ?_⟩
  · rw [hexplores.mem_iff]
    simp only [List.mem_map, exists_exists_and_eq_and]
  · intro a g ha hg
    rw [Walk.filterMap_visits] at ha
    exact htours.rulesOf_of_entered List.nodup_range (hnone a) ha hg
  · intro a ha
    rw [Walk.filterMap_visits] at ha
    exact (htours.rulesOf_of_not_entered ha).trans (hnone a)

/-- Two grammars that refer to one another, a third one out of reach, and a
    root with two names. -/
theorem walk_visits_cyclic :
    let word : Pattern := { regex := { source := "[a-z]+" } }
    let tag : Pattern := { regex := { source := "<.*>" }, inside := some 1 }
    let first : Grammar := ⟨[("tag", .patterns (.alternatives [word, tag]))]⟩
    let second : Grammar := ⟨[("nested", .grammar 0), ("word", .patterns (.single word))]⟩
    let gs : List Grammar := [first, second, ⟨[("other", .grammar 0)]⟩]
    let roots : List (String × GrammarId) := [("lang", 0), ("alias", 0)]
    let vs : List Visit :=
      [⟨"lang", .grammar 0, "lang"⟩, ⟨"tag", .patterns (.alternatives [word, tag]), "tag"⟩,
        ⟨"0", .alternative word, "tag"⟩, ⟨"1", .alternative tag, "tag"⟩,
        ⟨"inside", .grammar 1, "tag"⟩, ⟨"word", .patterns (.single word), "word"⟩]
    (Closed gs ∧ (∀ r ∈ roots, r.2 < gs.length) ∧ walk gs roots = .ok vs) ∧
      reachable gs [0, 0] = .ok [0, 1] ∧
      ∃ blocks, vs = blocks.flatMap Walk.Block.visits ∧
        Walk.rulesOf 0 blocks = first.patternRules ∧
        Walk.rulesOf 1 blocks = second.patternRules ∧ Walk.rulesOf 2 blocks = [] := by
  intro word tag first second gs roots vs
  have hclosed : Closed gs := by
    show ∀ g ∈ gs, ∀ a ∈ g.references, a < gs.length
    decide
  have hroots : ∀ r ∈ roots, r.2 < gs.length := by decide
  have hwalk : walk gs roots = .ok vs := by
    show Walk.run gs [0, 1, 2] [.reference "lang" 0 "lang", .reference "alias" 0 "alias"] = _
    have hnumbers : Nat.repr 0 = "0" ∧ Nat.repr 1 = "1" := ⟨rfl, rfl⟩
    simp [Walk.run, Walk.stops, Walk.alternatives, gs, first, second, tag, word, vs,
      Patterns.toList, Rule.references, bind, Except.bind, hnumbers]
  obtain ⟨ws, found, blocks, hws, hfound, -, rfl, -, hblocks, hrules, hothers⟩ :=
    walk_visits hclosed hroots
  obtain rfl := Except.ok.inj (hwalk.symm.trans hws)
  have hmem : ∀ a, a ∈ vs.filterMap Visit.grammar? ↔ a ∈ [0, 1] := fun _ => Iff.rfl
  refine ⟨⟨hclosed, hroots, hwalk⟩, hfound, blocks, hblocks, ?_, ?_, ?_⟩
  · exact hrules 0 first ((hmem 0).mpr (by decide)) rfl
  · exact hrules 1 second ((hmem 1).mpr (by decide)) rfl
  · exact hothers 2 (mt (hmem 2).mp (by decide))

end Highlighter
