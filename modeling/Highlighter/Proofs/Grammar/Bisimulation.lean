import Highlighter.Tokenizer.Entry
import Mathlib.Data.List.Forall2

/-! # Grammars written alike

    What a number refers to does not matter, only what is found there.  A
    bisimulation relates grammars of two lists that have the same rules in
    the same order, apart from their references, and those are related
    again.  Such grammars have the same entries, up to references
    (`Bisimulation.entries`): merging in `rest` follows one reference and
    goes by names, which are the same. -/

namespace Highlighter

variable {R : GrammarId → GrammarId → Prop}

-- ── Alike ────────────────────────────────────────────────────────────────

/-- Patterns that differ at most in the grammar inside, which is related. -/
def Pattern.Alike (R : GrammarId → GrammarId → Prop) (p q : Pattern) : Prop :=
  ∃ inside, q = { p with inside } ∧ Option.Rel R p.inside inside

/-- Rules of one shape with patterns alike. -/
inductive Rule.Alike (R : GrammarId → GrammarId → Prop) : Rule → Rule → Prop where
  | single {p q : Pattern} : p.Alike R q → Alike R (.patterns (.single p)) (.patterns (.single q))
  | alternatives {ps qs : List Pattern} : List.Forall₂ (Pattern.Alike R) ps qs →
      Alike R (.patterns (.alternatives ps)) (.patterns (.alternatives qs))
  | grammar {a b : GrammarId} : R a b → Alike R (.grammar a) (.grammar b)

/-- Rules in a row that have the same names and are alike. -/
def RulesAlike (R : GrammarId → GrammarId → Prop) :
    List (String × Rule) → List (String × Rule) → Prop :=
  List.Forall₂ fun r s => r.1 = s.1 ∧ r.2.Alike R s.2

/-- Grammars with rules alike. -/
def Grammar.Alike (R : GrammarId → GrammarId → Prop) (g h : Grammar) : Prop :=
  RulesAlike R g.rules h.rules

/-- A relation between the grammars of two lists that holds of grammars
    alike only.  A number without a grammar is related to itself alone. -/
def Bisimulation (gs hs : List Grammar) (R : GrammarId → GrammarId → Prop) : Prop :=
  ∀ a b, R a b → Option.Rel (Grammar.Alike R) gs[a]? hs[b]? ∧ (gs[a]? = none → a = b)

theorem optionRel_symm {α β : Type} {S : α → β → Prop} {T : β → α → Prop}
    (h : ∀ a b, S a b → T b a) {x : Option α} {y : Option β} (hxy : Option.Rel S x y) :
    Option.Rel T y x := by
  cases hxy with
  | none => exact .none
  | some hab => exact .some (h _ _ hab)

theorem Pattern.Alike.symm {p q : Pattern} (h : p.Alike R q) : q.Alike (flip R) p := by
  obtain ⟨inside, rfl, hi⟩ := h
  exact ⟨p.inside, rfl, optionRel_symm (fun _ _ h => h) hi⟩

theorem Rule.Alike.symm {r s : Rule} (h : r.Alike R s) : s.Alike (flip R) r := by
  cases h with
  | single h => exact .single h.symm
  | alternatives h => exact .alternatives ((h.imp fun _ _ h => h.symm).flip)
  | grammar h => exact .grammar h

theorem RulesAlike.symm {rs ss : List (String × Rule)} (h : RulesAlike R rs ss) :
    RulesAlike (flip R) ss rs :=
  (h.imp fun _ _ h => ⟨h.1.symm, h.2.symm⟩).flip

theorem Bisimulation.symm {gs hs : List Grammar} (h : Bisimulation gs hs R) :
    Bisimulation hs gs (flip R) := by
  intro b a hab
  obtain ⟨hrel, hnone⟩ := h a b hab
  refine ⟨optionRel_symm (fun _ _ h => RulesAlike.symm h) hrel, fun hb => ?_⟩
  rw [hb] at hrel
  cases hg : gs[a]? with
  | none => exact (hnone hg).symm
  | some g => rw [hg] at hrel; exact nomatch hrel

theorem Pattern.Alike.refl (hR : ∀ a, R a a) (p : Pattern) : p.Alike R p := by
  refine ⟨p.inside, rfl, ?_⟩
  cases p.inside with
  | none => exact .none
  | some id => exact .some (hR id)

theorem RulesAlike.refl (hR : ∀ a, R a a) (rs : List (String × Rule)) : RulesAlike R rs rs := by
  refine List.forall₂_same.mpr fun r _ => ⟨rfl, ?_⟩
  cases r.2 with
  | grammar id => exact .grammar (hR id)
  | patterns ps =>
      cases ps with
      | single p => exact .single (.refl hR p)
      | alternatives ps => exact .alternatives (List.forall₂_same.mpr fun p _ => .refl hR p)

/-- Equal numbers of one list are alike. -/
theorem Bisimulation.eq (gs : List Grammar) : Bisimulation gs gs Eq := by
  rintro a _ rfl
  refine ⟨?_, fun _ => rfl⟩
  cases gs[a]? with
  | none => exact .none
  | some g => exact .some (.refl (fun _ => rfl) g.rules)

-- ── Entries ──────────────────────────────────────────────────────────────

theorem RulesAlike.names_eq {rs ss : List (String × Rule)} (h : RulesAlike R rs ss) :
    OrderedMap.names rs = OrderedMap.names ss := by
  induction h with
  | nil => rfl
  | cons h _ ih => exact congrArg₂ List.cons h.1 ih

theorem RulesAlike.get? {rs ss : List (String × Rule)} (h : RulesAlike R rs ss) (name : String) :
    Option.Rel (Rule.Alike R) (OrderedMap.get? name rs) (OrderedMap.get? name ss) := by
  induction h with
  | nil => exact .none
  | @cons r s rs ss hrs _ ih =>
      obtain ⟨rname, r⟩ := r
      obtain ⟨sname, s⟩ := s
      obtain ⟨rfl, hrule⟩ := hrs
      simp only [OrderedMap.get?, List.find?_cons] at ih ⊢
      cases rname == name with
      | true => exact .some hrule
      | false => exact ih

theorem RulesAlike.set {rs ss : List (String × Rule)} (h : RulesAlike R rs ss) (name : String)
    {r s : Rule} (hrs : r.Alike R s) :
    RulesAlike R (OrderedMap.set name r rs) (OrderedMap.set name s ss) := by
  induction h with
  | nil => exact .cons ⟨rfl, hrs⟩ .nil
  | @cons e f es fs hef hes ih =>
      obtain ⟨ename, e⟩ := e
      obtain ⟨fname, f⟩ := f
      obtain ⟨rfl, hrule⟩ := hef
      rw [OrderedMap.set, OrderedMap.set]
      cases ename == name with
      | true => exact .cons ⟨rfl, hrs⟩ hes
      | false => exact .cons ⟨rfl, hrule⟩ ih

theorem RulesAlike.filter {rs ss : List (String × Rule)} (h : RulesAlike R rs ss)
    (keep : String → Bool) :
    RulesAlike R (rs.filter fun r => keep r.1) (ss.filter fun s => keep s.1) := by
  induction h with
  | nil => exact .nil
  | @cons r s rs ss hrs _ ih =>
      rw [List.filter_cons, List.filter_cons, hrs.1]
      cases keep s.1 with
      | true => exact .cons hrs ih
      | false => exact ih

/-- Merging keeps rules alike. -/
theorem RulesAlike.overlay {rs ss rs' ss' : List (String × Rule)} (h : RulesAlike R rs ss)
    (h' : RulesAlike R rs' ss') : RulesAlike R (overlay rs rs') (overlay ss ss') := by
  have hfirst : RulesAlike R
      (rs.map fun r => (r.1, (OrderedMap.get? r.1 rs').getD r.2))
      (ss.map fun s => (s.1, (OrderedMap.get? s.1 ss').getD s.2)) := by
    refine List.forall₂_map_left_iff.mpr (List.forall₂_map_right_iff.mpr ?_)
    refine h.imp fun r s hrs => ⟨hrs.1, ?_⟩
    have hget := h'.get? r.1
    rw [← hrs.1]
    cases hr : OrderedMap.get? r.1 rs' with
    | none =>
        rw [hr] at hget
        cases hs : OrderedMap.get? r.1 ss' with
        | none => exact hrs.2
        | some _ => rw [hs] at hget; exact nomatch hget
    | some _ =>
        rw [hr] at hget
        cases hs : OrderedMap.get? r.1 ss' with
        | none => rw [hs] at hget; exact nomatch hget
        | some _ =>
            rw [hs] at hget
            cases hget with
            | some hrule => exact hrule
  have hothers := h'.filter fun name => !(OrderedMap.names rs).contains name
  rw [Highlighter.overlay, Highlighter.overlay, ← h.names_eq]
  exact List.rel_append hfirst hothers

/-- Entries of one name with patterns alike. -/
def Entry.Alike (R : GrammarId → GrammarId → Prop) (e f : Entry) : Prop :=
  e.name = f.name ∧ List.Forall₂ (Pattern.Alike R) e.patterns f.patterns

theorem RulesAlike.entries {rs ss : List (String × Rule)} (h : RulesAlike R rs ss) :
    List.Forall₂ (Entry.Alike R) (rs.filterMap Entry.ofRule?) (ss.filterMap Entry.ofRule?) := by
  refine List.rel_filterMap (R := fun r s : String × Rule => r.1 = s.1 ∧ r.2.Alike R s.2) ?_ h
  rintro ⟨name, r⟩ ⟨_, s⟩ ⟨rfl, hrs⟩
  cases hrs with
  | single h => exact .some ⟨rfl, .cons h .nil⟩
  | alternatives h => exact .some ⟨rfl, h⟩
  | grammar _ => exact .none

/-- Results that are the same fault or related. -/
inductive OutcomesAlike {ε α β : Type} (S : α → β → Prop) : Except ε α → Except ε β → Prop where
  | error (e : ε) : OutcomesAlike S (.error e) (.error e)
  | ok {a : α} {b : β} : S a b → OutcomesAlike S (.ok a) (.ok b)

theorem OutcomesAlike.bind {ε α β γ δ : Type} {S : α → β → Prop} {T : γ → δ → Prop}
    {x : Except ε α} {y : Except ε β} {f : α → Except ε γ} {g : β → Except ε δ}
    (h : OutcomesAlike S x y) (hfg : ∀ a b, S a b → OutcomesAlike T (f a) (g b)) :
    OutcomesAlike T (x >>= f) (y >>= g) := by
  cases h with
  | error e => exact .error e
  | ok hab => exact hfg _ _ hab

theorem Bisimulation.grammarAt {gs hs : List Grammar} (h : Bisimulation gs hs R)
    {a b : GrammarId} (hab : R a b) :
    OutcomesAlike (Grammar.Alike R) (grammarAt gs a) (grammarAt hs b) := by
  obtain ⟨hrel, hnone⟩ := h a b hab
  rw [Highlighter.grammarAt, Highlighter.grammarAt]
  cases hg : gs[a]? with
  | none =>
      obtain rfl := hnone hg
      rw [hg] at hrel
      cases hh : hs[a]? with
      | none => exact .error _
      | some _ => rw [hh] at hrel; exact nomatch hrel
  | some g =>
      rw [hg] at hrel
      cases hh : hs[b]? with
      | none => rw [hh] at hrel; exact nomatch hrel
      | some g' =>
          rw [hh] at hrel
          cases hrel with
          | some halike => exact .ok halike

/-- Related grammars have entries alike. -/
theorem Bisimulation.entries {gs hs : List Grammar} (h : Bisimulation gs hs R)
    {a b : GrammarId} (hab : R a b) :
    OutcomesAlike (List.Forall₂ (Entry.Alike R)) (entries gs a) (entries hs b) := by
  have hmerged : OutcomesAlike (RulesAlike R) (mergedRules gs a) (mergedRules hs b) := by
    rw [mergedRules, mergedRules]
    refine (h.grammarAt hab).bind fun g g' hg => ?_
    have hrest := RulesAlike.get? hg restName
    rw [Grammar.get?, Grammar.get?]
    generalize OrderedMap.get? restName g.rules = x at hrest ⊢
    generalize OrderedMap.get? restName g'.rules = y at hrest ⊢
    cases hrest with
    | none => exact .ok hg
    | some hr =>
        cases hr with
        | single _ => exact .ok hg
        | alternatives _ => exact .ok hg
        | grammar hrest =>
            refine (h.grammarAt hrest).bind fun r r' hr => ?_
            exact .ok ((hg.overlay hr).filter (· != restName))
  rw [Highlighter.entries, Highlighter.entries]
  exact hmerged.bind fun rs ss hrs => .ok hrs.entries

end Highlighter
