import Highlighter.Proofs.Grammar.Bisimulation
import Highlighter.Proofs.Tokenizer.Conservation

/-! # Tokenizing with grammars written alike

    Tokenizing looks at a grammar only through its entries and at the
    grammars inside only by tokenizing the text of tokens.  So two grammars
    that a bisimulation relates give every text the same fragments or the
    same fault (`tokenizeWithin_eq_of_bisimulation`).

    The argument compares two runs side by side.  They take the same steps
    until tokens nest too deep in the first; `Below` says that much of two
    results, and it is enough to have it both ways.  The texts that are
    tokenized inside are parts of the whole text, since the scans are
    aligned. -/

namespace Highlighter.Tokenizer

open Fragment (AllWhole Conserved texts lengths)

variable {α β γ : Type} {R : GrammarId → GrammarId → Prop}

-- ── One result below another ─────────────────────────────────────────────

/-- The same result, unless the first run is endless, for nesting too deep. -/
def Below (r s : Except Fault α) : Prop := r = .error .endless ∨ r = s

theorem Below.refl (r : Except Fault α) : Below r r := .inr rfl

theorem Below.antisymm {r s : Except Fault α} (h : Below r s) (h' : Below s r) : r = s := by
  rcases h with h | h
  · rcases h' with h' | h'
    · rw [h, h']
    · exact h'.symm
  · exact h

theorem Below.bind {r s : Except Fault α} {f g : α → Except Fault β} (h : Below r s)
    (hfg : ∀ a, r = .ok a → Below (f a) (g a)) : Below (r >>= f) (s >>= g) := by
  rcases h with rfl | rfl
  · exact .inl rfl
  · cases r with
    | error e => exact .inr rfl
    | ok a => exact hfg a rfl

/-- Folds over elements alike are one below the other, if the first keeps
    what the steps need. -/
theorem Below.foldlM {P : β → Prop} {S : α → γ → Prop} {f : β → α → Except Fault β}
    {g : β → γ → Except Fault β} {as : List α} {cs : List γ} (has : List.Forall₂ S as cs)
    (hfg : ∀ b a c, P b → S a c → Below (f b a) (g b c) ∧ Sound P (f b a)) {b : β} (hb : P b) :
    Below (as.foldlM f b) (cs.foldlM g b) := by
  induction has generalizing b with
  | nil => exact .refl _
  | cons hac _ ih =>
      rw [List.foldlM_cons, List.foldlM_cons]
      obtain ⟨hbelow, hsound⟩ := hfg b _ _ hb hac
      exact hbelow.bind fun b' hb' => ih (hsound.of_ok hb')

-- ── Steps ────────────────────────────────────────────────────────────────

/-- Tokenizing inside with related grammars gives results one below the
    other, for the parts of the text of a context. -/
def NestedBelow (R : GrammarId → GrammarId → Prop) (c : Context)
    (nested : GrammarId → String → Except Fault (List Fragment)) : Prop :=
  ∀ a b, R a b → ∀ part, part <:+: c.text →
    Below (c.nested a (String.ofList part)) (nested b (String.ofList part))

/-- Matching again in two runs gives results one below the other. -/
def RematchBelow (text : List Char) (again again' : Rematch) : Prop :=
  ∀ before fs pos, Aligned text before fs pos → Below (again before fs pos) (again' before fs pos)

section Scan

variable {c : Context} {nested : GrammarId → String → Except Fault (List Fragment)}

theorem token_below (hn : NestedBelow R c nested) {p : Pattern} {inside : Option GrammarId}
    (hi : Option.Rel R p.inside inside) (name : String) {matched : List Char}
    (hm : matched <:+: c.text) :
    Below (token c name p matched) (token { c with nested } name { p with inside } matched) := by
  rw [token, token]
  generalize p.inside = x at hi
  cases hi with
  | none => exact .refl _
  | some hab => exact (hn _ _ hab matched hm).bind fun inner _ => .refl _

theorem slice_part {text cs : List Char} {start stop : Nat} (h : slice text start stop = .ok cs) :
    cs <:+: text := by
  obtain ⟨a, b, htext, -, -⟩ :=
    Text.append_of_slice? ((slice_sound text start stop).of_ok h)
  exact ⟨a, b, htext.symm⟩

theorem cut_below (hn : NestedBelow R c nested) {p : Pattern} {inside : Option GrammarId}
    (hi : Option.Rel R p.inside inside) (name : String) {text : List Char} (start : Nat)
    (span : Regex.Span) (stop : Nat) (htext : text <:+: c.text) :
    Below (cut c name p text start span stop)
      (cut { c with nested } name { p with inside } text start span stop) := by
  rw [cut, cut]
  refine (Below.refl _).bind fun matched hmatched => ?_
  refine (Below.refl _).bind fun before _ => ?_
  refine (token_below hn hi name ((slice_part hmatched).trans htext)).bind fun t _ => ?_
  exact .refl _

variable {pass : Pass} {again : Rematch} {inside : Option GrammarId}

theorem stepAlone_below (hn : NestedBelow R c nested)
    (hi : Option.Rel R pass.pattern.inside inside) {raw : String} (rest : List Fragment)
    (hraw : raw.toList <:+: c.text) :
    Below (pass.stepAlone c raw rest)
      (Pass.stepAlone { c with nested }
        { pass with pattern := { pass.pattern with inside }, rematch := again } raw rest) := by
  rw [Pass.stepAlone, Pass.stepAlone]
  refine (Below.refl _).bind fun found _ => ?_
  cases found with
  | none => exact .refl _
  | some span => exact (cut_below hn hi pass.name 0 span _ hraw).bind fun k _ => .refl _

theorem stepPlaced_below (hc : ∀ id text, Sound (Conserved text) (c.nested id text))
    (hn : NestedBelow R c nested) (hi : Option.Rel R pass.pattern.inside inside)
    (hr : RematchBelow c.text pass.rematch again)
    {before passed covered beyond : List Fragment} {pos : Nat} {span : Regex.Span}
    (hspan : span.start < span.stop)
    (ha : Aligned c.text before (passed ++ (covered ++ beyond)) pos) :
    Below (pass.stepPlaced c before pos span ⟨passed, covered, beyond⟩)
      (Pass.stepPlaced { c with nested }
        { pass with pattern := { pass.pattern with inside }, rematch := again } before pos span
        ⟨passed, covered, beyond⟩) := by
  rw [Pass.stepPlaced, Pass.stepPlaced]
  cases covered with
  | nil => exact .refl _
  | cons first others =>
      by_cases hfirst : first.isToken
      · simp only [hfirst, if_true]
        exact .refl _
      · simp only [hfirst]
        refine (cut_below hn hi pass.name _ span _ (List.infix_refl _)).bind fun k hk => ?_
        by_cases hothers : others.isEmpty
        · simp only [hothers, if_true]
          exact .refl _
        · simp only [hothers]
          have hcut := (cut_sound hc ha.advance.slice?_eq hspan).of_ok hk
          rw [String.ofList_toList] at hcut
          refine (hr _ _ _ (ha.keeps (keeps_cut ha.whole hcut)).advance).bind fun rest' _ => ?_
          exact .refl _

theorem stepAcross_below (hc : ∀ id text, Sound (Conserved text) (c.nested id text))
    (hn : NestedBelow R c nested) (hi : Option.Rel R pass.pattern.inside inside)
    (hr : RematchBelow c.text pass.rematch again) {before rest : List Fragment} {pos : Nat}
    {raw : String} (ha : Aligned c.text before (.raw raw :: rest) pos) :
    Below (pass.stepAcross c before pos raw rest)
      (Pass.stepAcross { c with nested }
        { pass with pattern := { pass.pattern with inside }, rematch := again } before pos raw
        rest) := by
  rw [Pass.stepAcross, Pass.stepAcross]
  refine (Below.refl _).bind fun found hfound => ?_
  cases found with
  | none => exact .refl _
  | some span =>
      have hspan := (find_sound pass.pattern c.haystack pos).of_ok hfound span rfl
      rw [← place_append span (before.head?.any Fragment.isGreedy) pos (.raw raw :: rest)] at ha
      exact stepPlaced_below hc hn hi hr hspan ha

theorem step_below (hc : ∀ id text, Sound (Conserved text) (c.nested id text))
    (hn : NestedBelow R c nested) (hi : Option.Rel R pass.pattern.inside inside)
    (hr : RematchBelow c.text pass.rematch again) {before rest : List Fragment} {pos : Nat}
    {f : Fragment} (ha : Aligned c.text before (f :: rest) pos) :
    Below (pass.step c before pos f rest)
      (Pass.step { c with nested }
        { pass with pattern := { pass.pattern with inside }, rematch := again } before pos f
        rest) := by
  cases f with
  | leaf label text => exact .refl _
  | node label inner => exact .refl _
  | raw raw =>
      have hpart := ha.part
      rw [Fragment.text] at hpart
      rw [Pass.step, Pass.step]
      by_cases hacross : (pass.pattern.greedy && !rest.isEmpty) = true
      · simp only [hacross, if_true]
        exact stepAcross_below hc hn hi hr ha
      · simp only [hacross]
        exact stepAlone_below hn hi rest hpart

theorem scan_below (hc : ∀ id text, Sound (Conserved text) (c.nested id text))
    (hn : NestedBelow R c nested) (hi : Option.Rel R pass.pattern.inside inside)
    (hk : pass.rematch.Keeping c.text) (hr : RematchBelow c.text pass.rematch again)
    {fuel : Nat} {before fs : List Fragment} {pos : Nat} (ha : Aligned c.text before fs pos) :
    Below (pass.scan c fuel before fs pos)
      (Pass.scan { c with nested }
        { pass with pattern := { pass.pattern with inside }, rematch := again } fuel before fs
        pos) := by
  induction fuel generalizing before fs pos with
  | zero =>
      cases fs with
      | nil => exact .refl _
      | cons f rest => exact .inl rfl
  | succ fuel ih =>
      cases fs with
      | nil => exact .refl _
      | cons f rest =>
          rw [Pass.scan, Pass.scan]
          split
          · exact .refl _
          · refine (step_below hc hn hi hr ha).bind fun step hstep => ?_
            have hkept := (step_sound hc hk ha).of_ok hstep
            cases step with
            | done gs => exact .refl _
            | more settled rest' =>
                exact (ih (ha.keeps hkept).advance).bind fun gs _ => .refl _

end Scan

-- ── Grammars ─────────────────────────────────────────────────────────────

theorem applyEntries_below {c : Context}
    {nested : GrammarId → String → Except Fault (List Fragment)}
    (hc : ∀ id text, Sound (Conserved text) (c.nested id text)) (hn : NestedBelow R c nested)
    {es es' : List Entry} (hes : List.Forall₂ (Entry.Alike R) es es') {once : Bool}
    {before fs : List Fragment} {pos : Nat} (ha : Aligned c.text before fs pos) :
    Below (applyEntries c es once before fs pos)
      (applyEntries { c with nested } es' once before fs pos) := by
  induction hes generalizing once before fs pos with
  | nil => exact .refl _
  | @cons e e' earlier earlier' he _ ih =>
      rw [applyEntries, applyEntries]
      refine (ih ha).bind fun gs hgs => ?_
      have hkept := (applyEntries_sound hc ha).of_ok hgs
      obtain ⟨hname, hpatterns⟩ := he
      have hagain : Rematch.Keeping c.text
          fun before fs pos => applyEntries c earlier true before fs pos :=
        fun before fs pos ha => applyEntries_sound hc ha
      refine Below.foldlM (P := Keeps fs) hpatterns (fun hs p q hhs hpq => ?_) hkept
      obtain ⟨inside, rfl, hi⟩ := hpq
      have hbefore := ha.keeps hhs
      refine ⟨?_, ?_⟩
      · rw [← hname]
        exact scan_below hc hn hi hagain (fun _ _ _ ha => ih ha) hbefore
      · refine Sound.mono (scan_sound hc hagain hbefore) fun is his => ?_
        exact ⟨his.1.trans hhs.1, his.2⟩

/-- With related grammars the results for a text are one below the other,
    if those for its parts are. -/
theorem tokenizeBy_below {gs hs : List Grammar} (hR : Bisimulation gs hs R)
    {nested nested' : GrammarId → String → Except Fault (List Fragment)} {text : String}
    (hsound : ∀ id text, Sound (Conserved text) (nested id text))
    (hbelow : ∀ a b, R a b → ∀ part, part <:+: text.toList →
      Below (nested a (String.ofList part)) (nested' b (String.ofList part)))
    {a b : GrammarId} (hab : R a b) :
    Below (tokenizeBy gs nested a text) (tokenizeBy hs nested' b text) := by
  rw [tokenizeBy, tokenizeBy]
  by_cases hempty : text = ""
  · subst hempty
    exact .refl _
  · rw [if_neg (by simpa using hempty), if_neg (by simpa using hempty)]
    have hentries := hR.entries hab
    generalize entries gs a = x at hentries ⊢
    generalize entries hs b = y at hentries ⊢
    cases hentries with
    | error e => exact .refl _
    | ok hes =>
        exact applyEntries_below (c := .of nested text) hsound hbelow
          (List.rel_reverse hes) (aligned_raw hempty)

/-- Related grammars give a text the same result at every depth. -/
theorem tokenizeWithin_eq_of_bisimulation {gs hs : List Grammar} (hR : Bisimulation gs hs R)
    (depth : Nat) {a b : GrammarId} (hab : R a b) (text : String) :
    tokenizeWithin gs depth a text = tokenizeWithin hs depth b text := by
  induction depth generalizing a b text with
  | zero => rfl
  | succ depth ih =>
      refine Below.antisymm ?_ ?_
      · refine tokenizeBy_below hR (tokenizeWithin_sound gs depth) (fun a b hab part _ => ?_) hab
        exact .inr (ih hab _)
      · refine tokenizeBy_below hR.symm (tokenizeWithin_sound hs depth)
          (fun b a hab part _ => ?_) hab
        exact .inr (ih hab _).symm

end Highlighter.Tokenizer
