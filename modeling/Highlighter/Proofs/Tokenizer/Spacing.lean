import Highlighter.Proofs.Tokenizer.Cutting
import Mathlib.Data.List.Chain

/-! # Raw text in one piece

    Where every grammar matches with one greedy pattern at most, no two raw
    fragments come to stand next to each other, at any level
    (`tokenize_spaced`).

    Cutting a token out of raw text keeps raw fragments apart.  A greedy
    match may dissolve tokens, but then it takes along the raw text behind
    them, unless that stands behind a greedy token.  While the only greedy
    pattern is at work, greedy tokens are its own, and they are all behind
    it: what is still to be scanned is `Plain`.  The entries that match
    again in between make no greedy tokens, so it stays so. -/

namespace Highlighter.Tokenizer

open Fragment (AllWhole Conserved lengths)

-- ── Raw fragments apart ──────────────────────────────────────────────────

/-- Of two fragments next to each other one is a token. -/
def Spaced (fs : List Fragment) : Prop := fs.IsChain fun f g => f.isToken = true ∨ g.isToken = true

/-- The fragments of a level: the outermost ones, or those of a level inside
    of a token. -/
inductive Level : (fs level : List Fragment) → Prop where
  | here (fs : List Fragment) : Level fs fs
  | inside {fs inner level : List Fragment} {label : Label} (ht : .node label inner ∈ fs)
      (h : Level inner level) : Level fs level

/-- No fragment is a greedy token. -/
def Plain (fs : List Fragment) : Prop := ∀ f ∈ fs, f.isGreedy = false

theorem plain_nil : Plain [] := fun _ hf => nomatch hf

theorem plain_cons {f : Fragment} {fs : List Fragment} :
    Plain (f :: fs) ↔ f.isGreedy = false ∧ Plain fs := List.forall_mem_cons

theorem plain_append {fs gs : List Fragment} : Plain (fs ++ gs) ↔ Plain fs ∧ Plain gs :=
  List.forall_mem_append

theorem plain_rawFragment? (cs : List Char) : Plain (rawFragment? cs) := by
  cases cs with
  | nil => exact plain_nil
  | cons c cs => exact plain_cons.mpr ⟨rfl, plain_nil⟩

/-- A greedy token is a token. -/
theorem isToken_of_isGreedy {f : Fragment} (h : f.isGreedy = true) : f.isToken = true := by
  cases f with
  | raw text => exact nomatch h
  | leaf label text => rfl
  | node label inner => rfl

/-- Raw fragments on either side of a token are apart from it. -/
theorem spaced_around {t : Fragment} (ht : t.isToken = true) (front back : List Char) :
    Spaced (rawFragment? front ++ t :: rawFragment? back) := by
  cases front with
  | nil =>
      cases back with
      | nil => exact .singleton t
      | cons b back => exact .cons_cons (.inl ht) (.singleton _)
  | cons a front =>
      cases back with
      | nil => exact .cons_cons (.inr ht) (.singleton _)
      | cons b back => exact .cons_cons (.inr ht) (.cons_cons (.inl ht) (.singleton _))

/-- A token with raw text on either side takes the place of fragments, of
    which the first is raw, in front of a token or at the end. -/
theorem Spaced.cut {before others beyond : List Fragment} {raw : String} {t : Fragment}
    (h : Spaced (before ++ (.raw raw :: others ++ beyond))) (ht : t.isToken = true)
    (hbeyond : ∀ f ∈ beyond.head?, f.isToken = true) (front back : List Char) :
    Spaced (before ++ ((rawFragment? front ++ t :: rawFragment? back) ++ beyond)) := by
  obtain ⟨hbefore, hcovered, hjoin⟩ := List.isChain_append.mp h
  obtain ⟨-, hbeyond', -⟩ := List.isChain_append.mp hcovered
  -- raw text stands behind these fragments, so the last one is a token
  have hlast : ∀ f ∈ before.getLast?, f.isToken = true :=
    fun f hf => (hjoin f hf (.raw raw) rfl).resolve_right Bool.false_ne_true
  refine hbefore.append ((spaced_around ht front back).append hbeyond' ?_) ?_
  · exact fun _ _ g hg => .inr (hbeyond g hg)
  · exact fun f hf _ _ => .inl (hlast f hf)

-- ── Greedy tokens ────────────────────────────────────────────────────────

/-- Greedy tokens stand at one offset only. -/
def GreedyAt (offset : Nat) : Nat → Fragment → Prop := fun pos t => t.isGreedy = true → pos = offset

/-- Every token is plain. -/
def NotGreedy : Nat → Fragment → Prop := fun _ t => t.isGreedy = false

theorem tokensAt_notGreedy {pos : Nat} {fs : List Fragment} :
    TokensAt NotGreedy pos fs ↔ Plain fs := by
  induction fs generalizing pos with
  | nil => exact ⟨fun _ => plain_nil, fun _ => trivial⟩
  | cons f fs ih =>
      rw [plain_cons, ← @ih (pos + f.length)]
      refine and_congr_left fun _ => ⟨fun h => ?_, fun h _ => h⟩
      by_contra hgreedy
      rw [Bool.not_eq_false] at hgreedy
      exact Bool.false_ne_true ((h (isToken_of_isGreedy hgreedy)).symm.trans hgreedy)

theorem Plain.tokensAt {fs : List Fragment} (h : Plain fs) (offset pos : Nat) :
    TokensAt (GreedyAt offset) pos fs := by
  induction fs generalizing pos with
  | nil => trivial
  | cons f fs ih =>
      obtain ⟨hf, hfs⟩ := plain_cons.mp h
      exact ⟨fun _ hgreedy => absurd (hf.symm.trans hgreedy) Bool.false_ne_true, ih hfs _⟩

/-- Behind the offset of all greedy tokens there are none. -/
theorem plain_of_tokensAt {offset pos : Nat} {fs : List Fragment} (hlt : offset < pos)
    (h : TokensAt (GreedyAt offset) pos fs) : Plain fs := by
  induction fs generalizing pos with
  | nil => exact plain_nil
  | cons f fs ih =>
      obtain ⟨hf, hfs⟩ := h
      refine plain_cons.mpr ⟨?_, ih (Nat.lt_add_right _ hlt) hfs⟩
      by_contra hgreedy
      rw [Bool.not_eq_false] at hgreedy
      exact absurd (hf (isToken_of_isGreedy hgreedy) hgreedy) (Nat.ne_of_gt hlt)

theorem plain_tail_of_tokensAt {offset : Nat} {fs : List Fragment} (hwhole : AllWhole fs)
    (h : TokensAt (GreedyAt offset) offset fs) : Plain fs.tail := by
  cases fs with
  | nil => exact plain_nil
  | cons f fs =>
      have hpos := (Fragment.allWhole_cons.mp hwhole).1.length_pos
      exact plain_of_tokensAt (by omega) h.2

theorem isGreedy_of_token {c : Context} {name : String} {p : Pattern} {matched : List Char}
    {t : Fragment} (h : token c name p matched = .ok t) :
    t.isToken = true ∧ t.isGreedy = p.greedy := by
  rcases token_cases h with ⟨-, rfl⟩ | ⟨_, _, -, -, rfl⟩
  · exact ⟨rfl, rfl⟩
  · exact ⟨rfl, rfl⟩

/-- Tokens that are not greedy have the property everywhere. -/
def OfPlain (T : Nat → Fragment → Prop) : Prop := ∀ pos t, t.isGreedy = false → T pos t

theorem ofPlain_notGreedy : OfPlain NotGreedy := fun _ _ hplain => hplain

theorem ofPlain_greedyAt (offset : Nat) : OfPlain (GreedyAt offset) :=
  fun _ _ hplain hgreedy => absurd (hplain.symm.trans hgreedy) Bool.false_ne_true

/-- A pattern that is not greedy makes no greedy tokens. -/
theorem cuts_of_not_greedy {T : Nat → Fragment → Prop} (hT : OfPlain T) (c : Context)
    (name : String) {p : Pattern} (hp : p.greedy = false) : Cuts T (fun _ => True) c name p where
  broken _ _ := trivial
  gaveUp _ _ _ := trivial
  cut := by
    intro front hay start stop span _
    cases hk : cut c name p hay start span stop with
    | error e => trivial
    | ok k =>
        obtain ⟨_, _, _, -, -, -, ht, -, -⟩ := slices_of_cut hk
        exact hT _ _ ((isGreedy_of_token ht).2.trans hp)

/-- Among plain fragments a match reaches up to a token or the end. -/
theorem head?_reach {stop pos : Nat} {afterGreedy : Bool} {fs : List Fragment} (hplain : Plain fs)
    (h : afterGreedy = true → pos < stop) :
    ∀ f ∈ (reach stop afterGreedy pos fs).2.head?, f.isToken = true := by
  induction fs generalizing afterGreedy pos with
  | nil => exact fun f hf => nomatch hf
  | cons g fs ih =>
      obtain ⟨hg, hfs⟩ := plain_cons.mp hplain
      rw [reach]
      by_cases hgoes : (pos < stop || (!g.isToken && !afterGreedy)) = true
      · rw [if_pos hgoes]
        exact ih hfs fun hgreedy => absurd (hg.symm.trans hgreedy) Bool.false_ne_true
      · rw [if_neg hgoes]
        intro f hf
        obtain rfl : g = f := Option.some.inj hf
        simp only [Bool.or_eq_true, decide_eq_true_eq, Bool.and_eq_true, Bool.not_eq_true',
          not_or, not_and, Bool.not_eq_false] at hgoes
        by_contra htoken
        exact hgoes.1 (h (hgoes.2 (Bool.not_eq_true _ ▸ htoken)))

-- ── Steps ────────────────────────────────────────────────────────────────

/-- A step that leaves raw fragments apart, and only plain fragments for a
    greedy pattern to go on with. -/
def Step.Spaced (before : List Fragment) (greedy : Bool) : Step → Prop
  | .done gs => Tokenizer.Spaced (before.reverse ++ gs)
  | .more settled rest =>
      Tokenizer.Spaced (before.reverse ++ (settled ++ rest)) ∧ (greedy = true → Plain rest)

/-- Going on behind a token, what is left are the fragments after it. -/
theorem Pass.proceed_spaced (pass : Pass) {before settled rest : List Fragment}
    (h : Spaced (before.reverse ++ (settled ++ rest)))
    (hplain : pass.pattern.greedy = true → Plain rest.tail) :
    (pass.proceed settled rest).Spaced before pass.pattern.greedy := by
  unfold Pass.proceed
  split
  · exact h
  · cases rest with
    | nil =>
        rw [List.append_nil] at h
        exact h
    | cons t rest =>
        refine ⟨?_, hplain⟩
        rw [List.append_assoc]
        exact h

/-- A cut takes the place of fragments of which the first is raw, in front
    of a token or at the end. -/
theorem spaced_of_cut {c : Context} {name : String} {p : Pattern} {hay : List Char}
    {start stop : Nat} {span : Regex.Span} {k : Cut} {before passed others beyond : List Fragment}
    {raw : String} (hk : cut c name p hay start span stop = .ok k)
    (h : Spaced (before ++ (passed ++ (.raw raw :: others ++ beyond))))
    (hbeyond : ∀ f ∈ beyond.head?, f.isToken = true) :
    Spaced (before ++ (passed ++ k.before ++ (k.token :: k.after ++ beyond))) := by
  obtain ⟨front, _, back, -, -, -, ht, hfront, hback⟩ := slices_of_cut hk
  rw [← List.append_assoc] at h
  have hcut := h.cut (isGreedy_of_token ht).1 hbeyond front back
  rw [hfront, hback]
  simpa using hcut

theorem plain_after_of_cut {c : Context} {name : String} {p : Pattern} {hay : List Char}
    {start stop : Nat} {span : Regex.Span} {k : Cut}
    (hk : cut c name p hay start span stop = .ok k) : Plain k.after := by
  obtain ⟨_, _, back, -, -, -, -, -, hback⟩ := slices_of_cut hk
  rw [hback]
  exact plain_rawFragment? back

/-- Matching again leaves raw fragments apart and makes no greedy tokens. -/
structure Rematch.Spacing (text : List Char) (again : Rematch) : Prop where
  spaced : ∀ before fs pos, Aligned text before fs pos → Spaced (before.reverse ++ fs) →
    Ends (fun gs => Spaced (before.reverse ++ gs)) (fun _ => True) (again before fs pos)
  tokensAt : ∀ T, OfPlain T → again.TokensAt T (fun _ => True) text

/-- Matching again from a token with plain fragments behind it, these make
    way for plain ones. -/
theorem Rematch.Spacing.again {text : List Char} {again : Rematch} (hr : again.Spacing text)
    (hk : again.Keeping text) {before rest gs : List Fragment} {t : Fragment} {pos : Nat}
    (ha : Aligned text before (t :: rest) pos) (h : Spaced (before.reverse ++ t :: rest))
    (hplain : Plain rest) (hgs : again before (t :: rest) pos = .ok gs) :
    Spaced (before.reverse ++ gs) ∧ Plain gs.tail := by
  -- the token may be greedy, but no other comes up, and it is in front
  have htokens : Tokenizer.TokensAt (GreedyAt pos) pos (t :: rest) :=
    ⟨fun _ _ => rfl, hplain.tokensAt pos _⟩
  have hwhole := ((hk _ _ _ ha).of_ok hgs).2
  refine ⟨(hr.spaced _ _ _ ha h).of_ok hgs, ?_⟩
  have hbehind := (hr.tokensAt _ (ofPlain_greedyAt pos) _ _ _ ha htokens).of_ok hgs
  exact plain_tail_of_tokensAt hwhole hbehind

theorem ends_any {α : Type} (r : Except Fault α) : Ends (fun _ => True) (fun _ => True) r := by
  cases r with
  | error e => trivial
  | ok a => trivial

section Scan

variable {c : Context} {pass : Pass} {before rest : List Fragment} {pos : Nat}

theorem stepAlone_spaced {raw : String} (h : Spaced (before.reverse ++ .raw raw :: rest))
    (hplain : pass.pattern.greedy = true → Plain rest) :
    Ends (Step.Spaced before pass.pattern.greedy) (fun _ => True) (pass.stepAlone c raw rest) := by
  rw [Pass.stepAlone]
  refine (ends_any _).bind fun found _ _ => ?_
  cases found with
  | none =>
      show Step.Spaced _ _ (if pass.once then _ else _)
      split
      · exact h
      · exact ⟨h, hplain⟩
  | some span =>
      refine (ends_any _).bind fun k hk _ => ?_
      -- the next fragment is a token, as this one is raw
      have hbeyond : ∀ f ∈ rest.head?, f.isToken = true := fun f hf =>
        ((List.isChain_cons.mp (List.isChain_append.mp h).2.1).1 f hf).resolve_left
          Bool.false_ne_true
      have hrow : Spaced (before.reverse ++ ([] ++ (.raw raw :: [] ++ rest))) := h
      show Step.Spaced _ _ (pass.proceed ([] ++ k.before) (k.token :: k.after ++ rest))
      refine pass.proceed_spaced (spaced_of_cut hk hrow hbeyond) fun hgreedy => ?_
      exact plain_append.mpr ⟨plain_after_of_cut hk, hplain hgreedy⟩

theorem stepPlaced_spaced (hc : ∀ id text, Sound (Conserved text) (c.nested id text))
    (hk : pass.rematch.Keeping c.text) (hr : pass.rematch.Spacing c.text)
    {passed covered beyond : List Fragment} {span : Regex.Span}
    (ha : Aligned c.text before (passed ++ (covered ++ beyond)) pos)
    (hspan : span.start < span.stop) (hbeyond : ∀ f ∈ beyond.head?, f.isToken = true)
    (h : Spaced (before.reverse ++ (passed ++ (covered ++ beyond))))
    (hplain : Plain (covered ++ beyond)) :
    Ends (Step.Spaced before pass.pattern.greedy) (fun _ => True)
      (pass.stepPlaced c before pos span ⟨passed, covered, beyond⟩) := by
  rw [Pass.stepPlaced]
  cases covered with
  | nil => exact ⟨h, fun _ => hplain⟩
  | cons first others =>
      have hplain' : Plain (others ++ beyond) := (plain_cons.mp hplain).2
      cases first with
      | leaf label text =>
          refine ⟨?_, fun _ => hplain'⟩
          rw [List.append_assoc]
          exact h
      | node label inner =>
          refine ⟨?_, fun _ => hplain'⟩
          rw [List.append_assoc]
          exact h
      | raw raw =>
          refine (ends_any _).bind fun k hcut _ => ?_
          have hrow := spaced_of_cut hcut h hbeyond
          have hbehind : Plain (k.after ++ beyond) :=
            plain_append.mpr ⟨plain_after_of_cut hcut, (plain_append.mp hplain').2⟩
          by_cases hothers : others.isEmpty
          · simp only [hothers, if_true]
            exact pass.proceed_spaced hrow fun _ => hbehind
          · simp only [hothers]
            have hkept := (cut_sound hc ha.advance.slice?_eq hspan).of_ok hcut
            rw [String.ofList_toList] at hkept
            have hagain := (ha.keeps (keeps_cut ha.whole hkept)).advance
            have hrow' : Spaced (((passed ++ k.before).reverse ++ before).reverse
                ++ k.token :: (k.after ++ beyond)) := by
              simpa using hrow
            refine (ends_any _).bind fun rest' hrest' _ => ?_
            obtain ⟨hspaced, htail⟩ := hr.again hk hagain hrow' hbehind hrest'
            refine pass.proceed_spaced ?_ fun _ => htail
            simpa using hspaced

theorem stepAcross_spaced (hc : ∀ id text, Sound (Conserved text) (c.nested id text))
    (hk : pass.rematch.Keeping c.text)
    (hr : pass.rematch.Spacing c.text) {raw : String}
    (ha : Aligned c.text before (.raw raw :: rest) pos)
    (h : Spaced (before.reverse ++ .raw raw :: rest)) (hplain : Plain (.raw raw :: rest)) :
    Ends (Step.Spaced before pass.pattern.greedy) (fun _ => True)
      (pass.stepAcross c before pos raw rest) := by
  rw [Pass.stepAcross]
  refine (ends_any _).bind fun found hfind _ => ?_
  cases found with
  | none => exact h
  | some span =>
      obtain ⟨hstart, hlt, -⟩ := Regex.bounds_of_find (find_eq_ok_iff.mp hfind)
      have hall := place_append span (before.head?.any Fragment.isGreedy) pos (.raw raw :: rest)
      have hbeyond : ∀ f ∈ (place span (before.head?.any Fragment.isGreedy) pos
          (.raw raw :: rest)).beyond.head?, f.isToken = true :=
        head?_reach hplain fun _ => Nat.lt_of_le_of_lt hstart hlt
      rw [← hall] at ha h hplain
      exact stepPlaced_spaced hc hk hr ha hlt hbeyond h (plain_append.mp hplain).2

/-- A step of a scan leaves raw fragments apart. -/
theorem step_spaced (hc : ∀ id text, Sound (Conserved text) (c.nested id text))
    (hk : pass.rematch.Keeping c.text)
    (hr : pass.pattern.greedy = true → pass.rematch.Spacing c.text) {f : Fragment}
    (ha : Aligned c.text before (f :: rest) pos) (h : Spaced (before.reverse ++ f :: rest))
    (hplain : pass.pattern.greedy = true → Plain (f :: rest)) :
    Ends (Step.Spaced before pass.pattern.greedy) (fun _ => True)
      (pass.step c before pos f rest) := by
  have hrest := fun hgreedy => (plain_cons.mp (hplain hgreedy)).2
  cases f with
  | leaf label text => exact ⟨h, hrest⟩
  | node label inner => exact ⟨h, hrest⟩
  | raw raw =>
      rw [Pass.step]
      split
      · next hacross =>
          have hgreedy := (Bool.and_eq_true_iff.mp hacross).1
          exact stepAcross_spaced hc hk (hr hgreedy) ha h (hplain hgreedy)
      · exact stepAlone_spaced h hrest

/-- A scan leaves raw fragments apart, if a greedy pattern has only plain
    fragments to scan. -/
theorem scan_spaced (hc : ∀ id text, Sound (Conserved text) (c.nested id text))
    (hk : pass.rematch.Keeping c.text)
    (hr : pass.pattern.greedy = true → pass.rematch.Spacing c.text) {fuel : Nat} :
    ∀ {before fs : List Fragment} {pos : Nat}, Aligned c.text before fs pos →
      Spaced (before.reverse ++ fs) → (pass.pattern.greedy = true → Plain fs) →
      Ends (fun gs => Spaced (before.reverse ++ gs)) (fun _ => True)
        (pass.scan c fuel before fs pos) := by
  induction fuel with
  | zero =>
      intro before fs pos _ h _
      cases fs with
      | nil => exact h
      | cons f rest => trivial
  | succ fuel ih =>
      intro before fs pos ha h hplain
      cases fs with
      | nil => exact h
      | cons f rest =>
          have hfew := ha.length_le
          rw [List.length_cons] at hfew
          rw [Pass.scan, if_neg (by omega)]
          have hkeeps := step_sound hc hk ha
          refine (step_spaced hc hk hr ha h hplain).bind fun step hstep hspaced => ?_
          have hkept := hkeeps.of_ok hstep
          cases step with
          | done gs => exact hspaced
          | more settled rest' =>
              obtain ⟨hrow, hrest⟩ := hspaced
              have hrow' : Spaced ((settled.reverse ++ before).reverse ++ rest') := by
                simpa using hrow
              refine (ih (ha.keeps hkept).advance hrow' hrest).bind fun gs _ hgs => ?_
              show Spaced (before.reverse ++ (settled ++ gs))
              simpa using hgs

end Scan

-- ── Entries ──────────────────────────────────────────────────────────────

/-- What entries are applied to while greedy patterns are still to come:
    raw fragments are apart, and those behind the place are plain. -/
structure Ready (greedy : Nat) (before fs : List Fragment) : Prop where
  spaced : Spaced (before.reverse ++ fs)
  plain : 0 < greedy → Plain fs

section Entries

variable {c : Context} {name : String} {once : Bool} {again : Rematch} {before : List Fragment}
  {pos : Nat}

/-- A pattern that is not greedy leaves plain fragments plain. -/
theorem scan_plain (hc : ∀ id text, Sound (Conserved text) (c.nested id text))
    (hh : c.haystack = c.text.toArray) (hk : again.Keeping c.text) (hr : again.Spacing c.text)
    {p : Pattern} (hp : p.greedy = false) {fs gs : List Fragment}
    (ha : Aligned c.text before fs pos) (hplain : Plain fs)
    (hgs : Pass.scan c ⟨name, p, once, again⟩ (Text.byteLength c.text + 1) before fs pos = .ok gs) :
    Plain gs := by
  have hfuel : lengths fs < Text.byteLength c.text + 1 := by
    have := ha.byteLength_eq
    omega
  have hcuts : Cuts NotGreedy (fun _ => True) c name p :=
    cuts_of_not_greedy ofPlain_notGreedy c name hp
  have htokens : Ends (TokensAt NotGreedy pos) (fun _ => True)
      (Pass.scan c ⟨name, p, once, again⟩ (Text.byteLength c.text + 1) before fs pos) :=
    scan_ends hc hh hcuts hk (hr.tokensAt _ ofPlain_notGreedy) ha (tokensAt_notGreedy.mpr hplain)
      hfuel
  exact tokensAt_notGreedy.mp (htokens.of_ok hgs)

/-- A pattern is applied while `later` greedy patterns are to come behind
    it. -/
theorem scan_ready (hc : ∀ id text, Sound (Conserved text) (c.nested id text))
    (hh : c.haystack = c.text.toArray) (hk : again.Keeping c.text) {p : Pattern} {later : Nat}
    (hr : 0 < [p].countP Pattern.greedy + later → again.Spacing c.text)
    (hone : [p].countP Pattern.greedy + later ≤ 1) {fs : List Fragment}
    (ha : Aligned c.text before fs pos)
    (h : Ready ([p].countP Pattern.greedy + later) before fs) :
    Ends (Ready later before) (fun _ => True)
      (Pass.scan c ⟨name, p, once, again⟩ (Text.byteLength c.text + 1) before fs pos) := by
  have hcount : p.greedy = true → [p].countP Pattern.greedy = 1 := fun hp => by simp [hp]
  have hspaced : Ends (fun gs => Spaced (before.reverse ++ gs)) (fun _ => True)
      (Pass.scan c ⟨name, p, once, again⟩ (Text.byteLength c.text + 1) before fs pos) := by
    refine scan_spaced hc hk (fun hp => hr ?_) ha h.spaced (fun hp => h.plain ?_)
    · rw [hcount hp]
      omega
    · rw [hcount hp]
      omega
  cases hgs : Pass.scan c ⟨name, p, once, again⟩ (Text.byteLength c.text + 1) before fs pos with
  | error e => trivial
  | ok gs =>
      refine ⟨hspaced.of_ok hgs, fun hlater => ?_⟩
      -- a greedy pattern is still to come, so this one is not greedy
      have hp : p.greedy = false := by
        by_contra hp
        rw [Bool.not_eq_false] at hp
        rw [hcount hp] at hone
        omega
      exact scan_plain hc hh hk (hr (by omega)) hp ha (h.plain (by omega)) hgs

/-- The patterns of an entry are applied while `later` greedy patterns are
    to come behind them. -/
theorem patterns_ready (hc : ∀ id text, Sound (Conserved text) (c.nested id text))
    (hh : c.haystack = c.text.toArray) (hk : again.Keeping c.text) {ps : List Pattern}
    {later : Nat} (hr : 0 < ps.countP Pattern.greedy + later → again.Spacing c.text)
    (hone : ps.countP Pattern.greedy + later ≤ 1) {fs : List Fragment}
    (ha : Aligned c.text before fs pos) (h : Ready (ps.countP Pattern.greedy + later) before fs) :
    Ends (Ready later before) (fun _ => True)
      (ps.foldlM (fun fs p =>
        Pass.scan c ⟨name, p, once, again⟩ (Text.byteLength c.text + 1) before fs pos) fs) := by
  induction ps generalizing fs with
  | nil =>
      rw [List.countP_nil, Nat.zero_add] at h
      exact h
  | cons p ps ih =>
      have hcount : (p :: ps).countP Pattern.greedy + later
          = [p].countP Pattern.greedy + (ps.countP Pattern.greedy + later) := by
        rw [← Nat.add_assoc, ← List.countP_append]
        rfl
      rw [hcount] at hr hone h
      rw [List.foldlM_cons]
      refine (scan_ready hc hh hk hr hone ha h).bind fun gs hgs hready => ?_
      exact ih (fun hlater => hr (by omega)) (by omega)
        (ha.keeps ((scan_sound hc hk ha).of_ok hgs)) hready

end Entries

/-- Entries of which one pattern is greedy at most, those to come behind
    them included, leave raw fragments apart. -/
theorem applyEntries_ready {c : Context} {es : List Entry}
    (hc : ∀ id text, Sound (Conserved text) (c.nested id text)) (hh : c.haystack = c.text.toArray) :
    ∀ {later : Nat} {once : Bool} {before fs : List Fragment} {pos : Nat},
      (es.flatMap Entry.patterns).countP Pattern.greedy + later ≤ 1 →
      Aligned c.text before fs pos →
      Ready ((es.flatMap Entry.patterns).countP Pattern.greedy + later) before fs →
      Ends (Ready later before) (fun _ => True) (applyEntries c es once before fs pos) := by
  induction es with
  | nil =>
      intro later once before fs pos _ _ h
      rw [List.flatMap_nil, List.countP_nil, Nat.zero_add] at h
      exact h
  | cons e earlier ih =>
      intro later once before fs pos hone ha h
      rw [List.flatMap_cons, List.countP_append, Nat.add_comm (e.patterns.countP _), Nat.add_assoc]
        at hone h
      have hk : Rematch.Keeping c.text
          fun before fs pos => applyEntries c earlier true before fs pos :=
        fun before fs pos ha => applyEntries_sound hc ha
      -- where one of these patterns is greedy, or one to come, none of the earlier ones is
      have hr : 0 < e.patterns.countP Pattern.greedy + later → Rematch.Spacing c.text
          fun before fs pos => applyEntries c earlier true before fs pos := by
        intro hlater
        have hnone : (earlier.flatMap Entry.patterns).countP Pattern.greedy = 0 := by omega
        constructor
        case spaced =>
          intro before fs pos ha h
          have hready : Ready ((earlier.flatMap Entry.patterns).countP Pattern.greedy + 0)
              before fs := ⟨h, fun hpos => absurd hpos (by omega)⟩
          exact (ih (by omega) ha hready).mono fun gs hgs => hgs.spaced
        case tokensAt =>
          intro T hT before fs pos ha htokens
          refine applyEntries_ends hc hh (fun e he p hp => ?_) ha htokens
          refine cuts_of_not_greedy hT c e.name (Bool.eq_false_iff.mpr ?_)
          exact List.countP_eq_zero.mp hnone p (List.mem_flatMap_of_mem he hp)
      rw [applyEntries]
      refine (ih hone ha h).bind fun gs hgs hready => ?_
      exact patterns_ready hc hh hk hr (by omega) (ha.keeps ((applyEntries_sound hc ha).of_ok hgs))
        hready

-- ── Grammars ─────────────────────────────────────────────────────────────

/-- One pattern at most that a grammar matches with is greedy. -/
def OneGreedy (gs : List Grammar) : Prop :=
  ∀ id es, entries gs id = .ok es → (es.flatMap Entry.patterns).countP Pattern.greedy ≤ 1

/-- At no level inside of a token are there raw fragments side by side. -/
def SpacedInside (t : Fragment) : Prop :=
  ∀ label inner level, t = .node label inner → Level inner level → Spaced level

/-- What is inside of a token comes from the text that was matched. -/
theorem cuts_spacedInside {c : Context}
    (hlevels : ∀ id text fs level, c.nested id text = .ok fs → Level fs level → Spaced level)
    (name : String) (p : Pattern) :
    Cuts (fun _ t => SpacedInside t) (fun _ => True) c name p where
  broken _ _ := trivial
  gaveUp _ _ _ := trivial
  cut := by
    intro front hay start stop span _
    cases hk : cut c name p hay start span stop with
    | error e => trivial
    | ok k =>
        obtain ⟨_, _, _, -, -, -, ht, -, -⟩ := slices_of_cut hk
        intro label inner level hnode hlevel
        rcases token_cases ht with ⟨-, hleaf⟩ | ⟨id, inner', -, hinner, hnode'⟩
        · exact nomatch hnode.symm.trans hleaf
        · obtain ⟨-, rfl⟩ := Fragment.node.inj (hnode.symm.trans hnode')
          exact hlevels _ _ _ _ hinner hlevel

/-- The outermost fragments of a text are apart. -/
theorem tokenizeBy_spaced {gs : List Grammar} (hone : OneGreedy gs)
    {nested : GrammarId → String → Except Fault (List Fragment)}
    (hn : ∀ id text, Sound (Conserved text) (nested id text)) (id : GrammarId) (text : String) :
    Ends Spaced (fun _ => True) (tokenizeBy gs nested id text) := by
  rw [tokenizeBy]
  by_cases hempty : text = ""
  · subst hempty
    exact .nil
  · rw [if_neg (by simpa using hempty)]
    cases hes : entries gs id with
    | error e => trivial
    | ok es =>
        -- the entries are applied from the end of the reversed list on
        have hcount : (es.reverse.flatMap Entry.patterns).countP Pattern.greedy + 0 ≤ 1 :=
          ((es.reverse_perm.flatMap_right _).countP_eq _).trans_le (hone id es hes)
        have hready : Ready ((es.reverse.flatMap Entry.patterns).countP Pattern.greedy + 0) []
            [.raw text] := ⟨.singleton _, fun _ => plain_cons.mpr ⟨rfl, plain_nil⟩⟩
        exact (applyEntries_ready (c := .of nested text) hn rfl hcount (aligned_raw hempty)
          hready).mono fun fs hfs => hfs.spaced

/-- The levels of a text are apart when those of the texts of tokens are. -/
theorem tokenizeBy_levels {gs : List Grammar} (hone : OneGreedy gs)
    {nested : GrammarId → String → Except Fault (List Fragment)}
    (hn : ∀ id text, Sound (Conserved text) (nested id text))
    (hlevels : ∀ id text fs level, nested id text = .ok fs → Level fs level → Spaced level)
    {id : GrammarId} {text : String} {fs level : List Fragment}
    (h : tokenizeBy gs nested id text = .ok fs) (hlevel : Level fs level) : Spaced level := by
  have htokens := (tokenizeBy_ends hn (fun _ _ => trivial)
    fun _ _ e _ p _ => cuts_spacedInside hlevels e.name p).of_ok h
  cases hlevel with
  | here => exact (tokenizeBy_spaced hone hn id text).of_ok h
  | inside ht hlevel =>
      obtain ⟨front, back, rfl⟩ := List.append_of_mem ht
      exact htokens.of_mem rfl _ _ _ rfl hlevel

theorem tokenizeWithin_levels {gs : List Grammar} (hone : OneGreedy gs) (depth : Nat)
    (id : GrammarId) (text : String) (fs level : List Fragment)
    (h : tokenizeWithin gs depth id text = .ok fs) (hlevel : Level fs level) : Spaced level := by
  induction depth generalizing id text fs level with
  | zero => exact nomatch h
  | succ depth ih =>
      exact tokenizeBy_levels hone (tokenizeWithin_sound gs depth) ih h hlevel

/-- Where every grammar matches with one greedy pattern at most, a text has
    no raw fragments side by side, neither among its outermost fragments nor
    inside of a token. -/
theorem tokenize_spaced {gs : List Grammar} {id : GrammarId} {text : String}
    {fs level : List Fragment} (hone : OneGreedy gs) (h : tokenize gs id text = .ok fs)
    (hlevel : Level fs level) : Spaced level :=
  tokenizeWithin_levels hone _ id text fs level h hlevel

/-- A greedy match that ends inside of a token: what it leaves of the token
    is joined with the text behind. -/
theorem tokenize_spaced_across :
    let word (name source : String) : String × Rule :=
      (name, .patterns (.single { regex := { source := source } }))
    let gs : List Grammar :=
      [⟨[word "w" "bxc", ("s", .patterns (.single
          { regex := { source := "xabx" }, greedy := true, inside := some 1 })), word "n" "1"]⟩,
        ⟨[word "a" "a"]⟩]
    let inner : List Fragment := [.raw "x", .leaf ⟨"a", [], 1, false⟩ "a", .raw "bx"]
    let fs : List Fragment :=
      [.node ⟨"s", [], 4, true⟩ inner, .raw "c ", .leaf ⟨"n", [], 1, false⟩ "1"]
    (OneGreedy gs ∧ tokenize gs 0 "xabxc 1" = .ok fs ∧ Level fs inner) ∧
      Spaced fs ∧ Spaced inner := by
  intro word gs inner fs
  have hone : OneGreedy gs := by
    intro id es hes
    match id with
    | 0 =>
        obtain rfl := Except.ok.inj hes
        decide
    | 1 =>
        obtain rfl := Except.ok.inj hes
        decide
    | id + 2 => exact nomatch hes
  have h : tokenize gs 0 "xabxc 1" = .ok fs := by rfl
  have hinner : Level fs inner := .inside List.mem_cons_self (.here inner)
  exact ⟨⟨hone, h, hinner⟩, tokenize_spaced hone h (.here fs), tokenize_spaced hone h hinner⟩

end Highlighter.Tokenizer
