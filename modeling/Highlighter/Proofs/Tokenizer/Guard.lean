import Highlighter.Proofs.Tokenizer.Simulation

/-! # The guard against too many fragments

    In front of every step a scan compares the number of fragments with that
    of the bytes.  The scans of this library fail when there are more
    fragments than bytes; others could leave what they are doing then, with
    the fragments as they are, or look at neither.  None of that is ever
    seen, since fragments are not empty.

    To say so, tokenizing is written down with any such guard
    (`Guard.tokenizeWithin`).  As long as a guard lets pass what has no more
    fragments than bytes, it makes no difference
    (`Guard.tokenizeWithin_eq`): the run is aligned whenever the guard is
    asked.  What numbers a guard is asked for shows when it fails at these
    alone; they are never more fragments than bytes (`guard_unreached`). -/

namespace Highlighter.Tokenizer

open Fragment (AllWhole Conserved texts lengths)
open Text (byteLength)

/-- What to do in front of a step, with so many fragments of a text of so
    many bytes: go on, or leave; or the run fails. -/
abbrev Guard := (fragments bytes : Nat) → Except Fault Bool

namespace Guard

/-- Leaves when there are more fragments than bytes. -/
def quiet : Guard := fun fragments bytes => .ok (decide (bytes < fragments))

/-- Goes on in any case. -/
def absent : Guard := fun _ _ => .ok false

/-- Fails for some numbers, and is quiet otherwise. -/
def probe (fragments bytes : Nat) : Guard := fun n m =>
  if n = fragments ∧ m = bytes then .error .overfull else quiet n m

/-- The guard goes on where there are no more fragments than bytes. -/
def Passes (guard : Guard) : Prop :=
  ∀ fragments bytes, fragments ≤ bytes → guard fragments bytes = .ok false

-- ── Tokenizing with a guard ──────────────────────────────────────────────

variable (guard : Guard)

/-- Scans like `Pass.scan`, with a guard; the fragments and whether it was
    left. -/
def scan (c : Context) (pass : Pass) :
    (fuel : Nat) → (before fs : List Fragment) → (pos : Nat) → Except Fault (List Fragment × Bool)
  | _, _, [], _ => .ok ([], false)
  | 0, _, _ :: _, _ => .error .endless
  | fuel + 1, before, f :: rest, pos => do
      if ← guard (before.length + (rest.length + 1)) (byteLength c.text) then .ok (f :: rest, true)
      else
        match ← pass.step c before pos f rest with
        | .done fs => .ok (fs, false)
        | .more settled rest => do
            let (fs, left) ← scan c pass fuel (settled.reverse ++ before) rest
              (pos + lengths settled)
            .ok (settled ++ fs, left)

/-- Applies entries with a guard.  When a scan is left, what comes after it
    is left out; but what has asked for the entries to match again goes
    on. -/
def applyEntries (c : Context) : List Entry → (once : Bool) → (before fs : List Fragment) →
    (pos : Nat) → Except Fault (List Fragment × Bool)
  | [], _, _, fs, _ => .ok (fs, false)
  | e :: earlier, once, before, fs, pos => do
      let state ← applyEntries c earlier once before fs pos
      e.patterns.foldlM
        (fun state p =>
          let again := fun before fs pos =>
            (applyEntries c earlier true before fs pos).map Prod.fst
          if state.2 then .ok state
          else guard.scan c ⟨e.name, p, once, again⟩ (byteLength c.text + 1) before state.1 pos)
        state

/-- Tokenizes a text with a guard, the texts of its tokens by `nested`. -/
def tokenizeBy (gs : List Grammar) (nested : GrammarId → String → Except Fault (List Fragment))
    (id : GrammarId) (text : String) : Except Fault (List Fragment) :=
  if text.isEmpty then .ok []
  else match entries gs id with
    | .error e => .error (.noSuchGrammar e.id)
    | .ok es =>
        (guard.applyEntries (.of nested text) es.reverse false [] [.raw text] 0).map Prod.fst

/-- Tokenizes a text with a guard, with tokens nested `depth` deep at
    most. -/
def tokenizeWithin (gs : List Grammar) : (depth : Nat) → GrammarId → String →
    Except Fault (List Fragment)
  | 0 => fun _ _ => .error .endless
  | depth + 1 => guard.tokenizeBy gs (tokenizeWithin gs depth)

end Guard

-- ── A guard makes no difference ──────────────────────────────────────────

section Scan

variable {c : Context} {pass : Pass} {again : Rematch}

/-- A step goes along with one that matches again in another way. -/
theorem step_below_rematch (pass : Pass) (again : Rematch)
    (hc : ∀ id text, Sound (Conserved text) (c.nested id text))
    (hr : RematchBelow c.text pass.rematch again) {before rest : List Fragment} {f : Fragment}
    {pos : Nat} (ha : Aligned c.text before (f :: rest) pos) :
    Below (pass.step c before pos f rest)
      (Pass.step c { pass with rematch := again } before pos f rest) := by
  have hnested : NestedBelow Eq c c.nested := by
    rintro a _ rfl part _
    exact .refl _
  have hinside : Option.Rel Eq pass.pattern.inside pass.pattern.inside := by
    cases pass.pattern.inside with
    | none => exact .none
    | some a => exact .some rfl
  exact step_below hc hnested hinside hr ha

/-- A step is the same when matching again is, from where the fragments are
    aligned. -/
theorem step_congr (hc : ∀ id text, Sound (Conserved text) (c.nested id text))
    (hr : ∀ before fs pos, Aligned c.text before fs pos →
      again before fs pos = pass.rematch before fs pos)
    {before rest : List Fragment} {f : Fragment} {pos : Nat}
    (ha : Aligned c.text before (f :: rest) pos) :
    Pass.step c { pass with rematch := again } before pos f rest
      = pass.step c before pos f rest := by
  refine Below.antisymm ?_ ?_
  · exact step_below_rematch { pass with rematch := again } pass.rematch hc
      (fun before fs pos ha => .inr (hr before fs pos ha)) ha
  · exact step_below_rematch pass again hc
      (fun before fs pos ha => .inr (hr before fs pos ha).symm) ha

/-- A scan that is aligned is never left. -/
theorem Guard.scan_eq {guard : Guard} (hguard : guard.Passes) (pass : Pass)
    (hc : ∀ id text, Sound (Conserved text) (c.nested id text))
    (hk : pass.rematch.Keeping c.text)
    (hr : ∀ before fs pos, Aligned c.text before fs pos →
      again before fs pos = pass.rematch before fs pos)
    {fuel : Nat} {before fs : List Fragment} {pos : Nat} (ha : Aligned c.text before fs pos) :
    guard.scan c { pass with rematch := again } fuel before fs pos
      = (pass.scan c fuel before fs pos).map (·, false) := by
  induction fuel generalizing before fs pos with
  | zero => cases fs <;> rfl
  | succ fuel ih =>
      cases fs with
      | nil => rfl
      | cons f rest =>
          have hfew : before.length + (rest.length + 1) ≤ byteLength c.text := ha.length_le
          have hsound := step_sound hc hk ha
          -- whole fragments that make up the text are no more than its bytes
          rw [Guard.scan, hguard _ _ hfew, Pass.scan, if_neg (Nat.not_lt.mpr hfew),
            step_congr hc hr ha]
          simp only [bind, Except.bind]
          cases hstep : pass.step c before pos f rest with
          | error e => rfl
          | ok step =>
              cases step with
              | done gs => rfl
              | more settled rest' =>
                  have hkept : Keeps (f :: rest) (settled ++ rest') := hsound.of_ok hstep
                  have hnext := ih (ha.keeps hkept).advance
                  simp only [hnext]
                  cases pass.scan c fuel (settled.reverse ++ before) rest'
                    (pos + lengths settled) <;> rfl

end Scan

/-- Applying entries is never left: matching again is no case of its own. -/
theorem Guard.applyEntries_eq {guard : Guard} (hguard : guard.Passes) {c : Context}
    (hc : ∀ id text, Sound (Conserved text) (c.nested id text)) {es : List Entry} {once : Bool}
    {before fs : List Fragment} {pos : Nat} (ha : Aligned c.text before fs pos) :
    guard.applyEntries c es once before fs pos
      = (Tokenizer.applyEntries c es once before fs pos).map (·, false) := by
  induction es generalizing once before fs pos with
  | nil => rfl
  | cons e earlier ih =>
      have hkeep : Rematch.Keeping c.text
          fun before fs pos => Tokenizer.applyEntries c earlier true before fs pos :=
        fun before fs pos ha => applyEntries_sound hc ha
      have hagain : ∀ before fs pos, Aligned c.text before fs pos →
          (guard.applyEntries c earlier true before fs pos).map Prod.fst
            = Tokenizer.applyEntries c earlier true before fs pos := by
        intro before fs pos ha
        rw [ih ha]
        cases Tokenizer.applyEntries c earlier true before fs pos <;> rfl
      have hsound : Sound (Keeps fs) (Tokenizer.applyEntries c earlier once before fs pos) :=
        applyEntries_sound hc ha
      rw [Guard.applyEntries, ih ha, Tokenizer.applyEntries]
      cases hgs : Tokenizer.applyEntries c earlier once before fs pos with
      | error f => rfl
      | ok gs =>
          refine Sound.foldlM_map (P := Keeps fs) (h := (·, false)) (fun hs hhs p _ => ?_)
            (hsound.of_ok hgs)
          refine ⟨Guard.scan_eq hguard ⟨e.name, p, once, _⟩ hc hkeep hagain (ha.keeps hhs), ?_⟩
          refine (scan_sound hc hkeep (ha.keeps hhs)).mono fun is his => ?_
          exact ⟨his.1.trans hhs.1, his.2⟩

/-- Tokenizing with a guard that lets pass what has no more fragments than
    bytes is tokenizing. -/
theorem Guard.tokenizeWithin_eq {guard : Guard} (hguard : guard.Passes) (gs : List Grammar)
    (depth : Nat) : guard.tokenizeWithin gs depth = Tokenizer.tokenizeWithin gs depth := by
  induction depth with
  | zero => rfl
  | succ depth ih =>
      funext id text
      show guard.tokenizeBy gs (guard.tokenizeWithin gs depth) id text
        = Tokenizer.tokenizeBy gs (Tokenizer.tokenizeWithin gs depth) id text
      rw [ih, Guard.tokenizeBy, Tokenizer.tokenizeBy]
      by_cases hempty : text = ""
      · subst hempty
        rfl
      · rw [if_neg (by simpa using hempty), if_neg (by simpa using hempty)]
        cases entries gs id with
        | error e => rfl
        | ok es =>
            let c := Context.of (Tokenizer.tokenizeWithin gs depth) text
            have heq : guard.applyEntries c es.reverse false [] [.raw text] 0
                = (Tokenizer.applyEntries c es.reverse false [] [.raw text] 0).map (·, false) :=
              Guard.applyEntries_eq hguard (tokenizeWithin_sound gs depth) (aligned_raw hempty)
            simp only [c] at heq
            simp only [heq]
            cases Tokenizer.applyEntries (.of (Tokenizer.tokenizeWithin gs depth) text) es.reverse
              false [] [.raw text] 0 <;> rfl

-- ── What the guard is asked ──────────────────────────────────────────────

theorem Guard.passes_quiet : quiet.Passes := by
  intro fragments bytes hle
  rw [quiet, decide_eq_false (Nat.not_lt.mpr hle)]

theorem Guard.passes_absent : absent.Passes := fun _ _ _ => rfl

/-- A probe for more fragments than bytes goes on where there are not. -/
theorem Guard.passes_probe {fragments bytes : Nat} (h : bytes < fragments) :
    (probe fragments bytes).Passes := by
  intro n m hle
  have hother : ¬ (n = fragments ∧ m = bytes) := by omega
  rw [probe, if_neg hother]
  exact passes_quiet n m hle

/-- In the run the guard is asked for these numbers, be it in a scan of the
    whole text, of what is matched again or of the text of a token: if it
    fails at them, the run fails so. -/
def Asked (gs : List Grammar) (depth : Nat) (id : GrammarId) (text : String)
    (fragments bytes : Nat) : Prop :=
  (Guard.probe fragments bytes).tokenizeWithin gs depth id text = .error .overfull

/-- Whenever the guard is asked, there are no more fragments than bytes.  So
    no run is cut short by it: leaving and going on at that point come to
    the same, and to what tokenizing gives. -/
theorem guard_unreached (gs : List Grammar) (depth : Nat) (id : GrammarId) (text : String) :
    (∀ fragments bytes, Asked gs depth id text fragments bytes → fragments ≤ bytes) ∧
      Guard.quiet.tokenizeWithin gs depth id text = tokenizeWithin gs depth id text ∧
      Guard.absent.tokenizeWithin gs depth id text = tokenizeWithin gs depth id text := by
  refine ⟨fun fragments bytes hasked => ?_, ?_, ?_⟩
  · by_contra hmore
    rw [Asked, Guard.tokenizeWithin_eq (Guard.passes_probe (Nat.not_le.mp hmore))] at hasked
    have hsound := tokenizeWithin_sound gs depth id text
    rw [hasked] at hsound
    exact hsound rfl
  · rw [Guard.tokenizeWithin_eq Guard.passes_quiet]
  · rw [Guard.tokenizeWithin_eq Guard.passes_absent]

/-- Every byte is a fragment of its own when a greedy pattern comes, which
    makes three of them one; another pattern matches nothing but the empty
    text. -/
theorem guard_unreached_bytes :
    let pattern (source : String) (greedy : Bool) : Rule :=
      .patterns (.single { regex := { source }, greedy })
    let gs : List Grammar :=
      [⟨[("n", pattern "1" false), ("s", pattern "x1x" true), ("e", pattern "y*" true)]⟩]
    Asked gs 1 0 "x1x1" 4 4 ∧ 4 ≤ 4 ∧
      Guard.quiet.tokenizeWithin gs 1 0 "x1x1"
        = .ok [.leaf ⟨"s", [], 3, true⟩ "x1x", .leaf ⟨"n", [], 1, false⟩ "1"] := by
  intro pattern gs
  obtain ⟨hle, hquiet, -⟩ := guard_unreached gs 1 0 "x1x1"
  have htokens : tokenizeWithin gs 1 0 "x1x1"
      = .ok [.leaf ⟨"s", [], 3, true⟩ "x1x", .leaf ⟨"n", [], 1, false⟩ "1"] := by rfl
  have hasked : Asked gs 1 0 "x1x1" 4 4 := Eq.refl (Except.error Fault.overfull)
  exact ⟨hasked, hle 4 4 hasked, hquiet.trans htokens⟩

end Highlighter.Tokenizer
