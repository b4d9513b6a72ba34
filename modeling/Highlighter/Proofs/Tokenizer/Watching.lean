import Highlighter.Proofs.Tokenizer.Frame

/-! # Matching again under watch

    A token in the place of several fragments makes the entries in front of
    its own match again, from the token on.  The scan then goes on with the
    index and the offset it had, and does not look whether they are still
    right.

    So that this can be said of every time it happens, matching again is
    `watched`: there is an alarm when the token is not where it was put, or
    does not begin at the offset (`Place.Designates`).  With any alarm the
    result is the same, so none is ever raised, however deep entries match
    again within each other (`applyEntries_frame`). -/

namespace Highlighter.Tokenizer

open Fragment (lengths)
open Text (byteLength)
open Indexed (Trap Place)

/-- The token at a place is there in another row too, and begins at the
    offset. -/
structure Indexed.Place.Designates (p : Place) (fs : List Fragment) : Prop where
  token : ∃ t, t.isToken = true ∧ p.fragments[p.index]? = some t ∧ fs[p.index]? = some t
  pos_eq : p.pos = startOf fs p.index

/-- A token that is kept is still designated. -/
theorem Indexed.Place.Kept.designates {p : Place} {fs : List Fragment} {t : Fragment}
    (h : p.Kept fs) (hp : p.Measured) (htoken : t.isToken = true)
    (ht : p.fragments[p.index]? = some t) : p.Designates fs :=
  ⟨⟨t, htoken, ht, h.token t ht htoken⟩, hp.kept h⟩

-- ── Results that agree step by step ──────────────────────────────────────

section Results

variable {α β ε : Type}

theorem bind_congr_of_ok {r : Except ε α} {f g : α → Except ε β}
    (h : ∀ a, r = .ok a → f a = g a) : r >>= f = r >>= g := by
  cases r with
  | error e => rfl
  | ok a => exact h a rfl

/-- Folds are the same if their steps are, on what the steps keep. -/
theorem foldlM_congr_of_ok {P : β → Prop} {f g : β → α → Except ε β}
    (hf : ∀ b, P b → ∀ a b', f b a = .ok b' → P b') (hfg : ∀ b, P b → ∀ a, g b a = f b a)
    {as : List α} : ∀ {b : β}, P b → as.foldlM g b = as.foldlM f b := by
  induction as with
  | nil => intro b _; rfl
  | cons a as ih =>
      intro b hb
      rw [List.foldlM_cons, List.foldlM_cons, hfg b hb a]
      exact bind_congr_of_ok fun b' hb' => ih (hf b hb a b' hb')

end Results

-- ── Alarms by index ──────────────────────────────────────────────────────

namespace Indexed

open Classical in
/-- Matches again from the place of a token; with an alarm, if the place
    does not designate the token afterwards. -/
noncomputable def watched (alarm : Trap) (again : Place → Except Trap (List Fragment))
    (p : Place) : Except Trap (List Fragment) := do
  let fs ← again p
  if p.Designates fs then .ok fs else .error alarm

/-- Applies entries like `applyEntries`, with all matching again watched. -/
noncomputable def watchedEntries (alarm : Trap) (c : Context) :
    List Entry → (once : Bool) → Place → Except Trap (List Fragment)
  | [], _, at' => .ok at'.fragments
  | e :: earlier, once, at' => do
      let fs ← watchedEntries alarm c earlier once at'
      e.patterns.foldlM
        (fun fs p =>
          let again := watched alarm (watchedEntries alarm c earlier true)
          Pass.scan c ⟨e.name, p, once, again⟩ (byteLength c.text + 1) { at' with fragments := fs })
        fs

/-- Another way to match again is the same from the places of tokens. -/
def SameAtTokens (again again' : Place → Except Trap (List Fragment)) : Prop :=
  ∀ q : Place, q.Measured → (∃ t, q.fragments[q.index]? = some t ∧ t.isToken = true) →
    again' q = again q

section Watched

variable {c : Context} {pass : Pass} {p : Place} {span : Regex.Span}
  {again : Place → Except Trap (List Fragment)}

/-- No alarm is raised by what leaves a token alone. -/
theorem watched_eq (hr : ∀ q fs, again q = .ok fs → q.Kept fs) (alarm : Trap) :
    SameAtTokens again (watched alarm again) := by
  intro q hq ⟨t, ht, htoken⟩
  rw [watched]
  cases hfs : again q with
  | error e => rfl
  | ok fs => exact if_pos ((hr q fs hfs).designates hq htoken ht)

variable (hsame : SameAtTokens pass.rematch again)
include hsame

theorem replace_congr (hp : p.Measured) (stop removed : Nat) :
    Pass.replace c { pass with rematch := again } p span stop removed
      = pass.replace c p span stop removed := by
  rw [replace_eq_insert, replace_eq_insert]
  show pass.insert c p span stop removed >>= _ = _
  refine bind_congr_of_ok fun q hq => ?_
  have htoken := hasToken_of_insert hq
  show (if removed = 1 then _ else again q) >>= _ = _
  rw [hsame q (htoken.measured hp) htoken.token]
  rfl

theorem stepOver_congr {fs : List Fragment} {x : Extent}
    (hx : Place.Measured ⟨fs, x.first, x.pos⟩) :
    Pass.stepOver c { pass with rematch := again } fs span x
      = pass.stepOver c fs span x := by
  rw [Pass.stepOver, Pass.stepOver]
  split
  · exact bind_congr_of_ok fun removed _ => replace_congr hsame hx _ removed
  · rfl
  · rfl

theorem stepAlone_congr (hp : p.Measured) (f : Fragment) :
    Pass.stepAlone c { pass with rematch := again } p f = pass.stepAlone c p f := by
  rw [Pass.stepAlone, Pass.stepAlone]
  refine bind_congr_of_ok fun part _ => bind_congr_of_ok fun found _ => ?_
  cases found with
  | none => rfl
  | some span => exact replace_congr hsame hp _ 1

theorem stepAcross_congr (hp : p.Measured) {f : Fragment} (hf : p.fragments[p.index]? = some f) :
    Pass.stepAcross c { pass with rematch := again } p = pass.stepAcross c p := by
  rw [Pass.stepAcross, Pass.stepAcross]
  refine bind_congr_of_ok fun found _ => ?_
  cases found with
  | none => rfl
  | some span =>
      refine bind_congr_of_ok fun count hcount => bind_congr_of_ok fun x hx => ?_
      exact stepOver_congr hsame ((first_of_extend hf hcount hx).2 hp)

theorem step_congr (hp : p.Measured) :
    Pass.step c { pass with rematch := again } p = pass.step c p := by
  rw [Pass.step, Pass.step]
  refine bind_congr_of_ok fun f hf => ?_
  split
  · rfl
  · refine bind_congr_of_ok fun last _ => ?_
    show (if (pass.pattern.greedy && p.index != last) = true then _ else _) = _
    split
    · exact stepAcross_congr hsame hp (fragmentAt_eq_ok_iff.mp hf)
    · exact stepAlone_congr hsame hp f

variable (pass) in
/-- A scan is the same with another way to match again that is so from the
    places of tokens: every place it comes to is measured. -/
theorem scan_congr (hr : ∀ q fs, pass.rematch q = .ok fs → q.Kept fs) {fuel : Nat}
    (hp : p.Measured) :
    Pass.scan c { pass with rematch := again } fuel p = pass.scan c fuel p := by
  induction fuel generalizing p with
  | zero => rfl
  | succ fuel ih =>
      rw [Pass.scan, Pass.scan]
      split
      · split
        · rfl
        · rw [step_congr hsame hp]
          refine bind_congr_of_ok fun s hs => ?_
          have hafter := step_after hr hs
          cases s with
          | done fs => rfl
          | more q => exact ih (hafter.2.2 hp)
      · rfl

end Watched

/-- No alarm is raised where entries are applied. -/
theorem watchedEntries_eq (alarm : Trap) (c : Context) (es : List Entry) :
    ∀ {once : Bool} {p : Place}, p.Measured →
      watchedEntries alarm c es once p = applyEntries c es once p := by
  induction es with
  | nil => intro once p _; rfl
  | cons e earlier ih =>
      intro once p hp
      have hkept : ∀ q fs, applyEntries c earlier true q = .ok fs → q.Kept fs :=
        fun q fs hq => applyEntries_kept hq
      -- what matches again is watched inside as well, and by induction that makes no difference
      have hsame : SameAtTokens (applyEntries c earlier true)
          (watched alarm (watchedEntries alarm c earlier true)) := by
        intro q hq htoken
        rw [← watched_eq hkept alarm q hq htoken, watched, watched, ih hq]
      rw [watchedEntries, applyEntries, ih hp]
      refine bind_congr_of_ok fun fs hfs => ?_
      refine foldlM_congr_of_ok (P := p.Kept) (fun gs hgs pattern hs hhs => ?_)
        (fun gs hgs pattern => ?_) (applyEntries_kept hfs)
      · exact hgs.trans (scan_kept hkept hhs)
      · exact scan_congr ⟨e.name, pattern, once, _⟩ hsame hkept (hp.kept hgs)

end Indexed

-- ── Alarms on what is in front and what is behind ────────────────────────

open Classical in
/-- Matches again from a token; with an alarm, if the place does not
    designate the token afterwards. -/
noncomputable def Rematch.watched (alarm : Fault) (again : Rematch) : Rematch :=
  fun before fs pos => do
    let gs ← again before fs pos
    if (row before fs pos).Designates (before.reverse ++ gs) then .ok gs else .error alarm

/-- Applies entries like `applyEntries`, with all matching again watched. -/
noncomputable def watchedEntries (alarm : Fault) (c : Context) : List Entry → (once : Bool) →
    (before fs : List Fragment) → (pos : Nat) → Except Fault (List Fragment)
  | [], _, _, fs, _ => .ok fs
  | e :: earlier, once, before, fs, pos => do
      let fs ← watchedEntries alarm c earlier once before fs pos
      e.patterns.foldlM
        (fun fs p =>
          let again : Rematch := fun before fs pos =>
            watchedEntries alarm c earlier true before fs pos
          Pass.scan c ⟨e.name, p, once, again.watched alarm⟩ (byteLength c.text + 1) before fs pos)
        fs

/-- Another way to match again is the same from tokens. -/
def Rematch.SameAtTokens (again again' : Rematch) : Prop :=
  ∀ before t rest, t.isToken = true →
    again' before (t :: rest) (lengths before) = again before (t :: rest) (lengths before)

theorem isToken_of_cut {c : Context} {name : String} {p : Pattern} {text : List Char}
    {start stop : Nat} {span : Regex.Span} {k : Cut}
    (h : cut c name p text start span stop = .ok k) : k.token.isToken = true := by
  obtain ⟨before, matched, after, -, -, -, ht, -⟩ := slices_of_cut h
  rcases token_cases ht with ⟨-, heq⟩ | ⟨id, inner, -, -, heq⟩
  · rw [heq]
    rfl
  · rw [heq]
    rfl

section ListsWatched

variable {c : Context} {pass : Pass} {again : Rematch} {before rest : List Fragment} {pos : Nat}
  {span : Regex.Span}

theorem rematch_watched_eq (hr : ∀ before fs pos gs, again before fs pos = .ok gs → Heads fs gs)
    (alarm : Fault) : again.SameAtTokens (again.watched alarm) := by
  intro before t rest htoken
  rw [Rematch.watched]
  cases hgs : again before (t :: rest) (lengths before) with
  | error e => rfl
  | ok gs =>
      have hkept := (hr _ _ _ _ hgs).kept before (lengths before)
      exact if_pos (hkept.designates (measured_row before _) htoken (getElem?_row before t rest))

variable (hsame : pass.rematch.SameAtTokens again) (hp : pos = lengths before)
include hsame hp

theorem stepPlaced_congr (at' : Placement) :
    Pass.stepPlaced c { pass with rematch := again } before pos span at'
      = pass.stepPlaced c before pos span at' := by
  rw [Pass.stepPlaced, Pass.stepPlaced]
  split
  · rfl
  · split
    · rfl
    · refine bind_congr_of_ok fun k hk => ?_
      split
      · rfl
      · have hpos : pos + lengths (at'.passed ++ k.before)
            = lengths ((at'.passed ++ k.before).reverse ++ before) := by
          rw [Fragment.lengths_append _ before, Fragment.lengths_reverse, hp, Nat.add_comm]
        dsimp only
        rw [hpos, List.cons_append, hsame _ _ _ (isToken_of_cut hk)]
        rfl

theorem Pass.step_congr (f : Fragment) :
    Pass.step c { pass with rematch := again } before pos f rest
      = pass.step c before pos f rest := by
  cases f with
  | leaf label text => rfl
  | node label inner => rfl
  | raw raw =>
      rw [Pass.step, Pass.step]
      show (if (pass.pattern.greedy && !rest.isEmpty) = true then _ else _) = _
      split
      · rw [Pass.stepAcross, Pass.stepAcross]
        refine bind_congr_of_ok fun found _ => ?_
        cases found with
        | none => rfl
        | some span => exact stepPlaced_congr hsame hp _
      · rfl

variable (pass) in
theorem Pass.scan_congr {fuel : Nat} {fs : List Fragment} :
    Pass.scan c { pass with rematch := again } fuel before fs pos
      = pass.scan c fuel before fs pos := by
  induction fuel generalizing before fs pos with
  | zero => cases fs <;> rfl
  | succ fuel ih =>
      cases fs with
      | nil => rfl
      | cons f rest =>
          rw [Pass.scan, Pass.scan]
          split
          · rfl
          · rw [Pass.step_congr hsame hp]
            refine bind_congr_of_ok fun s _ => ?_
            cases s with
            | done gs => rfl
            | more settled rest' =>
                have hnext : pos + lengths settled = lengths (settled.reverse ++ before) := by
                  rw [Fragment.lengths_append, Fragment.lengths_reverse, hp, Nat.add_comm]
                show (Pass.scan c { pass with rematch := again } fuel _ _ _ >>= _) = _
                rw [ih hnext]

end ListsWatched

/-- No alarm is raised where entries are applied. -/
theorem watchedEntries_eq (alarm : Fault) (c : Context) (es : List Entry) :
    ∀ {once : Bool} {before fs : List Fragment} {pos : Nat}, pos = lengths before →
      watchedEntries alarm c es once before fs pos = applyEntries c es once before fs pos := by
  induction es with
  | nil => intro once before fs pos _; rfl
  | cons e earlier ih =>
      intro once before fs pos hp
      let again : Rematch := fun before fs pos => applyEntries c earlier true before fs pos
      let again' : Rematch := fun before fs pos => watchedEntries alarm c earlier true before fs pos
      have hsame : again.SameAtTokens (again'.watched alarm) := by
        intro before t rest htoken
        have heads : ∀ before fs pos gs, again before fs pos = .ok gs → Heads fs gs :=
          fun before fs pos gs h => applyEntries_heads h
        rw [← rematch_watched_eq heads alarm before t rest htoken, Rematch.watched,
          Rematch.watched, show again' before (t :: rest) (lengths before) = _ from ih rfl]
      rw [watchedEntries, applyEntries, ih hp]
      refine bind_congr_of_ok fun gs _ => ?_
      refine foldlM_congr_of_ok (P := fun _ => True) (fun _ _ _ _ _ => trivial)
        (fun hs _ pattern => ?_) trivial
      exact Pass.scan_congr ⟨e.name, pattern, once, again⟩ hsame hp

-- ── Applying entries ─────────────────────────────────────────────────────

/-- Let entries match from a place on: all of a grammar's, or those in front
    of one that has matched; each pattern to the end, or once.  The offset
    of the place is where its fragment begins.

    The fragments in front of the place stay as they were, and so does the
    one at the place if it is a token.  Whenever entries match again on the
    way, at any depth, the token that was put in is afterwards still at its
    index and begins at the offset of the scan, since no alarm is raised.
    That is so in a row with indices, and on the fragments in front and
    those behind. -/
theorem applyEntries_frame (es : List Entry) (once : Bool) (before fs : List Fragment) {pos : Nat}
    (hpos : pos = lengths before) :
    ((∀ c all, Indexed.applyEntries c es once (row before fs pos) = .ok all →
        (row before fs pos).Kept all) ∧
      ∀ alarm c, Indexed.watchedEntries alarm c es once (row before fs pos)
        = Indexed.applyEntries c es once (row before fs pos)) ∧
    (∀ c gs, applyEntries c es once before fs pos = .ok gs →
        (row before fs pos).Kept (before.reverse ++ gs)) ∧
      ∀ alarm c, watchedEntries alarm c es once before fs pos
        = applyEntries c es once before fs pos := by
  have hmeasured : (row before fs pos).Measured := hpos ▸ measured_row before fs
  refine ⟨⟨fun c all hall => ?_, fun alarm c => ?_⟩, fun c gs hgs => ?_, fun alarm c => ?_⟩
  · exact Indexed.applyEntries_kept hall
  · exact Indexed.watchedEntries_eq alarm c es hmeasured
  · exact (applyEntries_heads hgs).kept before pos
  · exact watchedEntries_eq alarm c es hpos

/-- A token at the place, and behind it a greedy match over a token found
    earlier, after which the pattern of that token matches again. -/
theorem applyEntries_frame_across :
    let number : Fragment := .leaf ⟨"n", [], 1, false⟩ "1"
    let es : List Entry :=
      [⟨"s", [{ regex := { source := "x1x" }, greedy := true }]⟩,
        ⟨"n", [{ regex := { source := "1" } }]⟩]
    let before : List Fragment := [.raw "é"]
    let fs : List Fragment := [number, .raw "x1x1"]
    let gs : List Fragment := [number, .leaf ⟨"s", [], 3, true⟩ "x1x", number]
    let c : Indexed.Context :=
      ⟨"é1x1x1".toList, "é1x1x1".toList.toArray, fun _ _ => .ok []⟩
    2 = lengths before ∧
      Indexed.applyEntries c es false (row before fs 2) = .ok (before.reverse ++ gs) ∧
      (row before fs 2).Kept (before.reverse ++ gs) ∧
      ∀ alarm, Indexed.watchedEntries alarm c es false (row before fs 2)
        = .ok (before.reverse ++ gs) := by
  intro number es before fs gs c
  have hpos : 2 = lengths before := by decide
  have hall : Indexed.applyEntries c es false (row before fs 2) = .ok (before.reverse ++ gs) := by
    dsimp only [number, es, before, fs, gs, c]
    rfl
  obtain ⟨⟨hkept, hwatched⟩, -⟩ := applyEntries_frame es false before fs hpos
  exact ⟨hpos, hall, hkept c _ hall, fun alarm => (hwatched alarm c).trans hall⟩

end Highlighter.Tokenizer
