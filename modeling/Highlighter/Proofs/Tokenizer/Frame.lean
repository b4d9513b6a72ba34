import Highlighter.Proofs.Tokenizer.Extent

/-! # What matching leaves alone

    Entries match from a place in a row of fragments on.  The fragments in
    front of the place stay as they were, and so does the one at the place
    if it is a token (`Place.Kept`): tokens are passed by, and what makes
    way for a token begins with raw text.

    With indices that is a fact about every place a step comes to.  Each is
    behind the one before, and its offset is where its fragment begins if
    that was so before (`Step.After`); so whatever is replaced lies behind
    the place where it all began.  On fragments in front and fragments
    behind it is a fact about the first one behind (`Heads`), for those in
    front are not given back at all. -/

namespace Highlighter.Tokenizer

open Fragment (lengths)
open Text (byteLength)
open Indexed (Trap Place lift fragmentAt minus splice rawBetween)

-- ── Places that are kept ─────────────────────────────────────────────────

/-- A row that is as it was in front of a place, and at the place if a token
    is there. -/
structure Indexed.Place.Kept (p : Place) (fs : List Fragment) : Prop where
  front : fs.take p.index = p.fragments.take p.index
  token : ∀ t, p.fragments[p.index]? = some t → t.isToken = true → fs[p.index]? = some t

/-- The offset of a place is where the fragment there begins. -/
def Indexed.Place.Measured (p : Place) : Prop := p.pos = startOf p.fragments p.index

theorem take_of_take {fs gs : List Fragment} {i j : Nat} (hij : i ≤ j)
    (h : fs.take j = gs.take j) : fs.take i = gs.take i := by
  have htake := congrArg (List.take i) h
  rwa [List.take_take, List.take_take, Nat.min_eq_left hij] at htake

theorem getElem?_of_take {fs gs : List Fragment} {i j : Nat} (hij : i < j)
    (h : fs.take j = gs.take j) : fs[i]? = gs[i]? := by
  rw [← List.getElem?_take_of_lt hij, h, List.getElem?_take_of_lt hij]

namespace Indexed.Place

variable {p q : Place} {fs gs : List Fragment}

theorem Kept.refl (p : Place) : p.Kept p.fragments := ⟨rfl, fun _ ht _ => ht⟩

theorem Kept.trans (h : p.Kept fs) (h' : Place.Kept { p with fragments := fs } gs) : p.Kept gs :=
  ⟨h'.front.trans h.front, fun t ht htoken => h'.token t (h.token t ht htoken) htoken⟩

/-- What is kept from a later place on is kept from an earlier one on. -/
theorem Kept.of_later (hlt : p.index < q.index) (h : p.Kept q.fragments) (hq : q.Kept fs) :
    p.Kept fs where
  front := (take_of_take (Nat.le_of_lt hlt) hq.front).trans h.front
  token t ht htoken := (getElem?_of_take hlt hq.front).trans (h.token t ht htoken)

/-- In front of raw text there is nothing else to keep. -/
theorem Kept.of_raw {raw : String} (hraw : p.fragments[p.index]? = some (.raw raw))
    (hfront : fs.take p.index = p.fragments.take p.index) : p.Kept fs := by
  refine ⟨hfront, fun t ht htoken => ?_⟩
  obtain rfl := Option.some.inj (hraw.symm.trans ht)
  exact nomatch htoken

theorem Measured.kept (hp : p.Measured) (h : p.Kept fs) :
    Place.Measured { p with fragments := fs } := by
  show p.pos = startOf fs p.index
  rw [startOf, h.front]
  exact hp

/-- The offset behind a fragment. -/
theorem Measured.behind (hp : p.Measured) {f : Fragment} (hf : p.fragments[p.index]? = some f) :
    Place.Measured ⟨p.fragments, p.index + 1, p.pos + f.length⟩ := by
  show p.pos + f.length = startOf p.fragments (p.index + 1)
  rw [startOf, List.take_add_one, hf, hp, startOf]
  simp

end Indexed.Place

/-- A fold keeps what its steps keep. -/
theorem of_foldlM_ok {α β ε : Type} {P : β → Prop} {f : β → α → Except ε β}
    (hf : ∀ b, P b → ∀ a b', f b a = .ok b' → P b') {as : List α} :
    ∀ {b r : β}, P b → as.foldlM f b = .ok r → P r := by
  induction as with
  | nil =>
      intro b r hb h
      exact Except.ok.inj h ▸ hb
  | cons a as ih =>
      intro b r hb h
      rw [List.foldlM_cons] at h
      obtain ⟨b', hb', h⟩ := exists_of_bind_ok h
      exact ih (hf b hb a b' hb') h

-- ── Steps by index ───────────────────────────────────────────────────────

namespace Indexed

variable {c : Context} {pass : Pass} {p at' q : Place} {span : Regex.Span} {stop removed : Nat}

/-- A step that leaves alone what is in front of a place and a token at it,
    and goes on behind the place. -/
def Step.After (p : Place) : Step → Prop
  | .done fs => p.Kept fs
  | .more q => p.index < q.index ∧ p.Kept q.fragments ∧ (p.Measured → q.Measured)

/-- The row with a token in the place of fragments, and the place of the
    token. -/
def Pass.insert (c : Context) (pass : Pass) (at' : Place) (span : Regex.Span)
    (stop removed : Nat) : Except Trap Place := do
  let matched ← lift (slice c.text span.start span.stop)
  let before ← rawBetween c.text at'.pos span.start
  let t ← token c pass.name pass.pattern matched
  let after ← rawBetween c.text span.stop stop
  let fs ← splice at'.fragments at'.index removed (before ++ t :: after)
  .ok ⟨fs, at'.index + before.length, max at'.pos span.start⟩

/-- Goes on behind the token at a place, with the fragments after it matched
    again. -/
def Pass.goOn (pass : Pass) (q : Place) (fs : List Fragment) : Except Trap Step :=
  if pass.once then .ok (.done fs)
  else do
    let f ← fragmentAt fs q.index
    .ok (.more ⟨fs, q.index + 1, q.pos + f.length⟩)

/-- How a place in a row with a new token comes from the place it was put
    at. -/
structure Place.HasToken (at' q : Place) : Prop where
  index_le : at'.index ≤ q.index
  front : q.fragments.take at'.index = at'.fragments.take at'.index
  token : ∃ t, q.fragments[q.index]? = some t ∧ t.isToken = true
  measured : at'.Measured → q.Measured

/-- Replacing is putting the token in, matching again from it if it has
    taken the place of several fragments, and going on. -/
theorem replace_eq_insert (c : Context) (pass : Pass) (at' : Place) (span : Regex.Span)
    (stop removed : Nat) :
    pass.replace c at' span stop removed
      = pass.insert c at' span stop removed >>= fun q =>
          (if removed = 1 then .ok q.fragments else pass.rematch q) >>= pass.goOn q := by
  simp only [Pass.replace, Pass.insert, bind_assoc]
  by_cases hone : removed = 1
  · simp only [if_pos hone]
    rfl
  · simp only [if_neg hone]
    rfl

theorem fragmentAt_eq_ok_iff {fs : List Fragment} {index : Nat} {f : Fragment} :
    fragmentAt fs index = .ok f ↔ fs[index]? = some f := by
  rw [fragmentAt]
  cases fs[index]? with
  | none => simp
  | some f' => simp

theorem splice_eq_ok {fs new gs : List Fragment} {index removed : Nat}
    (h : splice fs index removed new = .ok gs) :
    index ≤ fs.length ∧ gs = fs.take index ++ (new ++ fs.drop (index + removed)) := by
  rw [splice] at h
  split at h
  · exact ⟨by omega, (Except.ok.inj h).symm⟩
  · cases h

theorem lift_eq_ok_iff {α : Type} {r : Except Fault α} {a : α} : lift r = .ok a ↔ r = .ok a := by
  cases r with
  | error e => simp [lift]
  | ok b => simp [lift]

/-- Raw text between two offsets is as long as they are apart. -/
theorem lengths_of_rawBetween {text : List Char} {start stop : Nat} {raws : List Fragment}
    (h : rawBetween text start stop = .ok raws) : lengths raws = stop - start := by
  rw [rawBetween] at h
  split at h
  · obtain ⟨cs, hcs, h⟩ := exists_of_bind_ok h
    obtain rfl := Except.ok.inj h
    obtain ⟨a, b, -, ha, hstop⟩ :=
      Text.append_of_slice? (slice_eq_ok_iff.mp (lift_eq_ok_iff.mp hcs))
    have hlength : (Fragment.raw (String.ofList cs)).length = byteLength cs :=
      Text.utf8ByteSize_ofList cs
    rw [Fragment.lengths_cons, Fragment.lengths_nil, hlength]
    omega
  · obtain rfl := Except.ok.inj h
    rw [Fragment.lengths_nil]
    omega

theorem isToken_of_token {name : String} {pattern : Pattern} {matched : List Char} {t : Fragment}
    (h : token c name pattern matched = .ok t) : t.isToken = true := by
  rw [token] at h
  split at h
  · obtain ⟨inner, -, h⟩ := exists_of_bind_ok h
    obtain rfl := Except.ok.inj h
    rfl
  · obtain rfl := Except.ok.inj h
    rfl

/-- A token is put behind what is in front of the place, and its place is
    measured again. -/
theorem hasToken_of_insert (h : pass.insert c at' span stop removed = .ok q) : at'.HasToken q := by
  rw [Pass.insert] at h
  obtain ⟨matched, -, h⟩ := exists_of_bind_ok h
  obtain ⟨before, hbefore, h⟩ := exists_of_bind_ok h
  obtain ⟨t, ht, h⟩ := exists_of_bind_ok h
  obtain ⟨after, -, h⟩ := exists_of_bind_ok h
  obtain ⟨fs, hfs, h⟩ := exists_of_bind_ok h
  obtain rfl := Except.ok.inj h
  obtain ⟨hindex, rfl⟩ := splice_eq_ok hfs
  have hfront : (at'.fragments.take at'.index).length = at'.index := List.length_take_of_le hindex
  -- the row with the text in front of the token as a part of what is in front of it
  have hrow : at'.fragments.take at'.index ++ ((before ++ t :: after)
        ++ at'.fragments.drop (at'.index + removed))
      = (at'.fragments.take at'.index ++ before)
        ++ t :: (after ++ at'.fragments.drop (at'.index + removed)) := by simp
  have hlength : at'.index + before.length
      = (at'.fragments.take at'.index ++ before).length := by rw [List.length_append, hfront]
  constructor
  case index_le => exact Nat.le_add_right _ _
  case front => exact List.take_left' hfront
  case token =>
    refine ⟨t, ?_, isToken_of_token ht⟩
    show _[at'.index + before.length]? = some t
    rw [hrow, hlength, List.getElem?_append_right (Nat.le_refl _), Nat.sub_self]
    rfl
  case measured =>
    intro hat
    show max at'.pos span.start = startOf _ (at'.index + before.length)
    rw [hrow, startOf, hlength, List.take_left' rfl, Fragment.lengths_append,
      lengths_of_rawBetween hbefore, hat, startOf]
    omega

/-- A match extends from the place on: the first fragment it touches is
    there or behind, and is where its offset says. -/
theorem first_of_extend {f : Fragment} (hf : p.fragments[p.index]? = some f) {count : Nat}
    (hcount : minus p.fragments.length p.index = .ok count) {x : Extent}
    (hx : extend p.fragments span count ⟨p.index, p.pos, p.index, p.pos⟩ = .ok x) :
    p.index ≤ x.first ∧ (p.Measured → Place.Measured ⟨p.fragments, x.first, x.pos⟩) := by
  obtain ⟨before, rest, hrow, hbefore⟩ := exists_row hf
  obtain rfl : (f :: rest).length = count := by
    rw [hrow, ← hbefore, List.length_append, List.length_reverse,
      minus_of_le (Nat.le_add_right _ _), Nat.add_sub_cancel_left] at hcount
    exact Except.ok.inj hcount
  obtain ⟨passed, covered, beyond, hplace⟩ : ∃ passed covered beyond,
      place span (before.head?.any Fragment.isGreedy) p.pos (f :: rest)
        = ⟨passed, covered, beyond⟩ := ⟨_, _, _, rfl⟩
  have hall := place_append span (before.head?.any Fragment.isGreedy) p.pos (f :: rest)
  rw [hplace] at hall
  rw [hrow, ← hbefore, extend_row before p.pos hplace.symm] at hx
  obtain rfl := Except.ok.inj hx
  refine ⟨hbefore ▸ Nat.le_add_right _ _, fun hp => ?_⟩
  show p.pos + lengths passed = startOf p.fragments (before.length + passed.length)
  have hstart : p.pos = lengths before := by
    rw [hp, hrow, ← hbefore, startOf_row]
  rw [hstart, hrow, ← hall, startOf_passed]

section Steps

variable (hr : ∀ q fs, pass.rematch q = .ok fs → q.Kept fs)
include hr

/-- What is put behind raw text leaves alone what is in front of that. -/
theorem replace_after {raw : String} (hraw : p.fragments[p.index]? = some (.raw raw))
    (hindex : p.index ≤ at'.index) (hrow : at'.fragments = p.fragments)
    (hpos : p.Measured → at'.Measured) {s : Step}
    (h : pass.replace c at' span stop removed = .ok s) : s.After p := by
  rw [replace_eq_insert] at h
  obtain ⟨q, hq, h⟩ := exists_of_bind_ok h
  obtain ⟨fs, hfs, h⟩ := exists_of_bind_ok h
  have htoken := hasToken_of_insert hq
  -- only the token at `q` is sure to be there afterwards, which is all that going on needs
  have hkept : q.Kept fs := by
    split at hfs
    · obtain rfl := Except.ok.inj hfs
      exact .refl q
    · exact hr q fs hfs
  have hfront : fs.take p.index = p.fragments.take p.index := by
    rw [take_of_take (Nat.le_trans hindex htoken.index_le) hkept.front,
      take_of_take hindex htoken.front, hrow]
  rw [Pass.goOn] at h
  split at h
  · obtain rfl := Except.ok.inj h
    exact .of_raw hraw hfront
  · obtain ⟨f, hf, h⟩ := exists_of_bind_ok h
    obtain rfl := Except.ok.inj h
    refine ⟨?_, .of_raw hraw hfront, fun hp => ?_⟩
    · exact Nat.lt_succ_of_le (Nat.le_trans hindex htoken.index_le)
    · exact ((htoken.measured (hpos hp)).kept hkept).behind (fragmentAt_eq_ok_iff.mp hf)

theorem stepOver_after {raw : String} (hraw : p.fragments[p.index]? = some (.raw raw))
    {x : Extent} (hindex : p.index ≤ x.first)
    (hpos : p.Measured → Place.Measured ⟨p.fragments, x.first, x.pos⟩) {s : Step}
    (h : pass.stepOver c p.fragments span x = .ok s) : s.After p := by
  rw [Pass.stepOver] at h
  split at h
  next raw' hfirst =>
      obtain ⟨removed, -, h⟩ := exists_of_bind_ok h
      refine replace_after hr hraw ?_ ?_ ?_ h
      · exact hindex
      · rfl
      · exact hpos
  next f hfirst =>
      obtain rfl := Except.ok.inj h
      refine ⟨Nat.lt_succ_of_le hindex, .refl p, fun hp => ?_⟩
      exact (hpos hp).behind hfirst
  next hfirst =>
      obtain rfl := Except.ok.inj h
      refine ⟨Nat.lt_succ_of_le hindex, .refl p, fun hp => ?_⟩
      show x.pos = startOf p.fragments (x.first + 1)
      rw [startOf, List.take_add_one, hfirst, Option.toList_none, List.append_nil]
      exact hpos hp

theorem stepAlone_after {raw : String} (hraw : p.fragments[p.index]? = some (.raw raw))
    {s : Step} (h : pass.stepAlone c p (.raw raw) = .ok s) : s.After p := by
  rw [Pass.stepAlone] at h
  obtain ⟨part, -, h⟩ := exists_of_bind_ok h
  obtain ⟨found, -, h⟩ := exists_of_bind_ok h
  cases found with
  | none =>
      obtain rfl := Except.ok.inj h
      by_cases honce : pass.once
      · rw [if_pos honce]
        exact .refl p
      · rw [if_neg honce]
        exact ⟨Nat.lt_succ_self _, .refl p, fun hp => hp.behind hraw⟩
  | some span => exact replace_after hr hraw (Nat.le_refl _) rfl id h

theorem stepAcross_after {raw : String} (hraw : p.fragments[p.index]? = some (.raw raw))
    {s : Step} (h : pass.stepAcross c p = .ok s) : s.After p := by
  rw [Pass.stepAcross] at h
  obtain ⟨found, -, h⟩ := exists_of_bind_ok h
  cases found with
  | none =>
      obtain rfl := Except.ok.inj h
      exact .refl p
  | some span =>
      obtain ⟨count, hcount, h⟩ := exists_of_bind_ok h
      obtain ⟨x, hx, h⟩ := exists_of_bind_ok h
      obtain ⟨hindex, hpos⟩ := first_of_extend hraw hcount hx
      exact stepOver_after hr hraw hindex hpos h

/-- What a step leaves alone. -/
theorem step_after {s : Step} (h : pass.step c p = .ok s) : s.After p := by
  rw [Pass.step] at h
  obtain ⟨f, hf, h⟩ := exists_of_bind_ok h
  have hf := fragmentAt_eq_ok_iff.mp hf
  have hpassed : (Step.more ⟨p.fragments, p.index + 1, p.pos + f.length⟩).After p :=
    ⟨Nat.lt_succ_self _, .refl p, fun hp => hp.behind hf⟩
  cases f with
  | leaf label text =>
      obtain rfl := Except.ok.inj h
      exact hpassed
  | node label inner =>
      obtain rfl := Except.ok.inj h
      exact hpassed
  | raw raw =>
      obtain ⟨last, -, h⟩ := exists_of_bind_ok h
      split at h
      · exact stepAcross_after hr hf h
      · exact stepAlone_after hr hf h

/-- What a scan leaves alone: each of its steps goes on behind the place
    that it was made at. -/
theorem scan_kept {fuel : Nat} {fs : List Fragment} (h : pass.scan c fuel p = .ok fs) :
    p.Kept fs := by
  induction fuel generalizing p with
  | zero =>
      rw [Pass.scan] at h
      split at h
      · cases h
      · obtain rfl := Except.ok.inj h
        exact .refl p
  | succ fuel ih =>
      rw [Pass.scan] at h
      split at h
      · split at h
        · cases h
        · obtain ⟨s, hs, h⟩ := exists_of_bind_ok h
          have hafter := step_after hr hs
          cases s with
          | done gs =>
              obtain rfl := Except.ok.inj h
              exact hafter
          -- the next place is behind this one, so what is kept from there on is kept from here
          | more q => exact .of_later hafter.1 hafter.2.1 (ih h)
      · obtain rfl := Except.ok.inj h
        exact .refl p

end Steps

/-- What applying entries leaves alone.  Those that match again are earlier
    ones, so the induction speaks of them as well. -/
theorem applyEntries_kept {c : Context} {es : List Entry} :
    ∀ {once : Bool} {p : Place} {fs : List Fragment},
      applyEntries c es once p = .ok fs → p.Kept fs := by
  induction es with
  | nil =>
      intro once p fs h
      obtain rfl := Except.ok.inj h
      exact .refl p
  | cons e earlier ih =>
      intro once p fs h
      rw [applyEntries] at h
      obtain ⟨gs, hgs, h⟩ := exists_of_bind_ok h
      refine of_foldlM_ok (P := p.Kept) (fun hs hhs pattern is his => ?_) (ih hgs) h
      exact hhs.trans (scan_kept (fun q fs hq => ih hq) his)

end Indexed

-- ── The same on what is in front and what is behind ──────────────────────

/-- The first fragment is the same in another row if it is a token. -/
def Heads (fs gs : List Fragment) : Prop :=
  ∀ t, fs.head? = some t → t.isToken = true → gs.head? = some t

theorem Heads.refl (fs : List Fragment) : Heads fs fs := fun _ ht _ => ht

theorem Heads.trans {fs gs hs : List Fragment} (h : Heads fs gs) (h' : Heads gs hs) : Heads fs hs :=
  fun t ht htoken => h' t (h t ht htoken) htoken

/-- Behind what is settled there may be other fragments. -/
theorem Heads.append {fs settled rest gs : List Fragment} (h : Heads fs (settled ++ rest))
    (hrest : Heads rest gs) : Heads fs (settled ++ gs) := by
  cases settled with
  | nil => exact h.trans hrest
  | cons f settled => exact h

theorem heads_raw (raw : String) (rest gs : List Fragment) : Heads (.raw raw :: rest) gs := by
  intro t ht htoken
  obtain rfl := Option.some.inj ht
  exact nomatch htoken

/-- In a row the fragments in front are not even looked at. -/
theorem Heads.kept {fs gs : List Fragment} (h : Heads fs gs) (before : List Fragment) (pos : Nat) :
    (row before fs pos).Kept (before.reverse ++ gs) := by
  have hat : ∀ gs : List Fragment, (before.reverse ++ gs)[before.length]? = gs.head? := by
    intro gs
    rw [List.getElem?_append_right (by simp), List.head?_eq_getElem?]
    simp
  constructor
  case front =>
    show (before.reverse ++ gs).take before.length = (before.reverse ++ fs).take before.length
    rw [List.take_left' List.length_reverse, List.take_left' List.length_reverse]
  case token =>
    intro t ht htoken
    exact (hat gs).trans (h t ((hat fs).symm.trans ht) htoken)

theorem measured_row (before fs : List Fragment) : (row before fs (lengths before)).Measured :=
  (startOf_row before fs).symm

/-- A step that leaves alone the first fragment if it is a token. -/
def Step.Heads (fs : List Fragment) : Step → Prop
  | .done gs => Tokenizer.Heads fs gs
  | .more settled rest => Tokenizer.Heads fs (settled ++ rest)

section Lists

variable {c : Context} {pass : Pass} {before fs rest : List Fragment} {pos : Nat} {f : Fragment}

theorem step_heads {s : Step} (h : pass.step c before pos f rest = .ok s) :
    s.Heads (f :: rest) := by
  cases f with
  | leaf label text =>
      obtain rfl := Except.ok.inj h
      exact .refl _
  | node label inner =>
      obtain rfl := Except.ok.inj h
      exact .refl _
  | raw raw =>
      cases s with
      | done gs => exact heads_raw raw rest gs
      | more settled rest' => exact heads_raw raw rest _

theorem scan_heads {fuel : Nat} {gs : List Fragment}
    (h : pass.scan c fuel before fs pos = .ok gs) : Heads fs gs := by
  induction fuel generalizing before fs pos gs with
  | zero =>
      cases fs with
      | nil =>
          obtain rfl := Except.ok.inj h
          exact .refl _
      | cons f rest => cases h
  | succ fuel ih =>
      cases fs with
      | nil =>
          obtain rfl := Except.ok.inj h
          exact .refl _
      | cons f rest =>
          rw [Pass.scan] at h
          split at h
          · cases h
          · obtain ⟨s, hs, h⟩ := exists_of_bind_ok h
            have hstep := step_heads hs
            cases s with
            | done gs' =>
                obtain rfl := Except.ok.inj h
                exact hstep
            | more settled rest' =>
                obtain ⟨gs', hgs', h⟩ := exists_of_bind_ok h
                obtain rfl := Except.ok.inj h
                exact hstep.append (ih hgs')

theorem applyEntries_heads {es : List Entry} :
    ∀ {once : Bool} {before fs gs : List Fragment} {pos : Nat},
      applyEntries c es once before fs pos = .ok gs → Heads fs gs := by
  induction es with
  | nil =>
      intro once before fs gs pos h
      obtain rfl := Except.ok.inj h
      exact .refl _
  | cons e earlier ih =>
      intro once before fs gs pos h
      rw [applyEntries] at h
      obtain ⟨hs, hhs, h⟩ := exists_of_bind_ok h
      refine of_foldlM_ok (P := Heads fs) (fun is his pattern js hjs => ?_) (ih hhs) h
      exact his.trans (scan_heads hjs)

end Lists

end Highlighter.Tokenizer
