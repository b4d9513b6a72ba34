import Highlighter.Proofs.Tokenizer.Cutting
import Highlighter.Proofs.Tokenizer.Indexed

/-! # Fragments in a row

    Fragments in front of a place and those behind make up a row, with the
    place in it (`row`).  Reading at the place, replacing fragments behind
    it and extending a greedy match from it succeed, and give what the two
    lists have to say; a search from between two characters finds the same
    for a pattern that strips prefixes only, and what it finds can be
    sliced out of the text.

    Results agree (`Agrees`) when they are the same fault or are related;
    so a result that agrees with one is no trap of its own. -/

namespace Highlighter.Tokenizer

open Fragment (lengths)
open Text (byteLength slice?)
open Indexed (Trap Place lift fragmentAt minus splice rawBetween)

variable {α β γ δ : Type}

-- ── Results that agree ───────────────────────────────────────────────────

/-- The same fault, or results that are related. -/
inductive Agrees (S : α → β → Prop) : Except Fault α → Except Trap β → Prop where
  | fault (e : Fault) : Agrees S (.error e) (.error (.fault e))
  | ok {a : α} {b : β} : S a b → Agrees S (.ok a) (.ok b)

theorem Agrees.bind {S : α → β → Prop} {T : γ → δ → Prop} {r : Except Fault α}
    {s : Except Trap β} {f : α → Except Fault γ} {g : β → Except Trap δ} (h : Agrees S r s)
    (hfg : ∀ a b, r = .ok a → S a b → Agrees T (f a) (g b)) : Agrees T (r >>= f) (s >>= g) := by
  cases h with
  | fault e => exact .fault e
  | ok hab => exact hfg _ _ rfl hab

theorem Agrees.mono {S T : α → β → Prop} {r : Except Fault α} {s : Except Trap β}
    (h : Agrees S r s) (hST : ∀ a b, S a b → T a b) : Agrees T r s := by
  cases h with
  | fault e => exact .fault e
  | ok hab => exact .ok (hST _ _ hab)

theorem Agrees.map {S : α → β → Prop} {T : γ → β → Prop} {r : Except Fault α} {s : Except Trap β}
    {f : α → γ} (h : Agrees S r s) (hf : ∀ a b, S a b → T (f a) b) :
    Agrees T (r >>= fun a => .ok (f a)) s := by
  cases h with
  | fault e => exact .fault e
  | ok hab => exact .ok (hf _ _ hab)

/-- Folds agree whose steps do, and keep a property of the first. -/
theorem Agrees.foldlM {S : β → γ → Prop} {P : β → Prop} {f : β → α → Except Fault β}
    {g : γ → α → Except Trap γ} {as : List α}
    (hfg : ∀ b b', S b b' → P b → ∀ a ∈ as, Agrees S (f b a) (g b' a) ∧ Sound P (f b a))
    {b : β} {b' : γ} (hb : S b b') (hP : P b) : Agrees S (as.foldlM f b) (as.foldlM g b') := by
  induction as generalizing b b' with
  | nil => exact .ok hb
  | cons a as ih =>
      rw [List.foldlM_cons, List.foldlM_cons]
      obtain ⟨hstep, hsound⟩ := hfg b b' hb hP a List.mem_cons_self
      refine hstep.bind fun x x' hx hxx' => ?_
      exact ih (fun b b' hb hP a ha => hfg b b' hb hP a (List.mem_cons_of_mem _ ha)) hxx'
        (hsound.of_ok hx)

theorem Agrees.of_lift (r : Except Fault α) : Agrees Eq r (lift r) := by
  cases r with
  | error e => exact .fault e
  | ok a => exact .ok rfl

theorem Agrees.eq_lift {r : Except Fault α} {s : Except Trap α} (h : Agrees Eq r s) :
    s = lift r := by
  cases h with
  | fault e => rfl
  | ok hab => rw [hab]; rfl

theorem ok_bind {ε : Type} (a : α) (f : α → Except ε β) : (Except.ok a >>= f) = f a := rfl

-- ── Accesses ─────────────────────────────────────────────────────────────

/-- Fragments in front of a place, in reverse, and those behind, in a row. -/
def row (before fs : List Fragment) (pos : Nat) : Place :=
  ⟨before.reverse ++ fs, before.length, pos⟩

theorem minus_of_le {a b : Nat} (h : b ≤ a) : minus a b = .ok (a - b) := by
  rw [minus, if_pos h]

/-- The place itself is the first fragment behind it. -/
theorem getElem?_row (before : List Fragment) (f : Fragment) (rest : List Fragment) :
    (before.reverse ++ f :: rest)[before.length]? = some f := by
  rw [List.getElem?_append_right (by simp)]
  simp

theorem fragmentAt_row (before : List Fragment) (f : Fragment) (rest : List Fragment) :
    fragmentAt (before.reverse ++ f :: rest) before.length = .ok f := by
  rw [fragmentAt, getElem?_row]

/-- Fragments behind a place are replaced there. -/
theorem splice_row (before covered new beyond : List Fragment) :
    splice (before.reverse ++ (covered ++ beyond)) before.length covered.length new
      = .ok (before.reverse ++ (new ++ beyond)) := by
  have htake : (before.reverse ++ (covered ++ beyond)).take before.length = before.reverse :=
    List.take_left' (by simp)
  have hdrop : (before.reverse ++ (covered ++ beyond)).drop (before.length + covered.length)
      = beyond := by
    rw [← List.append_assoc]
    exact List.drop_left' (by simp)
  have hbound : before.length + covered.length ≤ (before.reverse ++ (covered ++ beyond)).length := by
    simp only [List.length_append, List.length_reverse]
    omega
  rw [splice, if_pos hbound, htake, hdrop]

/-- What a slice has found is the raw text there. -/
theorem rawBetween_of_slice? {text cs : List Char} {start stop : Nat}
    (h : slice? text start stop = some cs) :
    rawBetween text start stop = .ok (rawFragment? cs) := by
  obtain ⟨a, b, -, ha, hstop⟩ := Text.append_of_slice? h
  rw [rawBetween]
  by_cases hlt : start < stop
  · rw [if_pos hlt, slice, h]
    have hsome : cs ≠ [] := by
      rintro rfl
      rw [Text.byteLength_nil] at hstop
      omega
    rw [rawFragment?, if_neg (by simpa using hsome)]
    rfl
  · rw [if_neg hlt]
    obtain rfl := Text.byteLength_eq_zero.mp (show byteLength cs = 0 by omega)
    rfl

-- ── Finding ──────────────────────────────────────────────────────────────

/-- The text in front of an offset ends between two characters. -/
theorem position?_append (front back : List Char) :
    Regex.position? (front ++ back).toArray (byteLength front) = some front.length := by
  rw [Regex.position?, List.toList_toArray, Text.takeBytes?_append]
  rfl

/-- The length of a prefix is subtracted without underflow. -/
theorem tokenOf_eq {text : Regex.Haystack} {lookbehind : Bool} {m : Regex.Match}
    (hm : lookbehind = true → m.Prefixed) :
    Indexed.tokenOf text lookbehind m = .ok (m.token text lookbehind) := by
  unfold Indexed.tokenOf Regex.Match.token
  cases lookbehind with
  | false => rfl
  | true =>
      cases hfirst : m.first with
      | none => rfl
      | some group =>
          obtain ⟨start, stop⟩ := group
          have hle := Regex.offset_mono text (hm rfl start stop hfirst).2
          show (do let stripped ← minus (Regex.offset text stop) (Regex.offset text start); _) = _
          rw [minus_of_le hle]
          rfl

theorem findIn_eq {p : Pattern} {search : Regex.Search} {text : Regex.Haystack} {start : Nat}
    (hm : p.lookbehind = true → ∀ pos m, search text pos = .ok (some m) → m.Prefixed)
    (count pos : Nat) :
    Indexed.findIn p search text start count pos
      = lift ((Regex.findIn search p.regex.flags.sticky p.lookbehind text start count pos).mapError
          (Fault.ofFailure p.regex)) := by
  induction count generalizing pos with
  | zero =>
      rw [Indexed.findIn, Regex.findIn]
      split <;> rfl
  | succ count ih =>
      rw [Indexed.findIn, Regex.findIn]
      rcases hsearch : search text pos with e | _ | m
      · rfl
      · rfl
      · have htoken : Indexed.tokenOf text p.lookbehind m = .ok (m.token text p.lookbehind) :=
          tokenOf_eq fun hl => hm hl pos m hsearch
        simp only [htoken]
        split
        · rfl
        · show (if (m.token text p.lookbehind).start < (m.token text p.lookbehind).stop then _
            else _) = _
          split
          · rfl
          · -- a match starts between two characters, so the text can be sliced there
            have hslice : slice? text.toList (Regex.offset text m.start)
                (byteLength text.toList) = some (text.toList.drop m.start) := by
              have hsplit := congrArg byteLength (List.take_append_drop m.start text.toList)
              rw [Text.byteLength_append] at hsplit
              refine Text.slice?_eq_some_iff.mpr ⟨text.toList.take m.start, [], ?_, rfl, hsplit⟩
              rw [List.append_nil, List.take_append_drop]
            rw [slice, hslice]
            exact ih (m.start + 1)

/-- A search from between two characters, for a pattern that strips
    prefixes only. -/
theorem find_eq {p : Pattern} {front back : List Char}
    (hp : p.lookbehind = true → Regex.PrefixedIn p.regex (front ++ back).toArray) :
    Indexed.find p (front ++ back).toArray (byteLength front)
      = lift (find p (front ++ back).toArray (byteLength front)) := by
  rw [Indexed.find, find]
  cases hprogram : p.regex.program with
  | error e =>
      rw [Regex.find, hprogram]
      rfl
  | ok program =>
      rw [Regex.find_of_program hprogram (position?_append front back), position?_append]
      exact findIn_eq (fun hl => hp hl program hprogram) _ _

-- ── Greedy matches ───────────────────────────────────────────────────────

/-- Whether a match extends over the fragment behind a place. -/
theorem extendsOver_row {before rest : List Fragment} {f : Fragment} {span : Regex.Span}
    {x : Indexed.Extent} (hx : x.next = before.length) :
    Indexed.extendsOver (before.reverse ++ f :: rest) span x f
      = .ok (x.stop < span.stop || (!f.isToken && !before.head?.any Fragment.isGreedy)) := by
  rw [Indexed.extendsOver]
  by_cases hlt : x.stop < span.stop
  · simp [hlt]
  · rw [if_neg hlt]
    by_cases htoken : f.isToken
    · simp [hlt, htoken]
    · rw [if_neg htoken]
      cases before with
      | nil =>
          rw [if_pos (show x.next = 0 from hx)]
          simp [htoken]
      | cons b before =>
          have hread : fragmentAt ((b :: before).reverse ++ f :: rest) before.length = .ok b := by
            rw [List.reverse_cons, List.append_assoc]
            exact fragmentAt_row before b (f :: rest)
          have hone : minus x.next 1 = .ok before.length := by
            rw [hx, List.length_cons, minus_of_le (Nat.le_add_left 1 _), Nat.add_sub_cancel]
          rw [if_neg (by rw [hx]; exact Nat.succ_ne_zero _), hone]
          show (do let f' ← fragmentAt _ before.length; _) = _
          rw [hread]
          simp only [hlt, htoken, List.head?_cons, Option.any_some]
          rfl

/-- A match extends over the fragments behind a place one by one. -/
theorem extend_cons (before rest : List Fragment) (f : Fragment) (span : Regex.Span)
    (first pos stop : Nat) :
    Indexed.extend (before.reverse ++ f :: rest) span (rest.length + 1)
        ⟨first, pos, before.length, stop⟩
      = if (stop < span.stop || (!f.isToken && !before.head?.any Fragment.isGreedy)) then
          Indexed.extend ((f :: before).reverse ++ rest) span rest.length
            (if stop + f.length ≤ span.start
            then ⟨first + 1, stop + f.length, (f :: before).length, stop + f.length⟩
            else ⟨first, pos, (f :: before).length, stop + f.length⟩)
        else .ok ⟨first, pos, before.length, stop⟩ := by
  rw [Indexed.extend, fragmentAt_row, List.reverse_cons, List.append_assoc]
  show (do let goes ← Indexed.extendsOver _ span _ f; _) = _
  rw [extendsOver_row rfl]
  rfl

/-- From behind the start of the match on, a match extends over what it
    reaches. -/
theorem extend_behind {span : Regex.Span} {fs : List Fragment} (first pos : Nat) :
    ∀ (before : List Fragment) (stop : Nat), span.start < stop →
      Indexed.extend (before.reverse ++ fs) span fs.length ⟨first, pos, before.length, stop⟩
        = .ok ⟨first, pos,
          before.length + (reach span.stop (before.head?.any Fragment.isGreedy) stop fs).1.length,
          stop + lengths (reach span.stop (before.head?.any Fragment.isGreedy) stop fs).1⟩ := by
  induction fs with
  | nil => intro before stop _; rfl
  | cons f rest ih =>
      intro before stop hstop
      rw [List.length_cons, extend_cons, reach]
      by_cases hgoes : (stop < span.stop || (!f.isToken && !before.head?.any Fragment.isGreedy))
          = true
      · rw [if_pos hgoes, if_pos hgoes, if_neg (by omega),
          ih (f :: before) (stop + f.length) (by omega)]
        simp only [List.head?_cons, Option.any_some, List.length_cons, Fragment.lengths_cons]
        congr 2 <;> omega
      · rw [if_neg hgoes, if_neg hgoes]
        rfl

/-- Extending a match from a place finds what it passes by and covers. -/
theorem extend_row {span : Regex.Span} {fs : List Fragment} :
    ∀ (before : List Fragment) (pos : Nat) {p : Placement},
      p = place span (before.head?.any Fragment.isGreedy) pos fs →
      Indexed.extend (before.reverse ++ fs) span fs.length ⟨before.length, pos, before.length, pos⟩
        = .ok ⟨before.length + p.passed.length, pos + lengths p.passed,
          before.length + p.passed.length + p.covered.length,
          pos + lengths p.passed + lengths p.covered⟩ := by
  induction fs with
  | nil => rintro before pos p rfl; rfl
  | cons f rest ih =>
      rintro before pos p rfl
      rw [List.length_cons, extend_cons, place, reach]
      by_cases hgoes : (pos < span.stop || (!f.isToken && !before.head?.any Fragment.isGreedy))
          = true
      · rw [if_pos hgoes, if_pos hgoes]
        simp only [passBy]
        by_cases hpassed : pos + f.length ≤ span.start
        · have hmore := ih (f :: before) (pos + f.length) rfl
          rw [if_pos hpassed, if_pos hpassed]
          refine hmore.trans ?_
          simp only [place, List.head?_cons, Option.any_some, List.length_cons,
            Fragment.lengths_cons]
          congr 2 <;> omega
        · rw [if_neg hpassed, if_neg hpassed,
            extend_behind _ _ (f :: before) _ (by omega)]
          simp only [List.head?_cons, Option.any_some, List.length_cons, Fragment.lengths_cons,
            Fragment.lengths_nil, List.length_nil]
          congr 2 <;> omega
      · rw [if_neg hgoes, if_neg hgoes]
        rfl

-- ── Slices ───────────────────────────────────────────────────────────────

/-- What is found can be sliced out, for it begins and ends between two
    characters. -/
theorem Found.slices {text : List Char} {p : Pattern} {front hay : List Char} {start stop : Nat}
    {span : Regex.Span} (hf : Found text p front hay start stop span)
    (hp : p.lookbehind = true → Regex.PrefixedIn p.regex hay.toArray) :
    ∃ before matched after, slice? hay start span.start = some before ∧
      slice? hay span.start span.stop = some matched ∧ slice? hay span.stop stop = some after := by
  obtain ⟨cs, hcs⟩ := hf.stretch
  obtain ⟨a, b, hab, ha, hstop⟩ := Text.append_of_slice? hcs
  obtain ⟨place, -, hfind⟩ := hf.found
  obtain ⟨⟨i, hi⟩, j, hj⟩ := Regex.boundaries_of_find hp (find_eq_ok_iff.mp hfind)
  rw [Regex.offset, List.toList_toArray] at hi hj
  have hlt := hf.lt
  obtain ⟨before, hbefore⟩ := Text.exists_slice? hf.start_le
    (show hay = a ++ (cs ++ b) by rw [hab, List.append_assoc]) ha
    (List.take_append_drop i hay).symm hi.symm
  obtain ⟨matched, hmatched⟩ := Text.exists_slice? (Nat.le_of_lt hlt)
    (List.take_append_drop i hay).symm hi.symm (List.take_append_drop j hay).symm hj.symm
  obtain ⟨after, hafter⟩ := Text.exists_slice? hf.le_stop
    (List.take_append_drop j hay).symm hj.symm hab (by rw [Text.byteLength_append, hstop])
  exact ⟨before, matched, after, hbefore, hmatched, hafter⟩

/-- A cut whose slices exist makes a token and no fault of its own. -/
theorem cut_of_slices (c : Context) (name : String) (p : Pattern) (span : Regex.Span)
    {text : List Char} {start stop : Nat} {before matched after : List Char}
    (hbefore : slice? text start span.start = some before)
    (hmatched : slice? text span.start span.stop = some matched)
    (hafter : slice? text span.stop stop = some after) :
    cut c name p text start span stop
      = (token c name p matched).bind fun t =>
          .ok ⟨rawFragment? before, t, rawFragment? after⟩ := by
  rw [cut, slice, slice, slice, hmatched, hbefore, hafter]
  rfl

end Highlighter.Tokenizer
