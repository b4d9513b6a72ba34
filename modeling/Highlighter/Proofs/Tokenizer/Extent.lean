import Highlighter.Proofs.Tokenizer.Row
import Mathlib.Order.Bounds.Defs

/-! # How far a greedy match extends

    A greedy pattern is found in the whole text, so its match may begin
    behind the fragment where the scan stands, and end within or between
    others.  Counted in a row of fragments that are the text, the match
    begins in the fragment that holds its first byte (`Holds`).  If that is
    a token the row stays and the scan goes on behind it.  If it is raw
    text, the token takes the place of the fragments from there up to the
    first place where the match can end (`CanEnd`): what is left of them on
    either side stays raw, and no other fragment changes or moves
    (`step_extent`).

    A match can end in front of a token, in front of raw text behind a
    greedy token, and at the end of the row.  In front of other raw text it
    cannot, so what it leaves of a token is joined with the text behind. -/

namespace Highlighter.Tokenizer

open Fragment (AllWhole Conserved texts lengths)
open Text (byteLength slice?)

-- ── Places in a row ──────────────────────────────────────────────────────

/-- The byte at which the fragment with an index begins. -/
def startOf (fs : List Fragment) (i : Nat) : Nat := lengths (fs.take i)

/-- The fragment with an index holds a byte. -/
def Holds (fs : List Fragment) (j byte : Nat) : Prop :=
  j < fs.length ∧ startOf fs j ≤ byte ∧ byte < startOf fs (j + 1)

/-- The places where a greedy match leaves what follows alone. -/
inductive Boundary (fs : List Fragment) : Nat → Prop where
  | last : Boundary fs fs.length
  | token {k : Nat} {f : Fragment} (hf : fs[k]? = some f) (htoken : f.isToken = true) :
      Boundary fs k
  | behindGreedy {k : Nat} {raw : String} {t : Fragment} (hraw : fs[k + 1]? = some (.raw raw))
      (ht : fs[k]? = some t) (hgreedy : t.isGreedy = true) : Boundary fs (k + 1)

/-- A match up to the byte `stop` can end in front of the fragment with an
    index. -/
def CanEnd (fs : List Fragment) (stop k : Nat) : Prop := stop ≤ startOf fs k ∧ Boundary fs k

theorem startOf_append (fs gs : List Fragment) (n : Nat) :
    startOf (fs ++ gs) (fs.length + n) = lengths fs + startOf gs n := by
  rw [startOf, List.take_length_add_append, Fragment.lengths_append, startOf]

/-- What stands in front, in reverse, ends where the fragments behind begin. -/
theorem startOf_row (before fs : List Fragment) :
    startOf (before.reverse ++ fs) before.length = lengths before := by
  rw [startOf, List.take_left' List.length_reverse, Fragment.lengths_reverse]

theorem startOf_passed (before passed fs : List Fragment) :
    startOf (before.reverse ++ (passed ++ fs)) (before.length + passed.length)
      = lengths before + lengths passed := by
  have hrow := startOf_row (passed.reverse ++ before) fs
  rw [List.reverse_append, List.reverse_reverse, List.append_assoc, List.length_append,
    List.length_reverse, Fragment.lengths_append, Fragment.lengths_reverse] at hrow
  rw [Nat.add_comm before.length, hrow, Nat.add_comm]

/-- Fragments begin one after the other. -/
theorem startOf_mono (fs : List Fragment) {m n : Nat} (h : m ≤ n) :
    startOf fs m ≤ startOf fs n := by
  obtain ⟨d, rfl⟩ := Nat.exists_eq_add_of_le h
  rw [startOf, startOf, List.take_add, Fragment.lengths_append]
  exact Nat.le_add_right _ _

/-- In front of a fragment there is a boundary when it is a token, or when
    the one before is a greedy token. -/
theorem boundary_row {before rest : List Fragment} {f : Fragment} :
    Boundary (before.reverse ++ f :: rest) before.length ↔
      f.isToken = true ∨ before.head?.any Fragment.isGreedy = true := by
  have hhere : (before.reverse ++ f :: rest)[before.length]? = some f := by
    rw [List.getElem?_append_right (by simp)]
    simp
  have hbefore : ∀ b bs, before = b :: bs →
      (before.reverse ++ f :: rest)[bs.length]? = some b := by
    rintro b bs rfl
    rw [List.getElem?_append_left (by simp), List.reverse_cons,
      List.getElem?_append_right (by simp)]
    simp
  constructor
  · intro h
    generalize hk : before.length = k at h
    cases h with
    | last => simp at hk
    | token hf htoken =>
        rw [← hk, hhere] at hf
        obtain rfl := Option.some.inj hf
        exact .inl htoken
    | behindGreedy _ ht hgreedy =>
        obtain ⟨b, bs, rfl⟩ := List.exists_cons_of_length_eq_add_one hk
        obtain rfl : bs.length = _ := Nat.succ.inj hk
        rw [hbefore b bs rfl] at ht
        obtain rfl := Option.some.inj ht
        exact .inr hgreedy
  · rintro (htoken | hgreedy)
    · exact .token hhere htoken
    · cases hf : f with
      | leaf label text => exact .token (hf ▸ hhere) rfl
      | node label inner => exact .token (hf ▸ hhere) rfl
      | raw raw =>
          cases hbs : before with
          | nil =>
              rw [hbs] at hgreedy
              exact nomatch hgreedy
          | cons b bs =>
              have hb := hbefore b bs hbs
              rw [hbs] at hhere hgreedy hb
              rw [hf] at hhere hb
              exact .behindGreedy hhere hb hgreedy

-- ── Where a greedy match lies ────────────────────────────────────────────

/-- What a match reaches goes up to the first place behind where it can
    end. -/
theorem reach_isLeast (stop : Nat) {before fs : List Fragment}
    (hstop : stop ≤ lengths before + lengths fs) :
    IsLeast {k | before.length ≤ k ∧ CanEnd (before.reverse ++ fs) stop k}
      (before.length
        + (reach stop (before.head?.any Fragment.isGreedy) (lengths before) fs).1.length) := by
  induction fs generalizing before with
  | nil =>
      refine ⟨⟨Nat.le_refl _, ?_, ?_⟩, fun k hk => hk.1⟩
      · rw [reach, List.length_nil, Nat.add_zero, startOf_row]
        exact hstop
      · have hlast : Boundary (before.reverse ++ []) (before.reverse ++ []).length := .last
        simpa [reach] using hlast
  | cons f rest ih =>
      have hstart := startOf_row before (f :: rest)
      rw [reach]
      by_cases hgoes : (lengths before < stop ||
          (!f.isToken && !before.head?.any Fragment.isGreedy)) = true
      · -- the match goes on over this fragment, for it cannot end in front of it
        rw [if_pos hgoes]
        have hnot : ¬ CanEnd (before.reverse ++ f :: rest) stop before.length := by
          rintro ⟨hle, hboundary⟩
          rw [hstart] at hle
          rw [boundary_row] at hboundary
          simp only [Bool.or_eq_true, decide_eq_true_eq, Bool.and_eq_true,
            Bool.not_eq_true'] at hgoes
          rcases hgoes with hlt | ⟨hraw, hplain⟩
          · omega
          · rw [hraw, hplain] at hboundary
            simp at hboundary
        have hstop' : stop ≤ lengths (f :: before) + lengths rest := by
          rw [Fragment.lengths_cons] at hstop ⊢
          omega
        have hnext := ih hstop'
        rw [List.reverse_cons, List.append_assoc, List.singleton_append, List.length_cons,
          List.head?_cons, Option.any_some, Fragment.lengths_cons, Nat.add_comm f.length] at hnext
        obtain ⟨⟨hge, hcan⟩, hleast⟩ := hnext
        rw [List.length_cons, ← Nat.add_assoc, Nat.add_right_comm]
        refine ⟨⟨by omega, hcan⟩, fun k hk => hleast ⟨?_, hk.2⟩⟩
        have hne : k ≠ before.length := by
          rintro rfl
          exact hnot hk.2
        have hle := hk.1
        omega
      · -- it can end here
        rw [if_neg hgoes]
        simp only [Bool.or_eq_true, decide_eq_true_eq, Bool.and_eq_true, Bool.not_eq_true',
          not_or, not_and] at hgoes
        refine ⟨⟨Nat.le_refl _, ?_, ?_⟩, fun k hk => hk.1⟩
        · rw [List.length_nil, Nat.add_zero, hstart]
          omega
        · rw [List.length_nil, Nat.add_zero, boundary_row]
          by_cases htoken : f.isToken = true
          · exact .inl htoken
          · exact .inr (by simpa using hgoes.2 (by simpa using htoken))

/-- What is passed by goes up to the fragment in which the match begins. -/
theorem lt_of_passBy {start pos : Nat} {fs others : List Fragment} {f : Fragment}
    (h : (passBy start pos fs).2 = f :: others) :
    start < pos + lengths (passBy start pos fs).1 + f.length := by
  induction fs generalizing pos with
  | nil => exact nomatch h
  | cons g rest ih =>
      rw [passBy] at h ⊢
      by_cases hends : pos + g.length ≤ start
      · rw [if_pos hends] at h ⊢
        have := ih h
        rw [Fragment.lengths_cons]
        omega
      · rw [if_neg hends] at h ⊢
        obtain rfl := (List.cons.inj h).1
        rw [Fragment.lengths_nil]
        omega

/-- A match in a row lies between the fragment that holds its first byte
    and the first place where it can end. -/
theorem place_extent {before fs passed covered beyond : List Fragment} {span : Regex.Span}
    (hp : place span (before.head?.any Fragment.isGreedy) (lengths before) fs
      = ⟨passed, covered, beyond⟩)
    (hstart : lengths before ≤ span.start) (hlt : span.start < span.stop)
    (hstop : span.stop ≤ lengths before + lengths fs) :
    lengths before + lengths passed ≤ span.start ∧
      span.stop ≤ lengths before + lengths passed + lengths covered ∧
      Holds (before.reverse ++ fs) (before.length + passed.length) span.start ∧
      IsLeast {k | CanEnd (before.reverse ++ fs) span.stop k}
        (before.length + passed.length + covered.length) := by
  have hall := place_append span (before.head?.any Fragment.isGreedy) (lengths before) fs
  have hbounds := place_bounds (before.head?.any Fragment.isGreedy) hstart hstop
  rw [hp] at hall hbounds
  dsimp only at hall hbounds
  obtain ⟨hle, hge⟩ := hbounds
  -- what is passed by and covered is what the match reaches
  have hpassBy : passBy span.start (lengths before)
      (reach span.stop (before.head?.any Fragment.isGreedy) (lengths before) fs).1
        = (passed, covered) :=
    Prod.ext (congrArg Placement.passed hp) (congrArg Placement.covered hp)
  have hreached := passBy_append span.start (lengths before)
    (reach span.stop (before.head?.any Fragment.isGreedy) (lengths before) fs).1
  rw [hpassBy] at hreached
  refine ⟨hle, hge, ?_, ?_⟩
  · cases covered with
    | nil =>
        rw [Fragment.lengths_nil] at hge
        omega
    | cons first others =>
        have hwithin := lt_of_passBy (congrArg Prod.snd hpassBy)
        rw [hpassBy] at hwithin
        have hnext := startOf_passed before (passed ++ [first]) (others ++ beyond)
        rw [List.append_assoc, List.singleton_append, List.length_append, List.length_singleton,
          ← Nat.add_assoc, Fragment.lengths_append, Fragment.lengths_cons, Fragment.lengths_nil,
          Nat.add_zero, ← Nat.add_assoc] at hnext
        rw [← hall]
        refine ⟨?_, ?_, ?_⟩
        · simp only [List.length_append, List.length_reverse, List.length_cons]
          omega
        · rw [startOf_passed]
          exact hle
        · exact hnext.symm ▸ hwithin
  · -- in front of the scan the match cannot end, for it begins behind
    have hleast := reach_isLeast span.stop hstop
    rw [← hreached, List.length_append, ← Nat.add_assoc] at hleast
    refine ⟨hleast.1.2, fun k hk => hleast.2 ⟨?_, hk⟩⟩
    rcases Nat.le_total before.length k with hge | hlow
    · exact hge
    · have hmono := startOf_mono (before.reverse ++ fs) hlow
      rw [startOf_row] at hmono
      have hend := hk.1
      omega

-- ── Steps ────────────────────────────────────────────────────────────────

/-- The step that a scan makes at the fragment with an index. -/
def Pass.stepAt (c : Context) (pass : Pass) (fs : List Fragment) (i : Nat) : Except Fault Step :=
  match fs.drop i with
  | [] => .ok (.done [])
  | f :: rest => pass.step c (fs.take i).reverse (startOf fs i) f rest

/-- Fragments in the place of those from `j` up to `k`. -/
def spliced (fs : List Fragment) (j k : Nat) (new : List Fragment) : List Fragment :=
  fs.take j ++ (new ++ fs.drop k)

/-- How a step that began at the fragment `i` goes on in a row with a new
    token.  If that has taken the place of several fragments, the entries
    in front of its own match again from it on. -/
def Pass.resume (pass : Pass) (fs : List Fragment) (i index : Nat) (several : Bool) :
    Except Fault Step := do
  let rest ← if several then pass.rematch (fs.take index).reverse (fs.drop index) (startOf fs index)
    else .ok (fs.drop index)
  .ok (pass.proceed ((fs.take index).drop i) rest)

/-- Fragments behind those that are replaced begin where they did, when
    what takes the place is as long. -/
theorem startOf_spliced {fs new : List Fragment} {j k : Nat} (hj : j ≤ fs.length)
    (hlength : startOf fs j + lengths new = startOf fs k) (n : Nat) :
    startOf (spliced fs j k new) (j + new.length + n) = startOf fs (k + n) := by
  have hindex : j + new.length + n = (fs.take j).length + (new.length + n) := by
    rw [List.length_take_of_le hj, Nat.add_assoc]
  rw [hindex, spliced, startOf_append, startOf_append, startOf, startOf, List.take_add,
    Fragment.lengths_append]
  rw [startOf, startOf] at hlength
  omega

/-- A fragment with those in front of it, in reverse, and those behind. -/
theorem exists_row {fs : List Fragment} {i : Nat} {f : Fragment} (h : fs[i]? = some f) :
    ∃ before rest : List Fragment, fs = before.reverse ++ f :: rest ∧ before.length = i := by
  obtain ⟨hi, hf⟩ := List.getElem?_eq_some_iff.mp h
  refine ⟨(fs.take i).reverse, fs.drop (i + 1), ?_, ?_⟩
  · rw [List.reverse_reverse, ← hf, List.getElem_cons_drop, List.take_append_drop]
  · rw [List.length_reverse, List.length_take_of_le (Nat.le_of_lt hi)]

/-- The fragments of a text are aligned at every place. -/
theorem aligned_row {text : String} {before fs : List Fragment}
    (h : Conserved text (before.reverse ++ fs)) :
    Aligned text.toList before fs (lengths before) := by
  obtain ⟨htext, hwhole⟩ := h
  rw [Fragment.allWhole_append, Fragment.allWhole_reverse] at hwhole
  refine ⟨?_, rfl, hwhole.1, hwhole.2⟩
  rw [← htext, Fragment.texts_append, String.toList_append]

section Row

variable (pass : Pass) (before : List Fragment)

theorem stepAt_row (c : Context) (f : Fragment) (rest : List Fragment) :
    pass.stepAt c (before.reverse ++ f :: rest) before.length
      = pass.step c before (lengths before) f rest := by
  have hdrop : (before.reverse ++ f :: rest).drop before.length = f :: rest :=
    List.drop_left' List.length_reverse
  have htake : (before.reverse ++ f :: rest).take before.length = before.reverse :=
    List.take_left' List.length_reverse
  rw [Pass.stepAt, hdrop, htake, List.reverse_reverse, startOf_row]

/-- A greedy match from raw text with more behind it. -/
theorem stepAt_placed {c : Context} (raw : String) {rest : List Fragment} {span : Regex.Span}
    (hrest : rest ≠ []) (hgreedy : pass.pattern.greedy = true)
    (hfind : find pass.pattern c.haystack (lengths before) = .ok (some span)) :
    pass.stepAt c (before.reverse ++ .raw raw :: rest) before.length
      = pass.stepPlaced c before (lengths before) span
          (place span (before.head?.any Fragment.isGreedy) (lengths before)
            (.raw raw :: rest)) := by
  have hmore : rest.isEmpty = false := List.isEmpty_eq_false_iff.mpr hrest
  rw [stepAt_row, Pass.step, hgreedy, hmore, Pass.stepAcross]
  show (find pass.pattern c.haystack (lengths before) >>= _) = _
  rw [hfind]
  rfl

/-- Going on in a row said of what is settled and of the rest. -/
theorem resume_row (settled rest : List Fragment) (several : Bool) :
    pass.resume (before.reverse ++ (settled ++ rest)) before.length
        (before.length + settled.length) several
      = ((if several then
            pass.rematch (settled.reverse ++ before) rest (lengths before + lengths settled)
          else .ok rest) >>= fun rest => .ok (pass.proceed settled rest)) := by
  have hrow : before.reverse ++ (settled ++ rest)
      = (settled.reverse ++ before).reverse ++ rest := by simp
  have hindex : before.length + settled.length = (settled.reverse ++ before).length := by
    rw [List.length_append, List.length_reverse, Nat.add_comm]
  have htake : (before.reverse ++ (settled ++ rest)).take (before.length + settled.length)
      = (settled.reverse ++ before).reverse := by
    rw [hrow, hindex]
    exact List.take_left' List.length_reverse
  have hdrop : (before.reverse ++ (settled ++ rest)).drop (before.length + settled.length)
      = rest := by
    rw [hrow, hindex]
    exact List.drop_left' List.length_reverse
  have hstart : startOf (before.reverse ++ (settled ++ rest)) (before.length + settled.length)
      = lengths before + lengths settled := by
    rw [hrow, hindex, startOf_row, Fragment.lengths_append, Fragment.lengths_reverse, Nat.add_comm]
  have hsettled : (settled.reverse ++ before).reverse.drop before.length = settled := by
    rw [List.reverse_append, List.reverse_reverse]
    exact List.drop_left' List.length_reverse
  rw [Pass.resume, htake, hdrop, hstart, hsettled, List.reverse_reverse]
  cases several <;> rfl

end Row

/-- A match that is cut between two characters leaves text on either side of
    it in the fragments that it lies in. -/
theorem Aligned.slices_around {text : List Char} {before passed covered beyond : List Fragment}
    {pos : Nat} {span : Regex.Span} {matched : List Char}
    (ha : Aligned text before (passed ++ (covered ++ beyond)) pos)
    (hle : pos + lengths passed ≤ span.start)
    (hge : span.stop ≤ pos + lengths passed + lengths covered)
    (hmatched : slice? text span.start span.stop = some matched) :
    ∃ front back, slice? text (pos + lengths passed) span.start = some front ∧
      slice? text span.stop (pos + lengths passed + lengths covered) = some back := by
  obtain ⟨a, b, hab, ha', hstop⟩ := Text.append_of_slice? ha.advance.slice?_eq
  obtain ⟨x, y, hxy, hx, hmiddle⟩ := Text.append_of_slice? hmatched
  obtain ⟨front, hfront⟩ := Text.exists_slice? hle
    (hab.trans (List.append_assoc _ _ _)) ha' (hxy.trans (List.append_assoc _ _ _)) hx
  obtain ⟨back, hback⟩ := Text.exists_slice? hge hxy (by rw [Text.byteLength_append, hmiddle])
    hab (by rw [Text.byteLength_append, hstop])
  exact ⟨front, back, hfront, hback⟩

/-- The fragments that a match is cut into are as long as those it was cut
    from. -/
theorem lengths_of_slices {c : Context} {name : String} {p : Pattern} {start stop : Nat}
    {span : Regex.Span} {front matched back : List Char} {t : Fragment}
    (hfront : slice? c.text start span.start = some front)
    (hmatched : slice? c.text span.start span.stop = some matched)
    (hback : slice? c.text span.stop stop = some back)
    (ht : token c name p matched = .ok t) :
    start + lengths (rawFragment? front ++ t :: rawFragment? back) = stop := by
  have hcut := cut_of_slices c name p span hfront hmatched hback
  rw [ht] at hcut
  exact lengths_of_cut hcut

section Placed

variable {c : Context} {pass : Pass} {before passed covered others beyond : List Fragment}
  {span : Regex.Span}

/-- What is in front of the place behind a fragment, from the scan on, and
    what is behind it. -/
theorem split_row (before passed others beyond : List Fragment) (first : Fragment) :
    ((before.reverse ++ (passed ++ (first :: others ++ beyond))).take
        (before.length + passed.length + 1)).drop before.length = passed ++ [first] ∧
      (before.reverse ++ (passed ++ (first :: others ++ beyond))).drop
        (before.length + passed.length + 1) = others ++ beyond := by
  have hrow : before.reverse ++ (passed ++ (first :: others ++ beyond))
      = (before.reverse ++ (passed ++ [first])) ++ (others ++ beyond) := by simp
  have hlength : (before.reverse ++ (passed ++ [first])).length
      = before.length + passed.length + 1 := by simp [Nat.add_assoc]
  rw [hrow, List.take_left' hlength, List.drop_left' hlength]
  exact ⟨List.drop_left' List.length_reverse, rfl⟩

theorem spliced_row (new : List Fragment) :
    spliced (before.reverse ++ (passed ++ (covered ++ beyond))) (before.length + passed.length)
        (before.length + passed.length + covered.length) new
      = before.reverse ++ (passed ++ (new ++ beyond)) := by
  have hj : before.length + passed.length = (before.reverse ++ passed).length := by simp
  have hk : before.length + passed.length + covered.length
      = (before.reverse ++ passed ++ covered).length := by simp [Nat.add_assoc]
  have htake : (before.reverse ++ passed ++ (covered ++ beyond)).take
      (before.length + passed.length) = before.reverse ++ passed := List.take_left' hj.symm
  have hdrop : (before.reverse ++ passed ++ covered ++ beyond).drop
      (before.length + passed.length + covered.length) = beyond := List.drop_left' hk.symm
  rw [spliced]
  simp only [← List.append_assoc] at htake hdrop ⊢
  rw [htake, hdrop]

/-- The first of the fragments that a match covers stands behind those that
    are passed by. -/
theorem getElem?_covered (first : Fragment) :
    (before.reverse ++ (passed ++ (first :: others ++ beyond)))[before.length + passed.length]?
      = some first := by
  have hread := getElem?_row (passed.reverse ++ before) first (others ++ beyond)
  rw [List.reverse_append, List.reverse_reverse, List.append_assoc, List.length_append,
    List.length_reverse, Nat.add_comm] at hread
  exact hread

/-- A match that begins in a token is passed by with it. -/
theorem stepPlaced_of_token {first : Fragment} (htoken : first.isToken = true) (pos : Nat) :
    pass.stepPlaced c before pos span ⟨passed, first :: others, beyond⟩
      = .ok (.more (passed ++ [first]) (others ++ beyond)) := by
  rw [Pass.stepPlaced]
  simp only [htoken, if_true]

/-- A match from within a character is not cut out. -/
theorem stepPlaced_splitCharacter (raw : String) (pos : Nat)
    (hnone : slice? c.text span.start span.stop = none) :
    pass.stepPlaced c before pos span ⟨passed, .raw raw :: others, beyond⟩
      = .error .splitCharacter := by
  rw [Pass.stepPlaced]
  show (cut _ _ _ c.text _ _ _ >>= _) = _
  rw [cut, slice, hnone]
  rfl

/-- A token takes the place of the fragments that a match covers. -/
theorem stepPlaced_resume {raw : String} {front matched back : List Char}
    (hfront : slice? c.text (lengths before + lengths passed) span.start = some front)
    (hmatched : slice? c.text span.start span.stop = some matched)
    (hback : slice? c.text span.stop
      (lengths before + lengths passed + lengths (.raw raw :: others)) = some back) :
    pass.stepPlaced c before (lengths before) span ⟨passed, .raw raw :: others, beyond⟩
      = (token c pass.name pass.pattern matched >>= fun t =>
        pass.resume
          (spliced (before.reverse ++ (passed ++ (.raw raw :: others ++ beyond)))
            (before.length + passed.length)
            (before.length + passed.length + (Fragment.raw raw :: others).length)
            (rawFragment? front ++ t :: rawFragment? back))
          before.length (before.length + passed.length + (rawFragment? front).length)
          (before.length + passed.length + (Fragment.raw raw :: others).length
            != before.length + passed.length + 1)) := by
  have hcut := cut_of_slices c pass.name pass.pattern span hfront hmatched hback
  rw [Pass.stepPlaced]
  show (cut c pass.name pass.pattern c.text _ span _ >>= _) = _
  rw [hcut]
  cases token c pass.name pass.pattern matched with
  | error e => rfl
  | ok t =>
      have hrow : passed ++ ((rawFragment? front ++ t :: rawFragment? back) ++ beyond)
          = passed ++ rawFragment? front ++ (t :: rawFragment? back ++ beyond) := by simp
      have hseveral : (before.length + passed.length + (Fragment.raw raw :: others).length
          != before.length + passed.length + 1) = !others.isEmpty := by
        cases others with
        | nil => simp
        | cons other others => simp
      rw [ok_bind, spliced_row, hrow, hseveral, Nat.add_assoc before.length, ← List.length_append,
        resume_row]
      cases others with
      | nil => rfl
      | cons other others => rfl

end Placed

/-- A greedy match from a raw fragment that is not the last, in a row that
    is the text.  Let `j` be the fragment that holds its first byte, and
    `k` the first place where it can end.  If `j` is a token the row stays
    and the scan goes on behind it.  If `j` is raw, the fragments from `j`
    up to `k` make way for the text in front of the match, the token and the
    text behind it, as far as they are not empty; what follows begins where
    it did.  Only a match from within a character cannot be cut out. -/
theorem step_extent {nested : GrammarId → String → Except Fault (List Fragment)} {text : String}
    {pass : Pass} {fs : List Fragment} {i : Nat} {raw : String} {span : Regex.Span}
    (hfs : Conserved text fs) (hraw : fs[i]? = some (.raw raw)) (hlast : i + 1 < fs.length)
    (hgreedy : pass.pattern.greedy = true)
    (hfind : find pass.pattern text.toList.toArray (startOf fs i) = .ok (some span)) :
    ∃ j k, Holds fs j span.start ∧ IsLeast {k | CanEnd fs span.stop k} k ∧
      (∀ f, fs[j]? = some f → f.isToken = true →
        pass.stepAt (.of nested text) fs i
          = .ok (.more ((fs.take (j + 1)).drop i) (fs.drop (j + 1)))) ∧
      ∀ r, fs[j]? = some (.raw r) →
        (slice? text.toList span.start span.stop = none →
          pass.stepAt (.of nested text) fs i = .error .splitCharacter) ∧
        ∀ matched, slice? text.toList span.start span.stop = some matched →
          ∃ front back, slice? text.toList (startOf fs j) span.start = some front ∧
            slice? text.toList span.stop (startOf fs k) = some back ∧
            pass.stepAt (.of nested text) fs i
              = (token (.of nested text) pass.name pass.pattern matched >>= fun t =>
                pass.resume
                  (spliced fs j k (rawFragment? front ++ t :: rawFragment? back)) i
                  (j + (rawFragment? front).length) (k != j + 1)) ∧
            ∀ t, token (.of nested text) pass.name pass.pattern matched = .ok t →
              ∀ n, startOf (spliced fs j k (rawFragment? front ++ t :: rawFragment? back))
                  (j + (rawFragment? front ++ t :: rawFragment? back).length + n)
                = startOf fs (k + n) := by
  obtain ⟨before, rest, rfl, rfl⟩ := exists_row hraw
  have haligned := aligned_row hfs
  rw [startOf_row] at hfind
  obtain ⟨hstart, hlt, hstop⟩ := Regex.bounds_of_find (find_eq_ok_iff.mp hfind)
  rw [List.toList_toArray, haligned.byteLength_eq] at hstop
  have hrest : rest ≠ [] := by
    rintro rfl
    simp at hlast
  have hstep := stepAt_placed pass before (c := .of nested text) raw hrest hgreedy hfind
  -- the row taken apart as the match lies in it
  obtain ⟨passed, covered, beyond, hp⟩ : ∃ passed covered beyond,
      place span (before.head?.any Fragment.isGreedy) (lengths before) (.raw raw :: rest)
        = ⟨passed, covered, beyond⟩ := ⟨_, _, _, rfl⟩
  obtain ⟨hle, hge, hholds, hleast⟩ := place_extent hp hstart hlt hstop
  have hall := place_append span (before.head?.any Fragment.isGreedy) (lengths before)
    (.raw raw :: rest)
  rw [hp] at hall hstep
  dsimp only at hall
  rw [← hall] at haligned hstep hholds hleast ⊢
  cases covered with
  | nil =>
      rw [Fragment.lengths_nil] at hge
      omega
  | cons first others =>
      have hfirst : (before.reverse ++ (passed ++ (first :: others ++ beyond)))[
          before.length + passed.length]? = some first := getElem?_covered first
      refine ⟨_, _, hholds, hleast, fun f hf htoken => ?_, fun r hr => ⟨fun hnone => ?_, ?_⟩⟩
      · obtain rfl := Option.some.inj (hfirst.symm.trans hf)
        obtain ⟨hsettled, hbehind⟩ := split_row before passed others beyond first
        rw [hstep, hsettled, hbehind]
        exact stepPlaced_of_token htoken _
      · obtain rfl := Option.some.inj (hfirst.symm.trans hr)
        rw [hstep]
        exact stepPlaced_splitCharacter r _ hnone
      · obtain rfl := Option.some.inj (hfirst.symm.trans hr)
        intro matched hmatched
        obtain ⟨front, back, hfront, hback⟩ := haligned.slices_around hle hge hmatched
        have hj := startOf_passed before passed (.raw r :: others ++ beyond)
        have hk := startOf_passed before (passed ++ .raw r :: others) beyond
        rw [List.append_assoc, List.length_append, ← Nat.add_assoc, Fragment.lengths_append,
          ← Nat.add_assoc] at hk
        refine ⟨front, back, hj ▸ hfront, hk ▸ hback, ?_, fun t ht n => ?_⟩
        · rw [hstep]
          exact stepPlaced_resume hfront hmatched hback
        · refine startOf_spliced (Nat.le_of_lt hholds.1) ?_ n
          rw [hj, hk]
          exact lengths_of_slices hfront hmatched hback ht

/-- A match that ends inside of a greedy token, with raw text in front and
    behind.  What it leaves of the token is not joined with that text. -/
theorem step_extent_intoGreedy :
    let pass : Pass :=
      ⟨"s", { regex := { source := "xy" }, greedy := true }, false, fun _ fs _ => .ok fs⟩
    let fs : List Fragment := [.raw "-x", .leaf ⟨"c", [], 2, true⟩ "yz", .raw "w"]
    (Conserved "-xyzw" fs ∧ fs[0]? = some (.raw "-x") ∧ 0 + 1 < fs.length ∧
      pass.pattern.greedy = true ∧
      find pass.pattern "-xyzw".toList.toArray (startOf fs 0) = .ok (some ⟨1, 3⟩)) ∧
      (Holds fs 0 1 ∧ IsLeast {k | CanEnd fs 3 k} 2) ∧
      pass.stepAt (.of (fun _ _ => .ok []) "-xyzw") fs 0
        = .ok (.more [.raw "-", .leaf ⟨"s", [], 2, true⟩ "xy"] [.raw "z", .raw "w"]) := by
  intro pass fs
  have hfs : Conserved "-xyzw" fs := by
    refine ⟨by rfl, ?_⟩
    simp only [fs, Fragment.allWhole_cons, Fragment.Whole]
    exact ⟨by decide, ⟨by decide, by decide⟩, by decide, Fragment.allWhole_nil⟩
  have hfind : find pass.pattern "-xyzw".toList.toArray (startOf fs 0) = .ok (some ⟨1, 3⟩) := by
    rfl
  have hend : CanEnd fs 3 2 := ⟨by decide, .behindGreedy rfl rfl rfl⟩
  obtain ⟨j, k, hj, hk, -, hraw⟩ := @step_extent (fun _ _ => .ok []) "-xyzw" pass fs 0 "-x" ⟨1, 3⟩
    hfs rfl (by decide) rfl hfind
  obtain rfl : j = 0 := Nat.eq_zero_of_not_pos fun hpos => by
    have hmono : startOf fs 1 ≤ startOf fs j := startOf_mono fs hpos
    exact absurd (Nat.le_trans hmono hj.2.1) (by decide)
  obtain rfl : k = 2 := Nat.le_antisymm (hk.2 hend) (Nat.le_of_not_lt fun hlt => by
    have hmono : startOf fs k ≤ startOf fs 1 := startOf_mono fs (Nat.le_of_lt_succ hlt)
    exact absurd (Nat.le_trans hk.1.1 hmono) (by decide))
  obtain ⟨-, hcut⟩ := hraw "-x" rfl
  obtain ⟨front, back, hfront, hback, hstep, -⟩ := hcut ['x', 'y'] (by rfl)
  obtain rfl : ['-'] = front := Option.some.inj hfront
  obtain rfl : ['z'] = back := Option.some.inj hback
  exact ⟨⟨hfs, rfl, by decide, rfl, hfind⟩, ⟨hj, hk⟩, hstep.trans (by rfl)⟩

end Highlighter.Tokenizer
