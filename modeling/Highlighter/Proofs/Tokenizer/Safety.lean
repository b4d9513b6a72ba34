import Highlighter.Proofs.Grammar.Reachability
import Highlighter.Proofs.Tokenizer.Row

/-! # No access fails

    Tokenizing by indices is what tokenizing is, without any trap.  Each
    function does in a row of fragments what its counterpart does on those
    in front of a place and those behind: a step (`step_mirrors`), so by
    induction a scan, applying entries, and tokenizing to any depth
    (`tokenizeWithin_mirrors`).

    It takes an arena in which every reference leads to a grammar, and
    patterns whose first group is a prefix where they strip it; then no
    cut is inside of a character either, and nothing stops a run but a
    regex that cannot be read or tokens nested too deep
    (`tokenizeWithin_safe`). -/

namespace Highlighter.Tokenizer

open Fragment (Conserved texts lengths)
open Text (byteLength slice?)
open Indexed (Trap Place lift fragmentAt minus splice rawBetween)

-- ── Steps ────────────────────────────────────────────────────────────────

/-- The same step in a row with fragments in front of `pos`. -/
inductive Step.Mirrors (before : List Fragment) (pos : Nat) : Step → Indexed.Step → Prop where
  | done (fs : List Fragment) : Mirrors before pos (.done fs) (.done (before.reverse ++ fs))
  | more (settled rest : List Fragment) : Mirrors before pos (.more settled rest)
      (.more (row (settled.reverse ++ before) rest (pos + lengths settled)))

/-- Going on behind a fragment. -/
theorem Step.Mirrors.behind (before settled rest : List Fragment) (f : Fragment) (pos : Nat) :
    Mirrors before pos (.more (settled ++ [f]) rest)
      (.more ⟨(settled.reverse ++ before).reverse ++ f :: rest,
        (settled.reverse ++ before).length + 1, pos + lengths settled + f.length⟩) := by
  have hmore : Mirrors before pos _ _ := .more (settled ++ [f]) rest
  have hrow : row ((settled ++ [f]).reverse ++ before) rest (pos + lengths (settled ++ [f]))
      = ⟨(settled.reverse ++ before).reverse ++ f :: rest,
        (settled.reverse ++ before).length + 1, pos + lengths settled + f.length⟩ := by
    simp [row, Nat.add_assoc]
  rw [hrow] at hmore
  exact hmore

/-- Matching again does the same in a row. -/
def Rematch.Mirrors (text : List Char) (again : Rematch)
    (again' : Place → Except Trap (List Fragment)) : Prop :=
  ∀ before fs pos, Aligned text before fs pos →
    Agrees (fun gs all => all = before.reverse ++ gs) (again before fs pos)
      (again' (row before fs pos))

/-- A pattern whose matches are safe to cut: it strips prefixes only, and
    the texts of its tokens are tokenized alike. -/
structure Safe (c : Context) (nested' : GrammarId → String → Except Trap (List Fragment))
    (p : Pattern) : Prop where
  prefixed : p.lookbehind = true → ∀ part, part <:+: c.text → Regex.PrefixedIn p.regex part.toArray
  inner : ∀ id, p.inside = some id → ∀ part, part <:+: c.text →
    Agrees Eq (c.nested id (String.ofList part)) (nested' id (String.ofList part))

section Scan

variable {c : Context} {pass : Pass} {nested' : GrammarId → String → Except Trap (List Fragment)}
  {again' : Place → Except Trap (List Fragment)}

variable (c nested') in
/-- The context with another way to tokenize inside. -/
def Context.indexed : Indexed.Context := ⟨c.text, c.haystack, nested'⟩

variable (pass again') in
/-- The pass with another way to match again. -/
def Pass.indexed : Indexed.Pass := ⟨pass.name, pass.pattern, pass.once, again'⟩

theorem token_agrees {name : String} {p : Pattern} (hp : Safe c nested' p) {matched : List Char}
    (hm : matched <:+: c.text) :
    Agrees Eq (token c name p matched) (Indexed.token (c.indexed nested') name p matched) := by
  rw [token, Indexed.token]
  cases hi : p.inside with
  | none => exact .ok rfl
  | some id =>
      refine (hp.inner id hi matched hm).bind fun inner inner' _ heq => ?_
      rw [heq]
      exact .ok rfl

/-- Going on behind a token needs a fragment there. -/
theorem proceed_mirrors {before settled rest : List Fragment} {pos : Nat} (hrest : rest ≠ []) :
    Agrees (Step.Mirrors before pos) (.ok (pass.proceed settled rest))
      (if pass.once then .ok (.done ((settled.reverse ++ before).reverse ++ rest))
      else do
        let f ← fragmentAt ((settled.reverse ++ before).reverse ++ rest)
          (settled.reverse ++ before).length
        .ok (.more ⟨(settled.reverse ++ before).reverse ++ rest,
          (settled.reverse ++ before).length + 1, pos + lengths settled + f.length⟩)) := by
  unfold Pass.proceed
  by_cases honce : pass.once
  · rw [if_pos honce, if_pos honce, List.reverse_append, List.reverse_reverse, List.append_assoc]
    exact .ok (.done _)
  · rw [if_neg honce, if_neg honce]
    cases rest with
    | nil => exact absurd rfl hrest
    | cons t rest =>
        rw [fragmentAt_row]
        exact .ok (.behind before settled rest t pos)

/-- Putting a token in the place of fragments does what cutting it out of
    their text does. -/
theorem replace_mirrors (span : Regex.Span) (hc : ∀ id text, Sound (Conserved text) (c.nested id text))
    (hr : pass.rematch.Keeping c.text) (hr' : pass.rematch.Mirrors c.text again')
    (hp : Safe c nested' pass.pattern) {before passed covered beyond : List Fragment} {pos : Nat}
    {front matched back : List Char}
    (ha : Aligned c.text before (passed ++ (covered ++ beyond)) pos)
    (hspan : span.start < span.stop)
    (hfront : slice? c.text (pos + lengths passed) span.start = some front)
    (hmatched : slice? c.text span.start span.stop = some matched)
    (hback : slice? c.text span.stop (pos + lengths passed + lengths covered) = some back) :
    Agrees (Step.Mirrors before pos)
      (do
        let k ← cut c pass.name pass.pattern c.text (pos + lengths passed) span
          (pos + lengths passed + lengths covered)
        let settled := passed ++ k.before
        let rest := k.token :: k.after ++ beyond
        let rest ← if covered.length = 1 then .ok rest
          else pass.rematch (settled.reverse ++ before) rest (pos + lengths settled)
        .ok (pass.proceed settled rest))
      ((pass.indexed again').replace (c.indexed nested')
        (row (passed.reverse ++ before) (covered ++ beyond) (pos + lengths passed)) span
        (pos + lengths passed + lengths covered) covered.length) := by
  have hcut := cut_of_slices c pass.name pass.pattern span hfront hmatched hback
  have hslice : lift (slice c.text span.start span.stop) = .ok matched := by
    rw [slice, hmatched]
    rfl
  have hlength : pos + lengths passed + lengths (rawFragment? front) = span.start := by
    obtain ⟨x, -, -, hx, hstart⟩ := Text.append_of_slice? hfront
    rw [lengths_rawFragment?]
    omega
  rw [hcut, Indexed.Pass.replace]
  simp only [Context.indexed, Pass.indexed, row, hslice, rawBetween_of_slice? hfront,
    rawBetween_of_slice? hback, ok_bind]
  show Agrees _ (((token c pass.name pass.pattern matched) >>= fun t => _) >>= _) _
  rw [bind_assoc]
  refine (token_agrees hp (Text.infix_of_slice? hmatched)).bind fun t _ ht heq => ?_
  subst heq
  -- what the row and the place in it are after the token has been put in
  generalize hsettled : passed ++ rawFragment? front = settled
  have hall : splice ((passed.reverse ++ before).reverse ++ (covered ++ beyond))
      (passed.reverse ++ before).length covered.length (rawFragment? front ++ t :: rawFragment? back)
      = .ok ((settled.reverse ++ before).reverse ++ (t :: rawFragment? back ++ beyond)) := by
    rw [splice_row, ← hsettled]
    simp
  have hindex : (passed.reverse ++ before).length + (rawFragment? front).length
      = (settled.reverse ++ before).length := by
    rw [← hsettled]
    simp
    omega
  have hpos : max (pos + lengths passed) span.start = pos + lengths settled := by
    rw [← hsettled, Fragment.lengths_append]
    omega
  rw [hall, hindex, hpos]
  simp only [ok_bind, hsettled]
  by_cases hone : covered.length = 1
  · rw [if_pos hone, if_pos hone]
    exact proceed_mirrors (by simp)
  · rw [if_neg hone, if_neg hone]
    have hkept := (cut_sound hc ha.advance.slice?_eq hspan).of_ok (hcut.trans (by rw [ht]; rfl))
    rw [String.ofList_toList] at hkept
    have hagain := (ha.keeps (keeps_cut ha.whole hkept)).advance
    simp only [hsettled] at hagain
    refine (hr' _ _ _ hagain).bind fun rest' all hrest' heq => ?_
    subst heq
    -- matching again keeps text that is not empty, so a fragment is there
    have hkeeps := (hr _ _ _ hagain).of_ok hrest'
    exact proceed_mirrors (hkeeps.ne_nil hagain.whole (List.cons_ne_nil _ _))

theorem stepAlone_mirrors (hc : ∀ id text, Sound (Conserved text) (c.nested id text))
    (hr : pass.rematch.Keeping c.text) (hr' : pass.rematch.Mirrors c.text again')
    (hp : Safe c nested' pass.pattern) {before rest : List Fragment} {pos : Nat} {raw : String}
    (ha : Aligned c.text before (.raw raw :: rest) pos) :
    Agrees (Step.Mirrors before pos) (pass.stepAlone c raw rest)
      ((pass.indexed again').stepAlone (c.indexed nested') (row before (.raw raw :: rest) pos)
        (.raw raw)) := by
  have hslice : slice? c.text pos (pos + (Fragment.raw raw).length) = some raw.toList := by
    have h := (show Aligned c.text before ([.raw raw] ++ rest) pos from ha).slice?_eq
    rw [Fragment.texts_cons, Fragment.texts_nil, String.append_empty, Fragment.text] at h
    exact h
  have hprefixed : pass.pattern.lookbehind = true →
      Regex.PrefixedIn pass.pattern.regex ([] ++ raw.toList).toArray :=
    fun hl => hp.prefixed hl raw.toList (Text.infix_of_slice? hslice)
  have hpart : lift (slice c.text pos (pos + (Fragment.raw raw).length)) = .ok raw.toList := by
    rw [slice, hslice]
    rfl
  rw [Pass.stepAlone, Indexed.Pass.stepAlone]
  show Agrees _ _ (lift (slice c.text pos (pos + (Fragment.raw raw).length)) >>= _)
  rw [hpart, ok_bind]
  show Agrees _ _ (Indexed.find pass.pattern ([] ++ raw.toList).toArray (byteLength []) >>= _)
  rw [find_eq hprefixed]
  refine (Agrees.of_lift _).bind fun found _ hfind heq => ?_
  subst heq
  cases found with
  | none =>
      show Agrees _ (.ok (if pass.once then _ else _)) (.ok (if pass.once then _ else _))
      by_cases honce : pass.once
      · rw [if_pos honce, if_pos honce]
        exact .ok (.done _)
      · rw [if_neg honce, if_neg honce]
        have hmore : Step.Mirrors before pos _ _ := .more [.raw raw] rest
        rw [row, List.reverse_append, List.append_assoc] at hmore
        exact .ok hmore
  | some span =>
      have hfound := ha.found_alone hfind
      obtain ⟨front, matched, back, hfront, hmatched, hback⟩ := hfound.slices hprefixed
      have hcut := cut_of_slices c pass.name pass.pattern span hfront hmatched hback
      obtain ⟨rear, hrear⟩ := hfound.piece
      have hsize := ha.pos_eq_byteLength
      have hfront' := slice?_of_piece (texts before.reverse).toList rear hfront
      have hmatched' := slice?_of_piece (texts before.reverse).toList rear hmatched
      have hback' := slice?_of_piece (texts before.reverse).toList rear hback
      rw [← hrear, ← hsize] at hfront' hmatched' hback'
      have hcut' := cut_of_slices c pass.name pass.pattern ⟨pos + span.start, pos + span.stop⟩
        hfront' hmatched' hback'
      have hall : Aligned c.text before ([] ++ ([.raw raw] ++ rest)) pos := ha
      have hmirrors := replace_mirrors ⟨pos + span.start, pos + span.stop⟩ hc hr hr' hp hall
        (Nat.add_lt_add_left hfound.lt pos) hfront' hmatched' hback'
      show Agrees _ (cut c pass.name pass.pattern raw.toList 0 span raw.utf8ByteSize >>= _) _
      rw [hcut, ← hcut']
      exact hmirrors

theorem stepPlaced_mirrors (hc : ∀ id text, Sound (Conserved text) (c.nested id text))
    (hr : pass.rematch.Keeping c.text) (hr' : pass.rematch.Mirrors c.text again')
    (hp : Safe c nested' pass.pattern) {before passed covered beyond : List Fragment} {pos : Nat}
    {span : Regex.Span} (ha : Aligned c.text before (passed ++ (covered ++ beyond)) pos)
    (hf : Found c.text pass.pattern [] c.text (pos + lengths passed)
      (pos + lengths passed + lengths covered) span) :
    Agrees (Step.Mirrors before pos)
      (pass.stepPlaced c before pos span ⟨passed, covered, beyond⟩)
      ((pass.indexed again').stepOver (c.indexed nested')
        (before.reverse ++ (passed ++ (covered ++ beyond))) span
        ⟨before.length + passed.length, pos + lengths passed,
          before.length + passed.length + covered.length,
          pos + lengths passed + lengths covered⟩) := by
  -- the row and the place in it behind what the match passes by
  have hrow : before.reverse ++ (passed ++ (covered ++ beyond))
      = (passed.reverse ++ before).reverse ++ (covered ++ beyond) := by simp
  have hindex : before.length + passed.length = (passed.reverse ++ before).length := by
    simp [Nat.add_comm]
  rw [Pass.stepPlaced, Indexed.Pass.stepOver, hrow, hindex]
  cases covered with
  | nil =>
      exact absurd hf.start_lt_stop (Nat.lt_irrefl _)
  | cons first others =>
      have hread := getElem?_row (passed.reverse ++ before) first (others ++ beyond)
      rw [← List.cons_append] at hread
      have hmore := Step.Mirrors.behind before passed (others ++ beyond) first pos
      simp only [hread]
      cases first with
      | leaf label text => exact .ok hmore
      | node label inner => exact .ok hmore
      | raw raw =>
          rw [minus_of_le (Nat.le_add_right _ _), Nat.add_sub_cancel_left, ok_bind]
          have hprefixed : pass.pattern.lookbehind = true →
              Regex.PrefixedIn pass.pattern.regex c.text.toArray :=
            fun hl => hp.prefixed hl c.text List.infix_rfl
          obtain ⟨front, matched, back, hfront, hmatched, hback⟩ := hf.slices hprefixed
          have hmirrors := replace_mirrors span hc hr hr' hp ha hf.lt hfront hmatched hback
          cases others with
          | nil => exact hmirrors
          | cons other others => exact hmirrors

theorem stepAcross_mirrors (hc : ∀ id text, Sound (Conserved text) (c.nested id text))
    (hh : c.haystack = c.text.toArray) (hr : pass.rematch.Keeping c.text)
    (hr' : pass.rematch.Mirrors c.text again') (hp : Safe c nested' pass.pattern)
    {before rest : List Fragment} {pos : Nat} {raw : String}
    (ha : Aligned c.text before (.raw raw :: rest) pos) :
    Agrees (Step.Mirrors before pos) (pass.stepAcross c before pos raw rest)
      ((pass.indexed again').stepAcross (c.indexed nested') (row before (.raw raw :: rest) pos)) := by
  have hprefixed : pass.pattern.lookbehind = true →
      Regex.PrefixedIn pass.pattern.regex c.text.toArray :=
    fun hl => hp.prefixed hl c.text List.infix_rfl
  have hfind : Indexed.find pass.pattern c.haystack pos = lift (find pass.pattern c.haystack pos) := by
    rw [← ha.text_eq] at hprefixed
    rw [hh, ← ha.text_eq, ha.pos_eq_byteLength]
    exact find_eq hprefixed
  rw [Pass.stepAcross, Indexed.Pass.stepAcross]
  show Agrees _ _ (Indexed.find pass.pattern c.haystack pos >>= _)
  rw [hfind]
  refine (Agrees.of_lift _).bind fun found _ hfound heq => ?_
  subst heq
  cases found with
  | none => exact .ok (.done _)
  | some span =>
      rw [hh] at hfound
      have hmatch := ha.found_across (before.head?.any Fragment.isGreedy) hfound
      have hcount : minus (before.reverse ++ .raw raw :: rest).length before.length
          = .ok (Fragment.raw raw :: rest).length := by
        rw [List.length_append, List.length_reverse, minus_of_le (Nat.le_add_right _ _),
          Nat.add_sub_cancel_left]
      have hextend := extend_row before pos
        (Eq.refl (place span (before.head?.any Fragment.isGreedy) pos (.raw raw :: rest)))
      have hfragments := place_append span (before.head?.any Fragment.isGreedy) pos
        (.raw raw :: rest)
      show Agrees _ (pass.stepPlaced c before pos span _)
        (minus (before.reverse ++ .raw raw :: rest).length before.length >>= fun count =>
          Indexed.extend (before.reverse ++ .raw raw :: rest) span count
            ⟨before.length, pos, before.length, pos⟩ >>= _)
      rw [hcount, ok_bind, hextend, ok_bind]
      rw [← hfragments] at ha
      have hmirrors := stepPlaced_mirrors hc hr hr' hp ha hmatch
      rw [hfragments] at hmirrors
      exact hmirrors

/-- A step at a place does in the row what it does on the two parts. -/
theorem step_mirrors (hc : ∀ id text, Sound (Conserved text) (c.nested id text))
    (hh : c.haystack = c.text.toArray) (hr : pass.rematch.Keeping c.text)
    (hr' : pass.rematch.Mirrors c.text again') (hp : Safe c nested' pass.pattern)
    {before rest : List Fragment} {f : Fragment} {pos : Nat}
    (ha : Aligned c.text before (f :: rest) pos) :
    Agrees (Step.Mirrors before pos) (pass.step c before pos f rest)
      ((pass.indexed again').step (c.indexed nested') (row before (f :: rest) pos)) := by
  rw [Indexed.Pass.step]
  show Agrees _ _ (fragmentAt (before.reverse ++ f :: rest) before.length >>= _)
  rw [fragmentAt_row, ok_bind]
  have hmore := Step.Mirrors.behind before [] rest f pos
  cases f with
  | leaf label text => exact .ok hmore
  | node label inner => exact .ok hmore
  | raw raw =>
      have hlast : minus (row before (.raw raw :: rest) pos).fragments.length 1
          = .ok (before.length + rest.length) := by
        rw [row, List.length_append, List.length_reverse, List.length_cons,
          minus_of_le (by omega)]
        congr 1
      show Agrees _ _ (minus _ 1 >>= _)
      rw [hlast, ok_bind, Pass.step]
      have hbehind : ((row before (.raw raw :: rest) pos).index != before.length + rest.length)
          = !rest.isEmpty := by
        cases rest <;> simp [row]
      rw [hbehind]
      show Agrees _ _ (if (pass.pattern.greedy && !rest.isEmpty) = true then _ else _)
      split
      · exact stepAcross_mirrors hc hh hr hr' hp ha
      · exact stepAlone_mirrors hc hr hr' hp ha

/-- A scan does in the row what it does on the two parts. -/
theorem scan_mirrors (hc : ∀ id text, Sound (Conserved text) (c.nested id text))
    (hh : c.haystack = c.text.toArray) (hr : pass.rematch.Keeping c.text)
    (hr' : pass.rematch.Mirrors c.text again') (hp : Safe c nested' pass.pattern) {fuel : Nat} :
    ∀ {before fs : List Fragment} {pos : Nat}, Aligned c.text before fs pos →
      Agrees (fun gs all => all = before.reverse ++ gs) (pass.scan c fuel before fs pos)
        ((pass.indexed again').scan (c.indexed nested') fuel (row before fs pos)) := by
  have hin : ∀ {before rest : List Fragment} {f : Fragment} {pos : Nat},
      (row before (f :: rest) pos).index < (row before (f :: rest) pos).fragments.length := by
    intro before rest f pos
    simp [row]
  have hout : ∀ {before : List Fragment} {pos : Nat},
      ¬ (row before [] pos).index < (row before [] pos).fragments.length := by
    intro before pos
    simp [row]
  induction fuel with
  | zero =>
      intro before fs pos _
      rw [Indexed.Pass.scan]
      cases fs with
      | nil =>
          rw [if_neg hout]
          exact .ok rfl
      | cons f rest =>
          rw [if_pos hin]
          exact .fault .endless
  | succ fuel ih =>
      intro before fs pos ha
      rw [Indexed.Pass.scan]
      cases fs with
      | nil =>
          rw [if_neg hout]
          exact .ok rfl
      | cons f rest =>
          have hfew := ha.length_le
          rw [if_pos hin, Pass.scan]
          have hcount : (row before (f :: rest) pos).fragments.length
              = before.length + (rest.length + 1) := by
            simp [row]
          rw [hcount]
          show Agrees _ (if byteLength c.text < _ then _ else _) (if byteLength c.text < _ then _ else _)
          rw [List.length_cons] at hfew
          rw [if_neg (by omega), if_neg (by omega)]
          refine (step_mirrors hc hh hr hr' hp ha).bind fun step step' hstep hmirrors => ?_
          have hkept := (step_sound hc hr ha).of_ok hstep
          cases hmirrors with
          | done gs => exact .ok rfl
          | more settled rest' =>
              refine (ih (ha.keeps hkept).advance).map fun gs all heq => ?_
              rw [heq, List.reverse_append, List.reverse_reverse, List.append_assoc]

end Scan

-- ── Entries and grammars ─────────────────────────────────────────────────

/-- Applying entries does in the row what it does on the two parts. -/
theorem applyEntries_mirrors {c : Context}
    {nested' : GrammarId → String → Except Trap (List Fragment)}
    (hc : ∀ id text, Sound (Conserved text) (c.nested id text)) (hh : c.haystack = c.text.toArray)
    {es : List Entry} (hes : ∀ e ∈ es, ∀ p ∈ e.patterns, Safe c nested' p) :
    ∀ {once : Bool} {before fs : List Fragment} {pos : Nat}, Aligned c.text before fs pos →
      Agrees (fun gs all => all = before.reverse ++ gs) (applyEntries c es once before fs pos)
        (Indexed.applyEntries (c.indexed nested') es once (row before fs pos)) := by
  induction es with
  | nil => intro once before fs pos _; exact .ok rfl
  | cons e earlier ih =>
      intro once before fs pos ha
      have hearlier : ∀ e ∈ earlier, ∀ p ∈ e.patterns, Safe c nested' p :=
        fun e he => hes e (List.mem_cons_of_mem _ he)
      have hkeep : Rematch.Keeping c.text
          fun before fs pos => applyEntries c earlier true before fs pos :=
        fun before fs pos ha => applyEntries_sound hc ha
      have hagain : Rematch.Mirrors c.text
          (fun before fs pos => applyEntries c earlier true before fs pos)
          (Indexed.applyEntries (c.indexed nested') earlier true) :=
        fun before fs pos ha => ih hearlier ha
      rw [applyEntries, Indexed.applyEntries]
      refine (ih hearlier ha).bind fun gs all hgs heq => ?_
      have hkept := (applyEntries_sound hc ha).of_ok hgs
      refine Agrees.foldlM (P := Keeps fs) (fun hs all heq hhs p hp => ⟨?_, ?_⟩) heq hkept
      · rw [heq]
        exact scan_mirrors hc hh hkeep hagain (hes e List.mem_cons_self p hp) (ha.keeps hhs)
      · refine Sound.mono (scan_sound hc hkeep (ha.keeps hhs)) fun is his => ?_
        exact ⟨his.1.trans hhs.1, his.2⟩

/-- Tokenizing by indices is tokenizing, if it is for the texts of tokens. -/
theorem tokenizeBy_mirrors {gs : List Grammar}
    {nested : GrammarId → String → Except Fault (List Fragment)}
    {nested' : GrammarId → String → Except Trap (List Fragment)} {id : GrammarId} {text : String}
    (hn : ∀ id text, Sound (Conserved text) (nested id text))
    (hsafe : ∀ es, entries gs id = .ok es → ∀ e ∈ es, ∀ p ∈ e.patterns,
      Safe (.of nested text) nested' p) :
    Agrees Eq (tokenizeBy gs nested id text) (Indexed.tokenizeBy gs nested' id text) := by
  rw [tokenizeBy, Indexed.tokenizeBy]
  by_cases hempty : text = ""
  · subst hempty
    exact .ok rfl
  · rw [if_neg (by simpa using hempty), if_neg (by simpa using hempty)]
    cases hes : entries gs id with
    | error e => exact .fault _
    | ok es =>
        refine Agrees.mono (applyEntries_mirrors (c := .of nested text) hn rfl (fun e he => ?_)
          (aligned_raw hempty)) fun fs all heq => heq.symm
        exact hsafe es hes e (List.mem_reverse.mp he)

-- ── Runs without traps ───────────────────────────────────────────────────

/-- In a text and all of its parts, the patterns that grammars match with
    strip prefixes only. -/
def StripsPrefixes (gs : List Grammar) (text : List Char) : Prop :=
  ∀ a p, MatchesWith gs a p → p.lookbehind = true → ∀ part, part <:+: text →
    Regex.PrefixedIn p.regex part.toArray

theorem StripsPrefixes.part {gs : List Grammar} {text part : List Char} (h : StripsPrefixes gs text)
    (hpart : part <:+: text) : StripsPrefixes gs part :=
  fun a p hp hl part' hpart' => h a p hp hl part' (hpart'.trans hpart)

/-- In a closed arena tokenizing by indices is tokenizing. -/
theorem tokenizeWithin_mirrors {gs : List Grammar} (hclosed : Closed gs) (depth : Nat) :
    ∀ {id : GrammarId} {text : String}, id < gs.length → StripsPrefixes gs text.toList →
      Agrees Eq (tokenizeWithin gs depth id text) (Indexed.tokenizeWithin gs depth id text) := by
  induction depth with
  | zero => intro id text _ _; exact .fault .endless
  | succ depth ih =>
      intro id text hid hstrips
      obtain ⟨es, hes, hinside⟩ := hclosed.entries hid
      refine tokenizeBy_mirrors (tokenizeWithin_sound gs depth) fun es' hes' e he p hp => ?_
      obtain rfl : es = es' := Except.ok.inj (hes.symm.trans hes')
      constructor
      case prefixed => exact fun hl => hstrips id p ⟨es, hes, e, he, hp⟩ hl
      case inner =>
        intro a ha part hpart
        refine ih (hinside e he p hp a ha) ?_
        rw [String.toList_ofList]
        exact hstrips.part hpart

/-- What stops a run though no access has failed: a regex that cannot be
    read, a match that was given up, or tokens nested too deep. -/
def Fault.Regular (e : Fault) : Prop :=
  (∃ r s, e = .brokenRegex r s) ∨ (∃ r, e = .gaveUp r) ∨ e = .endless

/-- What tokens of a pattern have in common, if it is true of their labels
    and kept by putting tokens into one another. -/
def Labelled (gs : List Grammar) (T : Fragment → Prop) : Prop :=
  ∀ id es, entries gs id = .ok es → ∀ e ∈ es, ∀ p ∈ e.patterns, ∀ length,
    (∀ text, T (.leaf ⟨e.name, p.aliases, length, p.greedy⟩ text)) ∧
      ∀ inner, TokensAt (fun _ => T) 0 inner → T (.node ⟨e.name, p.aliases, length, p.greedy⟩ inner)

/-- In a closed arena all cuts are between characters, and every grammar
    inside of a token exists.  So a run is only stopped by a regex that
    cannot be read, by a match in some part of the text that is given up,
    or by tokens nested too deep. -/
theorem tokenizeWithin_ends {gs : List Grammar} (hclosed : Closed gs) {T : Fragment → Prop}
    (hT : Labelled gs T) {E : Fault → Prop} (hendless : E .endless)
    (hbroken : ∀ id p, MatchesWith gs id p → ∀ e, p.regex.program = .error e →
      E (.brokenRegex p.regex e)) (depth : Nat) :
    ∀ {id : GrammarId} {text : String}, id < gs.length → StripsPrefixes gs text.toList →
      (∀ id p, MatchesWith gs id p → ∀ part, part <:+: text.toList →
        p.regex.GivesUpIn part.toArray → E (.gaveUp p.regex)) →
      Ends (TokensAt (fun _ => T) 0) E (tokenizeWithin gs depth id text) := by
  induction depth with
  | zero =>
      intro id text _ _ _
      exact hendless
  | succ depth ih =>
      intro id text hid hstrips hgaveUp
      obtain ⟨es, hes, hinside⟩ := hclosed.entries hid
      refine tokenizeBy_ends (tokenizeWithin_sound gs depth) (fun e he => ?_)
        fun es' hes' e he p hp => ⟨hbroken id p ⟨es', hes', e, he, hp⟩,
          hgaveUp id p ⟨es', hes', e, he, hp⟩, ?_⟩
      · exact nomatch hes.symm.trans he
      · obtain rfl : es = es' := Except.ok.inj (hes.symm.trans hes')
        intro front hay start stop span hf
        obtain ⟨back, hback⟩ := hf.piece
        have hpart : hay <:+: text.toList := ⟨front, back, by rw [List.append_assoc]; exact hback.symm⟩
        obtain ⟨before, matched, after, hbefore, hmatched, hafter⟩ :=
          hf.slices fun hl => hstrips id p ⟨es, hes, e, he, hp⟩ hl hay hpart
        obtain ⟨hleaf, hnode⟩ := hT id es hes e he p hp (byteLength matched)
        rw [cut_of_slices _ _ _ _ hbefore hmatched hafter, token]
        cases hi : p.inside with
        | none => exact hleaf (String.ofList matched)
        | some a =>
            have hmatched : (String.ofList matched).toList <:+: text.toList := by
              rw [String.toList_ofList]
              exact (Text.infix_of_slice? hmatched).trans hpart
            have hinner := ih (hinside e he p hp a hi) (hstrips.part hmatched)
              fun id p hp part hpart => hgaveUp id p hp part (hpart.trans hmatched)
            show Ends _ _ ((tokenizeWithin gs depth a (String.ofList matched) >>= _) >>= _)
            rw [bind_assoc]
            exact hinner.bind fun inner _ htokens => hnode inner htokens

theorem tokenizeWithin_regular {gs : List Grammar} (hclosed : Closed gs) (depth : Nat)
    {id : GrammarId} {text : String} (hid : id < gs.length)
    (hstrips : StripsPrefixes gs text.toList) :
    Ends (TokensAt (fun _ _ => True) 0) Fault.Regular (tokenizeWithin gs depth id text) := by
  have hbroken : ∀ id p, MatchesWith gs id p → ∀ e, p.regex.program = .error e →
      Fault.Regular (.brokenRegex p.regex e) := fun _ p _ e _ => .inl ⟨p.regex, e, rfl⟩
  have hlabelled : Labelled gs fun _ => True :=
    fun _ _ _ _ _ _ _ _ => ⟨fun _ => trivial, fun _ _ => trivial⟩
  exact tokenizeWithin_ends hclosed hlabelled (.inr (.inr rfl)) hbroken depth hid hstrips
    fun _ p _ _ _ _ => .inr (.inl ⟨p.regex, rfl⟩)

end Highlighter.Tokenizer
