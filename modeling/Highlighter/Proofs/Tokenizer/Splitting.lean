import Highlighter.Proofs.Tokenizer.Justification

/-! # Tokenizing by splitting raw text

    Without greedy patterns a text is tokenized by splitting: every pattern
    in turn splits each raw text that the ones before have left, and tokens
    stay as they are.  A raw text is split by a pattern into what stands in
    front of the first match, the token, and what the rest splits into as a
    text by itself (`split`).

    A scan does this in one pass, with an offset, fuel, and a bound on the
    number of fragments.  None of these shows (`scan_eq_replaceRaw`): a step
    settles what stands in front and the token, and the rest is the raw
    fragment that the scan comes to next.  The texts of tokens are tokenized
    less deep than the text around them, and that does not show either
    (`tokenize_eq_tokenizeBy`).  So tokenizing is splitting, down to the
    fault that is met first (`tokenize_eq_splitting`). -/

namespace Highlighter.Tokenizer

open Fragment (AllWhole Conserved texts lengths)
open Text (byteLength slice? takeBytes? dropBytes?)

-- ── A text parted at a match ─────────────────────────────────────────────

/-- A text in three parts, the middle one of which is a match. -/
structure Parting (text : List Char) where
  before : List Char
  matched : List Char
  after : List Char
  append_eq : before ++ (matched ++ after) = text
  matched_ne_nil : matched ≠ []

/-- The text parted at a span, unless that cuts a character. -/
def Parting.at? (text : List Char) (span : Regex.Span) : Option (Parting text) :=
  match hmatched : slice? text span.start span.stop, hbefore : takeBytes? span.start text,
      hafter : dropBytes? span.stop text with
  | some (c :: matched), some before, some after =>
      some ⟨before, c :: matched, after, by
        obtain ⟨a, b, htext, ha, hab⟩ := Text.append_of_slice? hmatched
        rw [htext, List.append_assoc, ← ha, Text.takeBytes?_append] at hbefore
        rw [htext, ← hab, ← Text.byteLength_append, Text.dropBytes?_append] at hafter
        rw [← Option.some.inj hbefore, ← Option.some.inj hafter, htext, List.append_assoc],
        List.cons_ne_nil _ _⟩
  | _, _, _ => none

/-- What stands behind the match is shorter than the text. -/
theorem Parting.length_after_lt {text : List Char} (k : Parting text) :
    k.after.length < text.length := by
  have hlength := congrArg List.length k.append_eq
  have hmatched := List.length_pos_iff.mpr k.matched_ne_nil
  rw [List.length_append, List.length_append] at hlength
  omega

/-- The first match of a pattern in a text by itself, and the parts around
    it. -/
def part (p : Pattern) (text : List Char) : Except Fault (Option (Parting text)) := do
  match ← find p text.toArray 0 with
  | none => .ok none
  | some span =>
      match Parting.at? text span with
      | some k => .ok (some k)
      | none => .error .splitCharacter

-- ── Splitting ────────────────────────────────────────────────────────────

/-- What a pattern splits a raw text into, the texts of its tokens being
    tokenized by `nested`. -/
def split (nested : GrammarId → String → Except Fault (List Fragment)) (name : String)
    (p : Pattern) (text : List Char) : Except Fault (List Fragment) := do
  match ← part p text with
  | none => .ok [.raw (String.ofList text)]
  | some k => do
      let t ← token (.of nested (String.ofList text)) name p k.matched
      let rest ← (if k.after.isEmpty then .ok [] else split nested name p k.after)
      .ok (rawFragment? k.before ++ t :: rest)
termination_by text.length
decreasing_by exact k.length_after_lt

/-- Fragments with every raw text replaced by what a function makes of it;
    tokens stay. -/
def replaceRaw (f : List Char → Except Fault (List Fragment)) :
    List Fragment → Except Fault (List Fragment)
  | [] => .ok []
  | .raw text :: fs => do
      let pieces ← f text.toList
      let rest ← replaceRaw f fs
      .ok (pieces ++ rest)
  | t :: fs => do
      let rest ← replaceRaw f fs
      .ok (t :: rest)

/-- Fragments after the patterns of entries have split them in turn. -/
def splitAll (nested : GrammarId → String → Except Fault (List Fragment)) (es : List Entry)
    (fs : List Fragment) : Except Fault (List Fragment) :=
  es.foldlM (fun fs e => e.patterns.foldlM (fun fs p => replaceRaw (split nested e.name p) fs) fs) fs

/-- A text, as one raw fragment, after the entries of a grammar have split
    it. -/
def splitting (gs : List Grammar) (nested : GrammarId → String → Except Fault (List Fragment))
    (id : GrammarId) (text : String) : Except Fault (List Fragment) :=
  match entries gs id with
  | .error e => .error (.noSuchGrammar e.id)
  | .ok es => splitAll nested es [.raw text]

-- ── Cuts are partings ────────────────────────────────────────────────────

theorem Parting.at?_of_append {a m b text : List Char} {span : Regex.Span}
    (htext : a ++ (m ++ b) = text) (ha : byteLength a = span.start)
    (hm : byteLength a + byteLength m = span.stop) (hne : m ≠ []) :
    Parting.at? text span = some ⟨a, m, b, htext, hne⟩ := by
  obtain ⟨c, m, rfl⟩ := List.exists_cons_of_ne_nil hne
  have hmatched : slice? text span.start span.stop = some (c :: m) :=
    Text.slice?_eq_some_iff.mpr ⟨a, b, by rw [← htext, List.append_assoc], ha, hm⟩
  have hbefore : takeBytes? span.start text = some a := by
    rw [← htext, ← ha, Text.takeBytes?_append]
  have hafter : dropBytes? span.stop text = some b := by
    rw [← htext, ← List.append_assoc, ← hm, ← Text.byteLength_append, Text.dropBytes?_append]
  unfold Parting.at?
  split
  · next hmatched' hbefore' hafter' =>
      cases hmatched.symm.trans hmatched'
      cases hbefore.symm.trans hbefore'
      cases hafter.symm.trans hafter'
      rfl
  · next hnot => exact absurd hafter (hnot c m a b hmatched hbefore)

theorem Parting.at?_of_slice?_eq_none {text : List Char} {span : Regex.Span}
    (h : slice? text span.start span.stop = none) : Parting.at? text span = none := by
  unfold Parting.at?
  split
  · next hmatched _ _ => cases h.symm.trans hmatched
  · rfl

/-- Cutting a whole text at a span parts it there. -/
theorem cut_eq_parting {c : Context} {name : String} {p : Pattern} {text : List Char}
    {span : Regex.Span} (hlt : span.start < span.stop) :
    cut c name p text 0 span (byteLength text)
      = match Parting.at? text span with
        | none => .error .splitCharacter
        | some k =>
            token c name p k.matched >>= fun t =>
              .ok ⟨rawFragment? k.before, t, rawFragment? k.after⟩ := by
  cases hmatched : slice? text span.start span.stop with
  | none =>
      rw [Parting.at?_of_slice?_eq_none hmatched, cut, slice, hmatched]
      rfl
  | some matched =>
      obtain ⟨a, b, htext, ha, hm⟩ := Text.append_of_slice? hmatched
      rw [List.append_assoc] at htext
      have hne : matched ≠ [] := by
        rintro rfl
        rw [Text.byteLength_nil] at hm
        omega
      have hbefore : slice? text 0 span.start = some a :=
        Text.slice?_eq_some_iff.mpr ⟨[], matched ++ b, htext, rfl, by simpa using ha⟩
      have hafter : slice? text span.stop (byteLength text) = some b := by
        refine Text.slice?_eq_some_iff.mpr ⟨a ++ matched, [], ?_, ?_, ?_⟩
        · rw [htext, List.append_nil, List.append_assoc]
        · rw [Text.byteLength_append, hm]
        · rw [htext, ← Text.byteLength_append, List.append_assoc]
      rw [Parting.at?_of_append htext.symm ha hm hne, cut]
      rw [slice_eq_ok_iff.mpr hmatched, slice_eq_ok_iff.mpr hbefore, slice_eq_ok_iff.mpr hafter]
      rfl

section Scan

variable {c : Context} {pass : Pass}

/-- A step of a pattern that goes on settles what stands in front of the
    match and the token. -/
theorem stepAlone_eq_part (honce : pass.once = false) (raw : String) (rest : List Fragment) :
    pass.stepAlone c raw rest = (do
      match ← part pass.pattern raw.toList with
      | none => .ok (.more [.raw raw] rest)
      | some k => do
          let t ← token c pass.name pass.pattern k.matched
          .ok (.more (rawFragment? k.before ++ [t]) (rawFragment? k.after ++ rest))) := by
  rw [Pass.stepAlone, part, bind_assoc]
  cases hfind : find pass.pattern raw.toList.toArray 0 with
  | error e => rfl
  | ok found =>
      cases found with
      | none =>
          simp only [honce]
          rfl
      | some span =>
          have hlt : span.start < span.stop :=
            (Regex.bounds_of_find (find_eq_ok_iff.mp hfind)).2.1
          simp only [bind, Except.bind]
          rw [← Text.byteLength_toList, cut_eq_parting hlt]
          cases Parting.at? raw.toList span with
          | none => rfl
          | some k =>
              show (token c pass.name pass.pattern k.matched >>= _).bind _
                = (token c pass.name pass.pattern k.matched).bind _
              cases token c pass.name pass.pattern k.matched with
              | error e => rfl
              | ok t =>
                  simp only [bind, Except.bind, Pass.proceed, honce]
                  rfl

/-- Splitting the raw text that stands behind a token, and what follows. -/
theorem replaceRaw_rawFragment? (f : List Char → Except Fault (List Fragment)) (cs : List Char)
    (fs : List Fragment) :
    replaceRaw f (rawFragment? cs ++ fs) = (do
      let pieces ← (if cs.isEmpty then .ok [] else f cs)
      let rest ← replaceRaw f fs
      .ok (pieces ++ rest)) := by
  cases cs with
  | nil =>
      show replaceRaw f fs = (replaceRaw f fs >>= fun rest => .ok rest)
      cases replaceRaw f fs with
      | error e => rfl
      | ok rest => rfl
  | cons ch cs =>
      show replaceRaw f (.raw (String.ofList (ch :: cs)) :: fs) = _
      rw [replaceRaw, String.toList_ofList]
      rfl

/-- A raw text is split at its first match, and so on behind it. -/
theorem replaceRaw_split (nested : GrammarId → String → Except Fault (List Fragment))
    (name : String) (p : Pattern) (raw : String) (fs : List Fragment) :
    replaceRaw (split nested name p) (.raw raw :: fs) = (do
      match ← part p raw.toList with
      | none => do
          let rest ← replaceRaw (split nested name p) fs
          .ok (.raw raw :: rest)
      | some k => do
          let t ← token (.of nested raw) name p k.matched
          let rest ← replaceRaw (split nested name p) (rawFragment? k.after ++ fs)
          .ok (rawFragment? k.before ++ t :: rest)) := by
  rw [replaceRaw, split, bind_assoc]
  cases part p raw.toList with
  | error e => rfl
  | ok found =>
      cases found with
      | none =>
          rw [String.ofList_toList]
          rfl
      | some k =>
          show (token (.of nested (String.ofList raw.toList)) name p k.matched >>= _) >>= _
            = token (.of nested raw) name p k.matched >>= _
          rw [String.ofList_toList, bind_assoc]
          refine congrArg _ (funext fun t => ?_)
          rw [replaceRaw_rawFragment?, bind_assoc, bind_assoc]
          refine congrArg _ (funext fun pieces => ?_)
          rw [bind_assoc]
          show (replaceRaw _ fs >>= fun rest => .ok ((rawFragment? k.before ++ t :: pieces) ++ rest))
            = replaceRaw _ fs >>= fun rest => .ok (rawFragment? k.before ++ t :: (pieces ++ rest))
          simp only [List.append_assoc, List.cons_append]

/-- After a step that settles fragments the scan goes on behind them. -/
theorem scan_of_more {fuel : Nat} {before rest settled rest' : List Fragment} {f : Fragment}
    {pos : Nat} (hfew : before.length + (rest.length + 1) ≤ byteLength c.text)
    (hstep : pass.step c before pos f rest = .ok (.more settled rest')) :
    pass.scan c (fuel + 1) before (f :: rest) pos = (do
      let fs ← pass.scan c fuel (settled.reverse ++ before) rest' (pos + lengths settled)
      .ok (settled ++ fs)) := by
  rw [Pass.scan, if_neg (Nat.not_lt.mpr hfew), hstep]
  rfl

theorem scan_of_error {fuel : Nat} {before rest : List Fragment} {f : Fragment} {pos : Nat}
    {e : Fault} (hfew : before.length + (rest.length + 1) ≤ byteLength c.text)
    (hstep : pass.step c before pos f rest = .error e) :
    pass.scan c (fuel + 1) before (f :: rest) pos = .error e := by
  rw [Pass.scan, if_neg (Nat.not_lt.mpr hfew), hstep]
  rfl

/-- A scan with a pattern that is not greedy splits every raw text. -/
theorem scan_eq_replaceRaw (hc : ∀ id text, Sound (Conserved text) (c.nested id text))
    (hk : pass.rematch.Keeping c.text) (honce : pass.once = false)
    (hgreedy : pass.pattern.greedy = false) {fuel : Nat} {before fs : List Fragment} {pos : Nat}
    (ha : Aligned c.text before fs pos) (hfuel : lengths fs < fuel) :
    pass.scan c fuel before fs pos
      = replaceRaw (split c.nested pass.name pass.pattern) fs := by
  induction fuel generalizing before fs pos with
  | zero => exact absurd hfuel (Nat.not_lt_zero _)
  | succ fuel ih =>
      cases fs with
      | nil => rfl
      | cons f rest =>
          have hfew : before.length + (rest.length + 1) ≤ byteLength c.text := ha.length_le
          have hkeeps := step_sound hc hk ha
          -- what is settled takes up bytes, so the rest is split by induction
          have hnext : ∀ settled rest', settled ≠ [] →
              pass.step c before pos f rest = .ok (.more settled rest') →
              pass.scan c (fuel + 1) before (f :: rest) pos
                = replaceRaw (split c.nested pass.name pass.pattern) rest'
                    >>= fun fs => .ok (settled ++ fs) := by
            intro settled rest' hsome hstep
            have hkept : Keeps (f :: rest) (settled ++ rest') := hkeeps.of_ok hstep
            have hlength := hkept.lengths_eq ha.whole
            rw [Fragment.lengths_append] at hlength
            have hbytes := (Fragment.allWhole_append.mp hkept.2).1.length_le
            have hcount := List.length_pos_iff.mpr hsome
            rw [scan_of_more hfew hstep, ih (ha.keeps hkept).advance (by omega)]
          cases f with
          | leaf label text =>
              rw [hnext [.leaf label text] rest (List.cons_ne_nil _ _) rfl]
              rfl
          | node label inner =>
              rw [hnext [.node label inner] rest (List.cons_ne_nil _ _) rfl]
              rfl
          | raw raw =>
              have hstep : pass.step c before pos (.raw raw) rest = pass.stepAlone c raw rest := by
                rw [Pass.step, hgreedy]
                rfl
              rw [stepAlone_eq_part honce] at hstep
              rw [replaceRaw_split]
              cases hpart : part pass.pattern raw.toList with
              | error e =>
                  rw [hpart] at hstep
                  exact scan_of_error hfew hstep
              | ok found =>
                  rw [hpart] at hstep
                  cases found with
                  | none =>
                      rw [hnext [.raw raw] rest (List.cons_ne_nil _ _) hstep]
                      rfl
                  | some k =>
                      have htoken : token (.of c.nested raw) pass.name pass.pattern k.matched
                          = token c pass.name pass.pattern k.matched := rfl
                      simp only [bind, Except.bind, htoken] at hstep ⊢
                      cases ht : token c pass.name pass.pattern k.matched with
                      | error e =>
                          rw [ht] at hstep
                          exact scan_of_error hfew hstep
                      | ok t =>
                          rw [ht] at hstep
                          rw [hnext (rawFragment? k.before ++ [t]) _ (by simp) hstep]
                          simp only [bind, Except.bind, List.append_assoc, List.singleton_append]

end Scan

-- ── Entries ──────────────────────────────────────────────────────────────

/-- Folds are equal when their steps are, on what the steps keep. -/
theorem Sound.foldlM_congr {α β : Type} {P : β → Prop} {f g : β → α → Except Fault β}
    {as : List α} (hfg : ∀ b, P b → ∀ a ∈ as, f b a = g b a ∧ Sound P (f b a)) {b : β}
    (hb : P b) : as.foldlM f b = as.foldlM g b := by
  have hmap := Sound.foldlM_map (h := id) (f := f) (g := g)
    (fun b hb a ha => ⟨by rw [Except.map_id]; exact (hfg b hb a ha).1.symm, (hfg b hb a ha).2⟩) hb
  rw [Except.map_id] at hmap
  exact hmap.symm

/-- Entries without greedy patterns split what raw text there is. -/
theorem applyEntries_eq_splitAll {c : Context}
    (hc : ∀ id text, Sound (Conserved text) (c.nested id text)) {es : List Entry}
    (hes : ∀ e ∈ es, ∀ p ∈ e.patterns, p.greedy = false) {before fs : List Fragment} {pos : Nat}
    (ha : Aligned c.text before fs pos) :
    applyEntries c es false before fs pos = splitAll c.nested es.reverse fs := by
  induction es with
  | nil => rfl
  | cons e earlier ih =>
      obtain ⟨hhere, hearlier⟩ := List.forall_mem_cons.mp hes
      have hkeep : Rematch.Keeping c.text
          fun before fs pos => applyEntries c earlier true before fs pos :=
        fun before fs pos ha => applyEntries_sound hc ha
      have hsound : Sound (Keeps fs) (applyEntries c earlier false before fs pos) :=
        applyEntries_sound hc ha
      rw [applyEntries, splitAll, List.reverse_cons, List.foldlM_append, ← splitAll,
        ← ih hearlier]
      cases hgs : applyEntries c earlier false before fs pos with
      | error f => rfl
      | ok gs =>
          have hgs := hsound.of_ok hgs
          show _ = e.patterns.foldlM _ gs >>= pure
          rw [bind_pure]
          refine Sound.foldlM_congr (P := Keeps fs) (fun hs hhs p hp => ⟨?_, ?_⟩) hgs
          · have hbefore := ha.keeps hhs
            have hfuel := hbefore.byteLength_eq
            exact scan_eq_replaceRaw hc hkeep rfl (hhere p hp) hbefore (by omega)
          · refine (scan_sound hc hkeep (ha.keeps hhs)).mono fun is his => ?_
            exact ⟨his.1.trans hhs.1, his.2⟩

/-- Tokenizing splits the text, however the texts of tokens are tokenized. -/
theorem tokenizeBy_eq_splitting {gs : List Grammar} {id : GrammarId}
    {nested : GrammarId → String → Except Fault (List Fragment)}
    (hn : ∀ id text, Sound (Conserved text) (nested id text))
    (h : ∀ p, MatchesWith gs id p → p.greedy = false) {text : String} (hne : text ≠ "") :
    tokenizeBy gs nested id text = splitting gs nested id text := by
  rw [tokenizeBy, splitting, if_neg (by simpa using hne)]
  cases hes : entries gs id with
  | error e => rfl
  | ok es =>
      have hplain : ∀ e ∈ es.reverse, ∀ p ∈ e.patterns, p.greedy = false :=
        fun e he p hp => h p ⟨es, hes, e, List.mem_reverse.mp he, hp⟩
      have hall := applyEntries_eq_splitAll (c := .of nested text) hn hplain (aligned_raw hne)
      rw [List.reverse_reverse] at hall
      exact hall

-- ── Depth ────────────────────────────────────────────────────────────────

/-- The texts of tokens are tokenized as they are by themselves: the depth
    that is left is as good as the one they are given then. -/
theorem tokenize_eq_tokenizeBy (gs : List Grammar) (id : GrammarId) (text : String) :
    tokenize gs id text = tokenizeBy gs (tokenize gs) id text := by
  have hdeep : tokenizeWithin gs (text.utf8ByteSize * gs.length + 1 + 1) id text
      = tokenize gs id text :=
    tokenizeWithin_eq_tokenize (Nat.le_succ _) id
  have hparts : ∀ a part, part <:+: text.toList →
      tokenizeWithin gs (text.utf8ByteSize * gs.length + 1) a (String.ofList part)
        = tokenize gs a (String.ofList part) := by
    intro a part hpart
    refine tokenizeWithin_eq_tokenize (Nat.succ_le_succ (Nat.mul_le_mul_right _ ?_)) a
    rcases eq_or_byteSize_lt_of_part hpart with heq | hlt
    · rw [heq]
    · exact Nat.le_of_lt hlt
  rw [← hdeep]
  refine Below.antisymm ?_ ?_
  · refine tokenizeBy_below (Bisimulation.eq gs) (tokenizeWithin_sound gs _) ?_ rfl
    rintro a _ rfl part hpart
    exact .inr (hparts a part hpart)
  · refine tokenizeBy_below (Bisimulation.eq gs)
      (fun id text => tokenizeWithin_sound gs _ id text) ?_ rfl
    rintro a _ rfl part hpart
    exact .inr (hparts a part hpart).symm

-- ── Tokenizing ───────────────────────────────────────────────────────────

/-- A grammar that matches with no greedy pattern tokenizes a text by
    splitting it, with the texts of tokens tokenized by themselves: the
    fragments are the same, or the fault is.  The empty text has no
    fragments. -/
theorem tokenize_eq_splitting {gs : List Grammar} {id : GrammarId}
    (h : ∀ p, MatchesWith gs id p → p.greedy = false) (text : String) :
    tokenize gs id text
      = if text = "" then .ok [] else splitting gs (tokenize gs) id text := by
  by_cases hempty : text = ""
  · rw [if_pos hempty, hempty]
    rfl
  · rw [if_neg hempty, tokenize_eq_tokenizeBy]
    exact tokenizeBy_eq_splitting (fun id text => tokenizeWithin_sound gs _ id text) h hempty

/-- A word with a digit inside, between digits: the second pattern splits
    the raw texts on either side of the token, the first of them whole. -/
theorem tokenize_eq_splitting_words :
    let digit : String × Rule := ("n", .patterns (.single { regex := { source := "1" } }))
    let gs : List Grammar :=
      [⟨[("s", .patterns (.single { regex := { source := "x1" }, inside := some 1 })), digit]⟩,
        ⟨[digit]⟩]
    (∀ p, MatchesWith gs 0 p → p.greedy = false) ∧
      splitting gs (tokenize gs) 0 "1x1é1" = .ok [.leaf ⟨"n", [], 1, false⟩ "1",
        .node ⟨"s", [], 2, false⟩ [.raw "x", .leaf ⟨"n", [], 1, false⟩ "1"], .raw "é",
        .leaf ⟨"n", [], 1, false⟩ "1"] := by
  intro digit gs
  have hplain : ∀ p, MatchesWith gs 0 p → p.greedy = false := by
    rintro p ⟨es, hes, e, he, hp⟩
    obtain rfl := Except.ok.inj (show Except.ok _ = Except.ok es from hes)
    rcases List.mem_cons.mp he with rfl | he
    · rw [List.mem_singleton.mp hp]
    · rw [List.mem_singleton.mp he] at hp
      rw [List.mem_singleton.mp hp]
  have htokens : tokenize gs 0 "1x1é1" = .ok [.leaf ⟨"n", [], 1, false⟩ "1",
      .node ⟨"s", [], 2, false⟩ [.raw "x", .leaf ⟨"n", [], 1, false⟩ "1"], .raw "é",
      .leaf ⟨"n", [], 1, false⟩ "1"] := by rfl
  have heq := tokenize_eq_splitting hplain "1x1é1"
  rw [if_neg (by decide), htokens] at heq
  exact ⟨hplain, heq.symm⟩

/-- The empty text is not split like the others: as a raw fragment it would
    stay. -/
theorem tokenize_ne_splitting_empty :
    ¬ ∀ (gs : List Grammar) (id : GrammarId), (∀ p, MatchesWith gs id p → p.greedy = false) →
      ∀ text, tokenize gs id text = splitting gs (tokenize gs) id text := by
  intro h
  have hplain : ∀ p, MatchesWith [{}] 0 p → p.greedy = false := by
    rintro p ⟨es, hes, e, he, -⟩
    cases hes
    exact absurd he List.not_mem_nil
  have hsame := h [{}] 0 hplain ""
  have hraw : splitting [{}] (tokenize [{}]) 0 "" = .ok [.raw ""] := rfl
  rw [hraw] at hsame
  have hnone : tokenize [{}] 0 "" = .ok [] := rfl
  cases hnone.symm.trans hsame

end Highlighter.Tokenizer
