import Highlighter.Proofs.Tokenizer.Alignment
import Highlighter.Tokenizer.Basic

/-! # Tokenizing conserves the text

    Whatever grammars there are and however they refer to one another, the
    fragments of a text are that text again, at every depth.

    The argument follows the tokenizer.  A step of a scan replaces
    fragments by others with the same text (`step_sound`); by induction on
    its fuel so does a scan (`scan_sound`), by induction on the entries so
    does applying them, and by induction on the depth tokenizing conserves
    the text it is given (`tokenizeWithin_sound`).  What lets a greedy
    match cut from the whole text is that the scan is aligned: the offset
    it keeps is where its fragments are. -/

namespace Highlighter.Tokenizer

open Fragment (AllWhole Conserved texts lengths)

-- ── Where a greedy match lies ────────────────────────────────────────────

theorem reach_append (stop : Nat) (afterGreedy : Bool) (pos : Nat) (fs : List Fragment) :
    (reach stop afterGreedy pos fs).1 ++ (reach stop afterGreedy pos fs).2 = fs := by
  induction fs generalizing afterGreedy pos with
  | nil => rfl
  | cons f fs ih =>
      rw [reach]
      split
      · exact congrArg (f :: ·) (ih f.isGreedy (pos + f.length))
      · rfl

theorem passBy_append (start pos : Nat) (fs : List Fragment) :
    (passBy start pos fs).1 ++ (passBy start pos fs).2 = fs := by
  induction fs generalizing pos with
  | nil => rfl
  | cons f fs ih =>
      rw [passBy]
      split
      · exact congrArg (f :: ·) (ih (pos + f.length))
      · rfl

/-- The fragments a match concerns and those around are all there are. -/
theorem place_append (span : Regex.Span) (afterGreedy : Bool) (pos : Nat) (fs : List Fragment) :
    (place span afterGreedy pos fs).passed ++ ((place span afterGreedy pos fs).covered
      ++ (place span afterGreedy pos fs).beyond) = fs := by
  show (passBy span.start pos (reach span.stop afterGreedy pos fs).1).1
    ++ ((passBy span.start pos (reach span.stop afterGreedy pos fs).1).2
    ++ (reach span.stop afterGreedy pos fs).2) = fs
  rw [← List.append_assoc, passBy_append, reach_append]

-- ── Steps ────────────────────────────────────────────────────────────────

/-- A step that keeps the text of the fragments it was made on. -/
def Step.Keeps (fs : List Fragment) : Step → Prop
  | .done gs => Tokenizer.Keeps fs gs
  | .more settled rest => Tokenizer.Keeps fs (settled ++ rest)

/-- Going on behind a token changes no fragment. -/
theorem Pass.proceed_keeps (pass : Pass) {fs settled rest : List Fragment}
    (h : Keeps fs (settled ++ rest)) : (pass.proceed settled rest).Keeps fs := by
  unfold Pass.proceed
  split
  · exact h
  · cases rest with
    | nil => rw [List.append_nil] at h; exact h
    | cons t rest =>
        show Keeps fs (settled ++ [t] ++ rest)
        rw [List.append_assoc]
        exact h

/-- Matching again keeps the text. -/
def Rematch.Keeping (text : List Char) (again : Rematch) : Prop :=
  ∀ before fs pos, Aligned text before fs pos → Sound (Keeps fs) (again before fs pos)

section Scan

variable {c : Context} {pass : Pass}

theorem stepAlone_sound (hc : ∀ id text, Sound (Conserved text) (c.nested id text))
    {raw : String} {rest : List Fragment} (hw : AllWhole (.raw raw :: rest)) :
    Sound (Step.Keeps (.raw raw :: rest)) (pass.stepAlone c raw rest) := by
  rw [Pass.stepAlone]
  refine (find_sound pass.pattern raw.toList.toArray 0).bind fun found hfound => ?_
  cases found with
  | none =>
      show Step.Keeps _ (if pass.once then _ else _)
      split
      · exact ⟨rfl, hw⟩
      · exact ⟨rfl, hw⟩
  | some span =>
      have hall : Text.slice? raw.toList 0 raw.utf8ByteSize = some raw.toList := by
        refine Text.slice?_eq_some_iff.mpr ⟨[], [], by simp, rfl, ?_⟩
        rw [Text.byteLength_toList, Text.byteLength_nil, Nat.zero_add]
      refine (cut_sound hc hall (hfound span rfl)).bind fun k hk => ?_
      rw [String.ofList_toList] at hk
      refine pass.proceed_keeps ?_
      rw [← List.append_assoc]
      refine ⟨?_, ?_⟩
      · rw [Fragment.texts_append, hk.1, Fragment.texts_cons, Fragment.text]
      · exact Fragment.allWhole_append.mpr ⟨hk.2, (Fragment.allWhole_cons.mp hw).2⟩

/-- What is cut takes the place of the fragments whose text it has. -/
theorem keeps_cut {passed covered beyond : List Fragment} {k : Cut}
    (hw : AllWhole (passed ++ (covered ++ beyond)))
    (hk : Conserved (texts covered) (k.before ++ k.token :: k.after)) :
    Keeps (passed ++ (covered ++ beyond))
      (passed ++ k.before ++ (k.token :: k.after ++ beyond)) := by
  obtain ⟨hpassed, hbehind⟩ := Fragment.allWhole_append.mp hw
  obtain ⟨-, hbeyond⟩ := Fragment.allWhole_append.mp hbehind
  have heq : passed ++ k.before ++ (k.token :: k.after ++ beyond)
      = passed ++ ((k.before ++ k.token :: k.after) ++ beyond) := by simp
  rw [heq]
  refine ⟨?_, ?_⟩
  · rw [Fragment.texts_append, Fragment.texts_append, hk.1, ← Fragment.texts_append,
      ← Fragment.texts_append]
  · exact Fragment.allWhole_append.mpr ⟨hpassed, Fragment.allWhole_append.mpr ⟨hk.2, hbeyond⟩⟩

theorem stepPlaced_sound (hc : ∀ id text, Sound (Conserved text) (c.nested id text))
    (hr : pass.rematch.Keeping c.text) {before passed covered beyond : List Fragment} {pos : Nat}
    {span : Regex.Span} (hspan : span.start < span.stop)
    (ha : Aligned c.text before (passed ++ (covered ++ beyond)) pos) :
    Sound (Step.Keeps (passed ++ (covered ++ beyond)))
      (pass.stepPlaced c before pos span ⟨passed, covered, beyond⟩) := by
  rw [Pass.stepPlaced]
  cases covered with
  | nil => exact ⟨rfl, ha.whole⟩
  | cons first others =>
      by_cases hfirst : first.isToken
      · simp only [hfirst, if_true]
        show Keeps _ (passed ++ [first] ++ (others ++ beyond))
        rw [List.append_assoc]
        exact ⟨rfl, ha.whole⟩
      · simp only [hfirst]
        -- what the token is cut from is the text of the covered fragments
        refine (cut_sound hc ha.advance.slice?_eq hspan).bind fun k hk => ?_
        rw [String.ofList_toList] at hk
        have hkeep := keeps_cut ha.whole hk
        by_cases hothers : others.isEmpty
        · simp only [hothers, if_true]
          exact pass.proceed_keeps hkeep
        · simp only [hothers]
          refine (hr _ _ _ (ha.keeps hkeep).advance).bind fun rest' hrest' => ?_
          exact pass.proceed_keeps (hkeep.append hrest')

theorem stepAcross_sound (hc : ∀ id text, Sound (Conserved text) (c.nested id text))
    (hr : pass.rematch.Keeping c.text) {before rest : List Fragment} {pos : Nat} {raw : String}
    (ha : Aligned c.text before (.raw raw :: rest) pos) :
    Sound (Step.Keeps (.raw raw :: rest)) (pass.stepAcross c before pos raw rest) := by
  rw [Pass.stepAcross]
  refine (find_sound pass.pattern c.haystack pos).bind fun found hfound => ?_
  cases found with
  | none => exact ⟨rfl, ha.whole⟩
  | some span =>
      have hplace := place_append span (before.head?.any Fragment.isGreedy) pos (.raw raw :: rest)
      rw [← hplace] at ha
      have hstep := stepPlaced_sound hc hr (hfound span rfl) ha
      rw [hplace] at hstep
      exact hstep

/-- A step of a scan keeps the text. -/
theorem step_sound (hc : ∀ id text, Sound (Conserved text) (c.nested id text))
    (hr : pass.rematch.Keeping c.text) {before rest : List Fragment} {f : Fragment} {pos : Nat}
    (ha : Aligned c.text before (f :: rest) pos) :
    Sound (Step.Keeps (f :: rest)) (pass.step c before pos f rest) := by
  cases f with
  | raw raw =>
      rw [Pass.step]
      split
      · exact stepAcross_sound hc hr ha
      · exact stepAlone_sound hc ha.whole
  | leaf label text => exact ⟨rfl, ha.whole⟩
  | node label inner => exact ⟨rfl, ha.whole⟩

/-- A scan keeps the text: what a step has settled stays, and the rest is
    aligned again. -/
theorem scan_sound (hc : ∀ id text, Sound (Conserved text) (c.nested id text))
    (hr : pass.rematch.Keeping c.text) {fuel : Nat} {before fs : List Fragment} {pos : Nat}
    (ha : Aligned c.text before fs pos) : Sound (Keeps fs) (pass.scan c fuel before fs pos) := by
  induction fuel generalizing before fs pos with
  | zero =>
      cases fs with
      | nil => exact ⟨rfl, ha.whole⟩
      | cons f rest => exact fun h => nomatch h
  | succ fuel ih =>
      cases fs with
      | nil => exact ⟨rfl, ha.whole⟩
      | cons f rest =>
          have hfew := ha.length_le
          rw [List.length_cons] at hfew
          rw [Pass.scan, if_neg (by omega)]
          refine (step_sound hc hr ha).bind fun step hstep => ?_
          cases step with
          | done gs => exact hstep
          | more settled rest' =>
              exact (ih (ha.keeps hstep).advance).bind fun gs hgs => hstep.append hgs

end Scan

-- ── Entries and grammars ─────────────────────────────────────────────────

/-- Applying entries keeps the text.  Matching again applies the earlier
    ones, so it is no case of its own. -/
theorem applyEntries_sound {c : Context} (hc : ∀ id text, Sound (Conserved text) (c.nested id text))
    {es : List Entry} {once : Bool} {before fs : List Fragment} {pos : Nat}
    (ha : Aligned c.text before fs pos) :
    Sound (Keeps fs) (applyEntries c es once before fs pos) := by
  induction es generalizing once before fs pos with
  | nil => exact ⟨rfl, ha.whole⟩
  | cons e earlier ih =>
      rw [applyEntries]
      refine (ih ha).bind fun gs hgs => ?_
      refine Sound.foldlM (fun hs hhs p _ => ?_) hgs
      have hagain : Rematch.Keeping c.text
          fun before fs pos => applyEntries c earlier true before fs pos :=
        fun before fs pos ha => ih ha
      refine (scan_sound hc hagain (ha.keeps hhs)).mono fun is his => ?_
      exact ⟨his.1.trans hhs.1, his.2⟩

/-- A text is aligned as one raw fragment. -/
theorem aligned_raw {text : String} (h : text ≠ "") : Aligned text.toList [] [.raw text] 0 := by
  refine ⟨?_, rfl, Fragment.allWhole_nil, ?_⟩
  · simp [Fragment.text]
  · simp [Fragment.Whole, h]

/-- Tokenizing conserves the text when it does so for the texts of tokens. -/
theorem tokenizeBy_sound (gs : List Grammar)
    {nested : GrammarId → String → Except Fault (List Fragment)}
    (hn : ∀ id text, Sound (Conserved text) (nested id text)) (id : GrammarId) (text : String) :
    Sound (Conserved text) (tokenizeBy gs nested id text) := by
  rw [tokenizeBy]
  by_cases hempty : text = ""
  · subst hempty
    exact ⟨rfl, Fragment.allWhole_nil⟩
  · rw [if_neg (by simpa using hempty)]
    cases entries gs id with
    | error e => exact fun h => nomatch h
    | ok es =>
        refine (applyEntries_sound (c := .of nested text) hn (aligned_raw hempty)).mono
          fun fs hfs => ?_
        refine ⟨hfs.1.trans ?_, hfs.2⟩
        simp [Fragment.text]

/-- However deep tokens may nest, tokenizing conserves the text. -/
theorem tokenizeWithin_sound (gs : List Grammar) (depth : Nat) (id : GrammarId) (text : String) :
    Sound (Conserved text) (tokenizeWithin gs depth id text) := by
  induction depth generalizing id text with
  | zero => exact fun h => nomatch h
  | succ depth ih => exact tokenizeBy_sound gs ih id text

/-- The fragments of a text conserve it: in a row they are the text, raw
    ones are not empty, tokens are as long as their own text, which is not
    empty, and the same holds inside of every token. -/
theorem tokenize_conserved {gs : List Grammar} {id : GrammarId} {text : String}
    {fs : List Fragment} (h : tokenize gs id text = .ok fs) : Conserved text fs :=
  (tokenizeWithin_sound gs _ id text).of_ok h

/-- A greedy match over a token found earlier, with a grammar inside. -/
theorem tokenize_conserved_across :
    let word : String × Rule := ("n", .patterns (.single { regex := { source := "1" } }))
    let gs : List Grammar :=
      [⟨[word, ("s", .patterns (.single
          { regex := { source := "x1x" }, greedy := true, inside := some 1 }))]⟩, ⟨[word]⟩]
    let fs : List Fragment :=
      [.raw "é", .node ⟨"s", [], 3, true⟩ [.raw "x", .leaf ⟨"n", [], 1, false⟩ "1", .raw "x"],
        .leaf ⟨"n", [], 1, false⟩ "1"]
    tokenize gs 0 "éx1x1" = .ok fs ∧ Conserved "éx1x1" fs := by
  intro word gs fs
  have h : tokenize gs 0 "éx1x1" = .ok fs := by rfl
  exact ⟨h, tokenize_conserved h⟩

end Highlighter.Tokenizer
