import Highlighter.Proofs.Tokenizer.Cutting
import Highlighter.Proofs.Tokenizer.Depth
import Mathlib.Logic.Relation

/-! # Tokenizing terminates

    A run ends as `endless` when tokens nest too deep.  That is so only
    when tokens nest without end: scanning has fuel enough, and a run that
    is endless within one depth is so within every other.

    The text of a token is shorter than the text it was found in, or else
    the pattern has matched all of it.  A link to the grammar inside of a
    pattern is `Full` when the pattern can match a whole text.  So where
    grammars refer to each other in cycles, but never by full links alone,
    nesting comes to an end (`tokenize_terminates`): the text gets shorter,
    or it stays and the grammar is one from which fewer grammars are
    reached by full links. -/

namespace Highlighter.Tokenizer

open Fragment (Conserved)
open Relation (ReflTransGen TransGen)
open Text (byteLength slice?)

variable {gs : List Grammar}

-- ── Links ────────────────────────────────────────────────────────────────

/-- A pattern that can match some whole text. -/
def Full (p : Pattern) : Prop :=
  ∃ text : List Char, text ≠ [] ∧
    p.regex.find text.toArray 0 p.lookbehind = .ok (some ⟨0, byteLength text⟩)

variable (gs) in
/-- A pattern of the first grammar has the second one inside. -/
def Link (a b : GrammarId) : Prop := ∃ p, MatchesWith gs a p ∧ p.inside = some b

variable (gs) in
/-- A link by a pattern that can match a whole text. -/
def FullLink (a b : GrammarId) : Prop := ∃ p, MatchesWith gs a p ∧ p.inside = some b ∧ Full p

theorem FullLink.link {a b : GrammarId} (h : FullLink gs a b) : Link gs a b := by
  obtain ⟨p, hp, hinside, -⟩ := h
  exact ⟨p, hp, hinside⟩

theorem Link.lt_length {a b : GrammarId} (h : Link gs a b) : a < gs.length := by
  obtain ⟨p, ⟨es, hes, -⟩, -⟩ := h
  by_contra hge
  rw [entries, mergedRules, grammarAt, List.getElem?_eq_none (Nat.le_of_not_lt hge)] at hes
  cases hes

-- ── Where a run is endless ───────────────────────────────────────────────

theorem slice_ne_endless (text : List Char) (start stop : Nat) :
    slice text start stop ≠ .error .endless := by
  rw [slice]
  cases slice? text start stop with
  | none => exact fun h => by cases h
  | some cs => exact fun h => by cases h

/-- A token is endless only where its text is tokenized. -/
theorem nested_endless_of_token {c : Context} {name : String} {p : Pattern} {matched : List Char}
    (h : token c name p matched = .error .endless) :
    ∃ id, p.inside = some id ∧ c.nested id (String.ofList matched) = .error .endless := by
  rw [token] at h
  cases hi : p.inside with
  | none =>
      rw [hi] at h
      cases h
  | some id =>
      rw [hi] at h
      rcases error_or_of_bind_error h with hn | ⟨inner, -, h⟩
      · exact ⟨id, rfl, hn⟩
      · cases h

/-- A cut is endless only where the text of its token is tokenized. -/
theorem nested_endless_of_cut {c : Context} {name : String} {p : Pattern} {text : List Char}
    {start stop : Nat} {span : Regex.Span}
    (h : cut c name p text start span stop = .error .endless) :
    ∃ before matched id, slice? text start span.start = some before ∧
      slice? text span.start span.stop = some matched ∧ p.inside = some id ∧
      c.nested id (String.ofList matched) = .error .endless := by
  rw [cut] at h
  rcases error_or_of_bind_error h with h | ⟨matched, hmatched, h⟩
  · exact absurd h (slice_ne_endless _ _ _)
  rcases error_or_of_bind_error h with h | ⟨before, hbefore, h⟩
  · exact absurd h (slice_ne_endless _ _ _)
  rcases error_or_of_bind_error h with h | ⟨t, -, h⟩
  · obtain ⟨id, hi, hn⟩ := nested_endless_of_token h
    exact ⟨before, matched, id, slice_eq_ok_iff.mp hbefore, slice_eq_ok_iff.mp hmatched, hi, hn⟩
  rcases error_or_of_bind_error h with h | ⟨after, -, h⟩
  · exact absurd h (slice_ne_endless _ _ _)
  · cases h

/-- The text of a token is shorter than the text it was found in, or it is
    that text and the pattern has matched all of it. -/
theorem Found.matched_shorter {text : List Char} {p : Pattern} {front hay before matched : List Char}
    {start stop : Nat} {span : Regex.Span} (hf : Found text p front hay start stop span)
    (hbefore : slice? hay start span.start = some before)
    (hmatched : slice? hay span.start span.stop = some matched) :
    byteLength matched < byteLength text ∨ matched = text ∧ Full p := by
  obtain ⟨back, hback⟩ := hf.piece
  obtain ⟨place, hplace, hfind⟩ := hf.found
  obtain ⟨a, b, hhay, ha, hstop⟩ := Text.append_of_slice? hmatched
  have hsize : byteLength text = byteLength front + (byteLength hay + byteLength back) := by
    rw [hback, Text.byteLength_append, Text.byteLength_append]
  have hhaysize : byteLength hay = byteLength a + byteLength matched + byteLength b := by
    rw [hhay, Text.byteLength_append, Text.byteLength_append]
  by_cases hlt : byteLength matched < byteLength text
  · exact .inl hlt
  · -- nothing is left on either side, so the search was at the very start
    obtain rfl := Text.byteLength_eq_zero.mp (show byteLength front = 0 by omega)
    obtain rfl := Text.byteLength_eq_zero.mp (show byteLength back = 0 by omega)
    obtain rfl := Text.byteLength_eq_zero.mp (show byteLength a = 0 by omega)
    obtain rfl := Text.byteLength_eq_zero.mp (show byteLength b = 0 by omega)
    rw [List.nil_append, List.append_nil] at hhay hback
    obtain rfl : text = hay := hback
    obtain rfl : text = matched := hhay
    have hzero : span.start = 0 := ha.symm
    have hstart := hf.start_le
    obtain rfl : place = 0 := by omega
    have hspan : span = ⟨0, byteLength text⟩ := by
      obtain ⟨s, e⟩ := span
      simp only [Text.byteLength_nil, Nat.zero_add] at ha hstop
      rw [← ha, ← hstop]
    refine .inr ⟨rfl, text, ?_, ?_⟩
    · rintro rfl
      have hlt := hf.lt
      rw [hspan] at hlt
      exact absurd hlt (Nat.lt_irrefl 0)
    · rw [← hspan]
      exact find_eq_ok_iff.mp hfind

/-- An endless run is so for a token inside. -/
theorem nested_endless_of_tokenizeBy
    {nested : GrammarId → String → Except Fault (List Fragment)} {id : GrammarId} {text : String}
    (hn : ∀ id text, Sound (Conserved text) (nested id text))
    (h : tokenizeBy gs nested id text = .error .endless) :
    ∃ b part, Link gs id b ∧ nested b part = .error .endless ∧
      (part.utf8ByteSize < text.utf8ByteSize ∨ part = text ∧ FullLink gs id b) := by
  have hends : Ends (TokensAt (fun _ _ => True) 0)
      (fun e => e = .endless → ∃ b part, Link gs id b ∧ nested b part = .error .endless ∧
        (part.utf8ByteSize < text.utf8ByteSize ∨ part = text ∧ FullLink gs id b))
      (tokenizeBy gs nested id text) := by
    refine tokenizeBy_ends hn (fun _ _ => nofun) fun es hes e he p hp =>
      ⟨fun _ => nofun, fun _ _ => nofun, ?_⟩
    intro front hay start stop span hf
    have hwith : MatchesWith gs id p := ⟨es, hes, e, he, hp⟩
    cases hk : cut (.of nested text) e.name p hay start span stop with
    | ok k => trivial
    | error fault =>
        rintro rfl
        obtain ⟨before, matched, b, hbefore, hmatched, hi, hendless⟩ := nested_endless_of_cut hk
        refine ⟨b, String.ofList matched, ⟨p, hwith, hi⟩, hendless, ?_⟩
        rw [Text.utf8ByteSize_ofList, ← Text.byteLength_toList]
        rcases hf.matched_shorter hbefore hmatched with hlt | ⟨heq, hfull⟩
        · exact .inl hlt
        · refine .inr ⟨?_, p, hwith, hi, hfull⟩
          rw [heq]
          exact String.ofList_toList
  exact hends.of_error h rfl

/-- What is endless within all depths is so for a token inside. -/
theorem endless_inside {id : GrammarId} {text : String}
    (h : tokenize gs id text = .error .endless) :
    ∃ b part, Link gs id b ∧ tokenize gs b part = .error .endless ∧
      (part.utf8ByteSize < text.utf8ByteSize ∨ part = text ∧ FullLink gs id b) := by
  -- a depth that is great enough for the parts of the text
  set depth := text.utf8ByteSize * gs.length + 1
  have hendless : tokenizeWithin gs (depth + 1) id text = .error .endless := by
    have hbelow : Below (tokenizeWithin gs (depth + 1) id text) (tokenize gs id text) :=
      tokenizeWithin_below_tokenize (depth + 1) id text
    rcases hbelow with hendless | hsame
    · exact hendless
    · rw [hsame, h]
  obtain ⟨b, part, hlink, hnested, hpart⟩ :=
    nested_endless_of_tokenizeBy (tokenizeWithin_sound gs depth) hendless
  have hsize : part.utf8ByteSize ≤ text.utf8ByteSize := by
    rcases hpart with hlt | ⟨rfl, -⟩
    · exact Nat.le_of_lt hlt
    · exact Nat.le_refl _
  have hdepth : part.utf8ByteSize * gs.length + 1 ≤ depth :=
    Nat.succ_le_succ (Nat.mul_le_mul_right _ hsize)
  rw [tokenizeWithin_eq_tokenize hdepth] at hnested
  exact ⟨b, part, hlink, hnested, hpart⟩

-- ── Ranks ────────────────────────────────────────────────────────────────

open Classical in
variable (gs) in
/-- How many grammars full links lead to. -/
noncomputable def linkRank (a : GrammarId) : Nat :=
  ((Finset.range gs.length).filter fun x => TransGen (FullLink gs) a x).card

/-- A full link that is on no cycle leads to a grammar of a lower rank. -/
theorem linkRank_lt {a b : GrammarId} (h : FullLink gs a b) (hb : b < gs.length)
    (hcycle : ¬ TransGen (FullLink gs) b b) : linkRank gs b < linkRank gs a := by
  classical
  refine Finset.card_lt_card ⟨fun x hx => ?_, fun hsub => ?_⟩
  · obtain ⟨hlt, hreach⟩ := Finset.mem_filter.mp hx
    exact Finset.mem_filter.mpr ⟨hlt, .head h hreach⟩
  · have hmem := Finset.mem_filter.mpr ⟨Finset.mem_range.mpr hb, TransGen.single h⟩
    exact hcycle (Finset.mem_filter.mp (hsub hmem)).2

/-- Nesting comes to an end: each token inside has a shorter text, or the
    same text and a grammar of a lower rank. -/
theorem tokenize_ne_endless {id : GrammarId} (text : String)
    (hcycles : ∀ a, ReflTransGen (Link gs) id a → ¬ TransGen (FullLink gs) a a) :
    tokenize gs id text ≠ .error .endless := by
  intro h
  obtain ⟨b, part, hlink, hnested, hpart⟩ := endless_inside h
  have hcycles' : ∀ a, ReflTransGen (Link gs) b a → ¬ TransGen (FullLink gs) a a :=
    fun a ha => hcycles a (.head hlink ha)
  -- an endless run has a token inside, so its grammar exists
  obtain ⟨_, _, hnext, -, -⟩ := endless_inside hnested
  have hdecreases : part.utf8ByteSize < text.utf8ByteSize ∨
      part = text ∧ linkRank gs b < linkRank gs id := by
    rcases hpart with hlt | ⟨rfl, hfull⟩
    · exact .inl hlt
    · exact .inr ⟨rfl, linkRank_lt hfull hnext.lt_length (hcycles' b .refl)⟩
  exact tokenize_ne_endless part hcycles' hnested
termination_by (text.utf8ByteSize, linkRank gs id)
decreasing_by
  rcases hdecreases with hlt | ⟨rfl, hlt⟩
  · exact .left _ _ hlt
  · exact .right _ hlt

/-- Where no cycle of full links alone is reached, tokenizing terminates:
    from some depth on it makes no difference how deep tokens may nest, and
    no run is cut short, neither for its depth nor for the length of its
    scans. -/
theorem tokenize_terminates {id : GrammarId}
    (hcycles : ∀ a, ReflTransGen (Link gs) id a → ¬ TransGen (FullLink gs) a a) (text : String) :
    ∃ depth, ∀ more, depth ≤ more →
      tokenizeWithin gs more id text = tokenize gs id text ∧
      tokenizeWithin gs more id text ≠ .error .endless ∧
      tokenizeWithin gs more id text ≠ .error .overfull := by
  refine ⟨text.utf8ByteSize * gs.length + 1, fun more hmore => ?_⟩
  have hsame := tokenizeWithin_eq_tokenize hmore id
  refine ⟨hsame, ?_, ?_⟩
  · rw [hsame]
    exact tokenize_ne_endless text hcycles
  · intro hfull
    have hsound := tokenizeWithin_sound gs more id text
    rw [hfull] at hsound
    exact hsound rfl

/-- Two grammars, each inside of a pattern of the other.  Only one of the
    patterns can match a whole text, for the other one has a prefix. -/
theorem tokenize_terminates_in_cycle :
    let run : Pattern := { regex := { source := "=+" }, inside := some 1 }
    let behind : Pattern :=
      { regex := { source := "(=)." }, lookbehind := true, inside := some 0 }
    let gs : List Grammar :=
      [⟨[("run", .patterns (.single run))]⟩, ⟨[("behind", .patterns (.single behind))]⟩]
    (Link gs 0 1 ∧ Link gs 1 0) ∧
      (∀ a, ReflTransGen (Link gs) 0 a → ¬ TransGen (FullLink gs) a a) ∧
      ∃ depth, ∀ more, depth ≤ more →
        tokenizeWithin gs more 0 "===" = tokenize gs 0 "===" ∧
        tokenizeWithin gs more 0 "===" ≠ .error .endless ∧
        tokenizeWithin gs more 0 "===" ≠ .error .overfull := by
  intro run behind gs
  have hrun : MatchesWith gs 0 run := ⟨[⟨"run", [run]⟩], by rfl, _, .head _, .head _⟩
  have hbehind : MatchesWith gs 1 behind := ⟨[⟨"behind", [behind]⟩], by rfl, _, .head _, .head _⟩
  have hmatches : ∀ {a p}, MatchesWith gs a p → a = 0 ∧ p = run ∨ a = 1 ∧ p = behind := by
    rintro a p ⟨es, hes, e, he, hp⟩
    match a with
    | 0 =>
        obtain rfl : [⟨"run", [run]⟩] = es := Except.ok.inj hes
        obtain rfl := List.mem_singleton.mp he
        exact .inl ⟨rfl, List.mem_singleton.mp hp⟩
    | 1 =>
        obtain rfl : [⟨"behind", [behind]⟩] = es := Except.ok.inj hes
        obtain rfl := List.mem_singleton.mp he
        exact .inr ⟨rfl, List.mem_singleton.mp hp⟩
    | a + 2 => exact nomatch hes
  have hpart : ¬ Full behind := by
    rintro ⟨text, -, hfind⟩
    exact absurd (Regex.start_pos_of_leading_group (by rfl) hfind) (Nat.lt_irrefl 0)
  -- so full links lead from the first grammar to the second one only
  have hfull : ∀ {a b}, FullLink gs a b → a = 0 ∧ b = 1 := by
    rintro a b ⟨p, hwith, hinside, hfull⟩
    rcases hmatches hwith with ⟨rfl, rfl⟩ | ⟨rfl, rfl⟩
    · exact ⟨rfl, (Option.some.inj hinside).symm⟩
    · exact absurd hfull hpart
  have hcycles : ∀ a, ReflTransGen (Link gs) 0 a → ¬ TransGen (FullLink gs) a a := by
    intro a _ hcycle
    obtain ⟨b, hfirst, -⟩ := TransGen.head'_iff.mp hcycle
    obtain ⟨b', -, hlast⟩ := TransGen.tail'_iff.mp hcycle
    exact absurd ((hfull hfirst).1.symm.trans (hfull hlast).2) Nat.zero_ne_one
  exact ⟨⟨⟨run, hrun, rfl⟩, ⟨behind, hbehind, rfl⟩⟩, hcycles, tokenize_terminates hcycles "==="⟩

end Highlighter.Tokenizer
