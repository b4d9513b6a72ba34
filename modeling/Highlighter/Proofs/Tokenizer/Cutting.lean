import Highlighter.Proofs.Regex.Finding
import Highlighter.Proofs.Tokenizer.Conservation

/-! # How tokens come about

    A scan makes tokens in one way: it finds a pattern in a piece of the
    text, which is the whole text or a raw fragment of it, and cuts the
    match out of a stretch of that piece.  `Found` is what it knows at that
    moment, in either case.

    So what holds of every token that is cut there holds of all tokens in
    the end, at the offsets where they stand; and a run that fails does so
    in searching, or in cutting.  `applyEntries_ends` says both: to know
    something of tokens or faults it is enough to know it of cuts.  It
    also says that scanning never ends for want of fuel, since every step
    settles a byte at least. -/

namespace Highlighter.Tokenizer

open Fragment (AllWhole Conserved texts lengths)
open Text (byteLength slice?)

variable {α β : Type}

-- ── Results ──────────────────────────────────────────────────────────────

/-- What succeeds in two parts has succeeded in either. -/
theorem exists_of_bind_ok {ε : Type} {r : Except ε α} {f : α → Except ε β} {b : β}
    (h : r >>= f = .ok b) : ∃ a, r = .ok a ∧ f a = .ok b := by
  cases r with
  | error e => exact nomatch h
  | ok a => exact ⟨a, rfl, h⟩

/-- What fails in two parts has failed in one of them. -/
theorem error_or_of_bind_error {ε : Type} {r : Except ε α} {f : α → Except ε β} {e : ε}
    (h : r >>= f = .error e) : r = .error e ∨ ∃ a, r = .ok a ∧ f a = .error e := by
  cases r with
  | error e' => exact .inl (congrArg _ (Except.error.inj h))
  | ok a => exact .inr ⟨a, rfl, h⟩

/-- A result with a property, or a fault that is accounted for. -/
def Ends (P : α → Prop) (E : Fault → Prop) : Except Fault α → Prop
  | .ok a => P a
  | .error e => E e

section Ends

variable {P Q : α → Prop} {E : Fault → Prop} {r : Except Fault α}

theorem Ends.bind {R : β → Prop} {f : α → Except Fault β} (hr : Ends P E r)
    (hf : ∀ a, r = .ok a → P a → Ends R E (f a)) : Ends R E (r >>= f) := by
  cases r with
  | error e => exact hr
  | ok a => exact hf a rfl hr

theorem Ends.and_sound (hr : Ends P E r) (hs : Sound Q r) : Ends (fun a => P a ∧ Q a) E r := by
  cases r with
  | error e => exact hr
  | ok a => exact ⟨hr, hs⟩

theorem Ends.mono (hr : Ends P E r) (h : ∀ a, P a → Q a) : Ends Q E r := by
  cases r with
  | error e => exact hr
  | ok a => exact h a hr

theorem Ends.of_ok (hr : Ends P E r) {a : α} (h : r = .ok a) : P a := by
  subst h
  exact hr

theorem Ends.of_error (hr : Ends P E r) {e : Fault} (h : r = .error e) : E e := by
  subst h
  exact hr

theorem Ends.foldlM {R : β → Prop} {f : β → α → Except Fault β} {as : List α}
    (hf : ∀ b, R b → ∀ a ∈ as, Ends R E (f b a)) {b : β} (hb : R b) :
    Ends R E (as.foldlM f b) := by
  induction as generalizing b with
  | nil => exact hb
  | cons a as ih =>
      rw [List.foldlM_cons]
      refine (hf b hb a List.mem_cons_self).bind fun b' _ hb' => ?_
      exact ih (fun b hb a ha => hf b hb a (List.mem_cons_of_mem _ ha)) hb'

end Ends

-- ── Tokens at their offsets ──────────────────────────────────────────────

/-- Fragments from an offset on, of which every token has a property at
    the offset where it stands. -/
def TokensAt (T : Nat → Fragment → Prop) : Nat → List Fragment → Prop
  | _, [] => True
  | pos, f :: fs => (f.isToken = true → T pos f) ∧ TokensAt T (pos + f.length) fs

variable {T : Nat → Fragment → Prop}

theorem tokensAt_append {pos : Nat} {fs gs : List Fragment} :
    TokensAt T pos (fs ++ gs) ↔ TokensAt T pos fs ∧ TokensAt T (pos + lengths fs) gs := by
  induction fs generalizing pos with
  | nil => exact ⟨fun h => ⟨trivial, h⟩, fun h => h.2⟩
  | cons f fs ih =>
      show _ ∧ TokensAt T (pos + f.length) (fs ++ gs) ↔ (_ ∧ TokensAt T (pos + f.length) fs) ∧ _
      rw [ih, and_assoc, Fragment.lengths_cons, Nat.add_assoc]

theorem tokensAt_rawFragment? (pos : Nat) (cs : List Char) :
    TokensAt T pos (rawFragment? cs) := by
  cases cs with
  | nil => trivial
  | cons c cs => exact ⟨nofun, trivial⟩

/-- A token among the fragments has the property where it stands. -/
theorem TokensAt.of_mem {pos : Nat} {fs gs : List Fragment} {t : Fragment}
    (h : TokensAt T pos (fs ++ t :: gs)) (ht : t.isToken = true) : T (pos + lengths fs) t :=
  (tokensAt_append.mp h).2.1 ht

-- ── Cutting ──────────────────────────────────────────────────────────────

/-- The slice of a piece is a slice of the text. -/
theorem slice?_of_piece (front back : List Char) {hay own : List Char} {start stop : Nat}
    (h : slice? hay start stop = some own) :
    slice? (front ++ (hay ++ back)) (byteLength front + start) (byteLength front + stop)
      = some own := by
  obtain ⟨a, b, rfl, ha, hb⟩ := Text.append_of_slice? h
  refine Text.slice?_eq_some_iff.mpr ⟨front ++ a, b ++ back, by simp, ?_, ?_⟩
  · rw [Text.byteLength_append, ha]
  · rw [Text.byteLength_append]
    omega

theorem lengths_rawFragment? (cs : List Char) : lengths (rawFragment? cs) = byteLength cs := by
  obtain ⟨htexts, hwhole⟩ := rawFragment?_keeps cs
  rw [hwhole.lengths_eq, htexts, String.toList_ofList]

theorem slice_eq_ok_iff {text cs : List Char} {start stop : Nat} :
    slice text start stop = .ok cs ↔ slice? text start stop = some cs := by
  rw [slice]
  cases slice? text start stop with
  | none => exact iff_of_false (fun h => by cases h) (Option.some_ne_none cs).symm
  | some cs' => exact ⟨fun h => congrArg _ (Except.ok.inj h), fun h => congrArg _ (Option.some.inj h)⟩

/-- What a cut that succeeds has made: three slices, of which the middle
    one is the text of the token. -/
theorem slices_of_cut {c : Context} {name : String} {p : Pattern} {text : List Char}
    {start stop : Nat} {span : Regex.Span} {k : Cut}
    (h : cut c name p text start span stop = .ok k) :
    ∃ before matched after, slice? text start span.start = some before ∧
      slice? text span.start span.stop = some matched ∧
      slice? text span.stop stop = some after ∧ token c name p matched = .ok k.token ∧
      k.before = rawFragment? before ∧ k.after = rawFragment? after := by
  rw [cut] at h
  obtain ⟨matched, hmatched, h⟩ := exists_of_bind_ok h
  obtain ⟨before, hbefore, h⟩ := exists_of_bind_ok h
  obtain ⟨t, ht, h⟩ := exists_of_bind_ok h
  obtain ⟨after, hafter, h⟩ := exists_of_bind_ok h
  obtain rfl := Except.ok.inj h
  exact ⟨before, matched, after, slice_eq_ok_iff.mp hbefore, slice_eq_ok_iff.mp hmatched,
    slice_eq_ok_iff.mp hafter, ht, rfl, rfl⟩

/-- A token has the text that was matched, or else what is made of that
    text by the grammar inside. -/
theorem token_cases {c : Context} {name : String} {p : Pattern} {matched : List Char}
    {t : Fragment} (h : token c name p matched = .ok t) :
    (p.inside = none ∧
      t = .leaf ⟨name, p.aliases, byteLength matched, p.greedy⟩ (String.ofList matched)) ∨
    ∃ id inner, p.inside = some id ∧ c.nested id (String.ofList matched) = .ok inner ∧
      t = .node ⟨name, p.aliases, byteLength matched, p.greedy⟩ inner := by
  rw [token] at h
  cases hi : p.inside with
  | none =>
      rw [hi] at h
      exact .inl ⟨rfl, (Except.ok.inj h).symm⟩
  | some id =>
      rw [hi] at h
      obtain ⟨inner, hinner, h⟩ := exists_of_bind_ok h
      exact .inr ⟨id, inner, rfl, hinner, (Except.ok.inj h).symm⟩

theorem length_of_token {c : Context} {name : String} {p : Pattern} {matched : List Char}
    {t : Fragment} (h : token c name p matched = .ok t) : t.length = byteLength matched := by
  rcases token_cases h with ⟨-, rfl⟩ | ⟨_, _, -, -, rfl⟩
  · rfl
  · rfl

/-- A cut is as long as the stretch it was made in. -/
theorem lengths_of_cut {c : Context} {name : String} {p : Pattern} {text : List Char}
    {start stop : Nat} {span : Regex.Span} {k : Cut}
    (h : cut c name p text start span stop = .ok k) :
    start + lengths (k.before ++ k.token :: k.after) = stop := by
  obtain ⟨before, matched, after, hbefore, hmatched, hafter, ht, hkb, hka⟩ := slices_of_cut h
  obtain ⟨a, -, -, ha, hbefore⟩ := Text.append_of_slice? hbefore
  obtain ⟨b, -, -, hb, hmatched⟩ := Text.append_of_slice? hmatched
  obtain ⟨d, -, -, hd, hafter⟩ := Text.append_of_slice? hafter
  rw [Fragment.lengths_append, Fragment.lengths_cons, hkb, hka, lengths_rawFragment?,
    lengths_rawFragment?, length_of_token ht]
  omega

theorem find_eq_ok_iff {p : Pattern} {text : Regex.Haystack} {start : Nat}
    {found : Option Regex.Span} :
    find p text start = .ok found ↔ p.regex.find text start p.lookbehind = .ok found := by
  rw [find]
  cases p.regex.find text start p.lookbehind with
  | ok found' => exact ⟨fun h => congrArg _ (Except.ok.inj h), fun h => congrArg _ (Except.ok.inj h)⟩
  | error e => exact iff_of_false (fun h => by cases h) (fun h => by cases h)

/-- A pattern is found in the piece `hay` of a text, with `front` before
    it, and the match lies in the stretch of the piece from `start` to
    `stop`, from which it is to be cut. -/
structure Found (text : List Char) (p : Pattern) (front hay : List Char) (start stop : Nat)
    (span : Regex.Span) : Prop where
  piece : ∃ back, text = front ++ (hay ++ back)
  found : ∃ place, place ≤ start ∧ find p hay.toArray place = .ok (some span)
  start_le : start ≤ span.start
  lt : span.start < span.stop
  le_stop : span.stop ≤ stop
  stretch : ∃ cs, slice? hay start stop = some cs

/-- The stretch is not empty, as the match in it is not. -/
theorem Found.start_lt_stop {text : List Char} {p : Pattern} {front hay : List Char}
    {start stop : Nat} {span : Regex.Span} (hf : Found text p front hay start stop span) :
    start < stop :=
  Nat.lt_of_le_of_lt hf.start_le (Nat.lt_of_lt_of_le hf.lt hf.le_stop)

/-- A token stands in the cut where it was found. -/
theorem tokensAt_of_cut {c : Context} {name : String} {p : Pattern} {front hay : List Char}
    {start stop : Nat} {span : Regex.Span} {k : Cut}
    (hf : Found c.text p front hay start stop span)
    (hk : cut c name p hay start span stop = .ok k)
    (hT : T (byteLength front + span.start) k.token) :
    TokensAt T (byteLength front + start) (k.before ++ k.token :: k.after) := by
  obtain ⟨before, matched, after, hbefore, -, -, -, hkb, hka⟩ := slices_of_cut hk
  obtain ⟨a, b, -, ha, hab⟩ := Text.append_of_slice? hbefore
  have hlength : lengths k.before = span.start - start := by
    rw [hkb, lengths_rawFragment?]
    omega
  have hstart := hf.start_le
  refine tokensAt_append.mpr ⟨?_, fun _ => ?_, ?_⟩
  · rw [hkb]
    exact tokensAt_rawFragment? _ before
  · rw [hlength, Nat.add_assoc, Nat.add_sub_cancel' hstart]
    exact hT
  · rw [hka]
    exact tokensAt_rawFragment? _ after

-- ── Where a greedy match lies ────────────────────────────────────────────

/-- What is reached goes up to the end of the match, if there is as much. -/
theorem reach_covers (stop : Nat) (afterGreedy : Bool) (pos : Nat) (fs : List Fragment) :
    (reach stop afterGreedy pos fs).2 = []
      ∨ stop ≤ pos + lengths (reach stop afterGreedy pos fs).1 := by
  induction fs generalizing afterGreedy pos with
  | nil => exact .inl rfl
  | cons f fs ih =>
      rw [reach]
      by_cases hgoes : (pos < stop || (!f.isToken && !afterGreedy)) = true
      · simp only [hgoes, if_true]
        rcases ih f.isGreedy (pos + f.length) with hnil | hle
        · exact .inl hnil
        · refine .inr ?_
          rw [Fragment.lengths_cons]
          omega
      · rw [if_neg hgoes]
        refine .inr ?_
        simp only [Bool.or_eq_true, decide_eq_true_eq, not_or] at hgoes
        show stop ≤ pos + 0
        omega

/-- What is passed by ends in front of the match. -/
theorem passBy_le {start pos : Nat} (fs : List Fragment) (h : pos ≤ start) :
    pos + lengths (passBy start pos fs).1 ≤ start := by
  induction fs generalizing pos with
  | nil => exact h
  | cons f fs ih =>
      rw [passBy]
      by_cases hends : pos + f.length ≤ start
      · rw [if_pos hends]
        have := ih hends
        show pos + (f.length + lengths (passBy start (pos + f.length) fs).1) ≤ start
        omega
      · rw [if_neg hends]
        exact h

/-- A match in the fragments lies in what it covers. -/
theorem place_bounds {span : Regex.Span} (afterGreedy : Bool) {pos : Nat} {fs : List Fragment}
    (hpos : pos ≤ span.start) (hfs : span.stop ≤ pos + lengths fs) :
    pos + lengths (place span afterGreedy pos fs).passed ≤ span.start ∧
      span.stop ≤ pos + lengths (place span afterGreedy pos fs).passed
        + lengths (place span afterGreedy pos fs).covered := by
  have hreach := reach_append span.stop afterGreedy pos fs
  have hcovers := reach_covers span.stop afterGreedy pos fs
  have hpass := passBy_append span.start pos (reach span.stop afterGreedy pos fs).1
  have hle := passBy_le (reach span.stop afterGreedy pos fs).1 hpos
  refine ⟨hle, ?_⟩
  show span.stop ≤ pos + lengths (passBy span.start pos (reach span.stop afterGreedy pos fs).1).1
    + lengths (passBy span.start pos (reach span.stop afterGreedy pos fs).1).2
  rw [Nat.add_assoc, ← Fragment.lengths_append, hpass]
  rcases hcovers with hnil | hstop
  · rw [hnil, List.append_nil] at hreach
    rw [hreach]
    exact hfs
  · exact hstop

-- ── Steps ────────────────────────────────────────────────────────────────

/-- What becomes of the matches of a pattern: the regex may be broken, a
    match in a part of the text may be given up, and a cut at a match may
    fail, in ways that are accounted for; a token that is cut has the
    property where it stands. -/
structure Cuts (T : Nat → Fragment → Prop) (E : Fault → Prop) (c : Context) (name : String)
    (p : Pattern) : Prop where
  broken : ∀ e, p.regex.program = .error e → E (.brokenRegex p.regex e)
  gaveUp : ∀ part, part <:+: c.text → p.regex.GivesUpIn part.toArray → E (.gaveUp p.regex)
  cut : ∀ {front hay : List Char} {start stop : Nat} {span : Regex.Span},
    Found c.text p front hay start stop span →
      Ends (fun k => T (byteLength front + span.start) k.token) E (cut c name p hay start span stop)

/-- A step that leaves tokens with the property, and settles something if
    the scan goes on. -/
def Step.TokensAt (T : Nat → Fragment → Prop) (pos : Nat) : Step → Prop
  | .done gs => Tokenizer.TokensAt T pos gs
  | .more settled rest => Tokenizer.TokensAt T pos (settled ++ rest) ∧ settled ≠ []

theorem Pass.proceed_tokensAt (pass : Pass) {pos : Nat} {settled rest : List Fragment}
    (h : TokensAt T pos (settled ++ rest)) : (pass.proceed settled rest).TokensAt T pos := by
  unfold Pass.proceed
  split
  · exact h
  · cases rest with
    | nil =>
        rw [List.append_nil] at h
        exact h
    | cons t rest =>
        refine ⟨?_, by simp⟩
        rw [List.append_assoc]
        exact h

/-- Fragments in the place of others for the same text are as long. -/
theorem Keeps.lengths_eq {fs gs : List Fragment} (h : Keeps fs gs) (hfs : AllWhole fs) :
    lengths gs = lengths fs := by
  rw [h.2.lengths_eq, h.1, hfs.lengths_eq]

/-- Fragments in the place of others are not none, when there were some. -/
theorem Keeps.ne_nil {fs gs : List Fragment} (h : Keeps fs gs) (hfs : AllWhole fs)
    (hsome : fs ≠ []) : gs ≠ [] := by
  rintro rfl
  have hlength := hfs.length_le
  rw [← h.lengths_eq hfs, Fragment.lengths_nil] at hlength
  exact hsome (List.length_eq_zero_iff.mp (Nat.le_zero.mp hlength))

section Scan

variable {E : Fault → Prop} {c : Context} {pass : Pass}

theorem find_ends (hp : Cuts T E c pass.name pass.pattern) {hay : List Char}
    (hhay : hay <:+: c.text) (start : Nat) :
    Ends (fun _ => True) E (find pass.pattern hay.toArray start) := by
  rw [find]
  cases hfind : pass.pattern.regex.find hay.toArray start pass.pattern.lookbehind with
  | error e =>
      rcases Regex.failure_of_find hfind with ⟨error, rfl, hbroken⟩ | ⟨rfl, hgaveUp⟩
      · exact hp.broken error hbroken
      · exact hp.gaveUp hay hhay hgaveUp
  | ok found => trivial

/-- A match in a raw fragment. -/
theorem Aligned.found_alone {text : List Char} {before rest : List Fragment} {pos : Nat}
    {raw : String} {p : Pattern} {span : Regex.Span}
    (ha : Aligned text before (.raw raw :: rest) pos)
    (hfind : find p raw.toList.toArray 0 = .ok (some span)) :
    Found text p (texts before.reverse).toList raw.toList 0 raw.utf8ByteSize span := by
  obtain ⟨-, hlt, hstop⟩ := Regex.bounds_of_find (find_eq_ok_iff.mp hfind)
  have hsize : raw.utf8ByteSize = byteLength raw.toList := (Text.byteLength_toList raw).symm
  constructor
  case piece =>
    refine ⟨(texts rest).toList, ?_⟩
    rw [← ha.text_eq, Fragment.texts_cons, Fragment.text, String.toList_append]
  case found => exact ⟨0, Nat.le_refl 0, hfind⟩
  case start_le => exact Nat.zero_le _
  case lt => exact hlt
  case le_stop =>
    rw [hsize]
    exact hstop
  case stretch =>
    refine ⟨raw.toList, Text.slice?_eq_some_iff.mpr ⟨[], [], by simp, rfl, ?_⟩⟩
    rw [hsize, Text.byteLength_nil, Nat.zero_add]

/-- The text has as many bytes as its fragments. -/
theorem Aligned.byteLength_eq {text : List Char} {before fs : List Fragment} {pos : Nat}
    (ha : Aligned text before fs pos) : byteLength text = pos + lengths fs := by
  rw [← ha.text_eq, Text.byteLength_append, ← ha.pos_eq_byteLength, ha.whole.lengths_eq]

/-- A match in the whole text lies in the fragments that it covers. -/
theorem Aligned.found_across {text : List Char} {before fs : List Fragment} {pos : Nat}
    {p : Pattern} {span : Regex.Span} (afterGreedy : Bool) (ha : Aligned text before fs pos)
    (hfind : find p text.toArray pos = .ok (some span)) :
    Found text p [] text (pos + lengths (place span afterGreedy pos fs).passed)
      (pos + lengths (place span afterGreedy pos fs).passed
        + lengths (place span afterGreedy pos fs).covered) span := by
  obtain ⟨hstart, hlt, hstop⟩ := Regex.bounds_of_find (find_eq_ok_iff.mp hfind)
  rw [List.toList_toArray, ha.byteLength_eq] at hstop
  obtain ⟨hpassed, hcovered⟩ := place_bounds afterGreedy hstart hstop
  rw [← place_append span afterGreedy pos fs] at ha
  constructor
  case piece => exact ⟨[], by simp⟩
  case found => exact ⟨pos, Nat.le_add_right pos _, hfind⟩
  case start_le => exact hpassed
  case lt => exact hlt
  case le_stop => exact hcovered
  case stretch => exact ⟨_, ha.advance.slice?_eq⟩

/-- A cut in the place of the fragments whose stretch it was made in. -/
theorem tokensAt_cut {name : String} {p : Pattern} {front hay : List Char} {start stop pos : Nat}
    {span : Regex.Span} {passed covered beyond : List Fragment} {k : Cut}
    (hT : TokensAt T pos (passed ++ (covered ++ beyond)))
    (hf : Found c.text p front hay start stop span)
    (hk : cut c name p hay start span stop = .ok k)
    (htoken : T (byteLength front + span.start) k.token)
    (hstart : byteLength front + start = pos + lengths passed)
    (hstop : start + lengths covered = stop) :
    TokensAt T pos (passed ++ k.before ++ (k.token :: k.after ++ beyond)) := by
  obtain ⟨hpassed, hbehind⟩ := tokensAt_append.mp hT
  obtain ⟨-, hbeyond⟩ := tokensAt_append.mp hbehind
  have hcut := tokensAt_of_cut hf hk htoken
  have hlength : lengths (k.before ++ k.token :: k.after) = lengths covered := by
    have := lengths_of_cut hk
    omega
  have heq : passed ++ k.before ++ (k.token :: k.after ++ beyond)
      = passed ++ ((k.before ++ k.token :: k.after) ++ beyond) := by simp
  rw [heq]
  refine tokensAt_append.mpr ⟨hpassed, tokensAt_append.mpr ⟨?_, ?_⟩⟩
  · rw [← hstart]
    exact hcut
  · rw [hlength]
    exact hbeyond

/-- Matching again leaves tokens with the property. -/
def Rematch.TokensAt (T : Nat → Fragment → Prop) (E : Fault → Prop) (text : List Char)
    (again : Rematch) : Prop :=
  ∀ before fs pos, Aligned text before fs pos → Tokenizer.TokensAt T pos fs →
    Ends (Tokenizer.TokensAt T pos) E (again before fs pos)

theorem stepAlone_ends (hp : Cuts T E c pass.name pass.pattern) {before rest : List Fragment}
    {pos : Nat} {raw : String} (ha : Aligned c.text before (.raw raw :: rest) pos)
    (hT : TokensAt T pos (.raw raw :: rest)) :
    Ends (Step.TokensAt T pos) E (pass.stepAlone c raw rest) := by
  rw [Pass.stepAlone]
  refine (find_ends hp ha.part 0).bind fun found hfind _ => ?_
  cases found with
  | none =>
      show Step.TokensAt T pos (if pass.once then _ else _)
      split
      · exact hT
      · exact ⟨hT, by simp⟩
  | some span =>
      have hfound := ha.found_alone hfind
      refine (hp.cut hfound).bind fun k hk htoken => ?_
      have hpos := ha.pos_eq_byteLength
      have hall : TokensAt T pos ([] ++ ([.raw raw] ++ rest)) := hT
      show Step.TokensAt T pos (pass.proceed ([] ++ k.before) (k.token :: k.after ++ rest))
      refine pass.proceed_tokensAt (tokensAt_cut hall hfound hk htoken ?_ ?_)
      · rw [← hpos]
        rfl
      · rw [Nat.zero_add]
        rfl

theorem stepPlaced_ends (hc : ∀ id text, Sound (Conserved text) (c.nested id text))
    (hp : Cuts T E c pass.name pass.pattern) (hr : pass.rematch.TokensAt T E c.text)
    {before passed covered beyond : List Fragment} {pos : Nat} {span : Regex.Span}
    (ha : Aligned c.text before (passed ++ (covered ++ beyond)) pos)
    (hf : Found c.text pass.pattern [] c.text (pos + lengths passed)
      (pos + lengths passed + lengths covered) span)
    (hT : TokensAt T pos (passed ++ (covered ++ beyond))) :
    Ends (Step.TokensAt T pos) E
      (pass.stepPlaced c before pos span ⟨passed, covered, beyond⟩) := by
  rw [Pass.stepPlaced]
  cases covered with
  | nil =>
      exact absurd hf.start_lt_stop (Nat.lt_irrefl _)
  | cons first others =>
      by_cases hfirst : first.isToken
      · simp only [hfirst, if_true]
        refine ⟨?_, by simp⟩
        rw [List.append_assoc]
        exact hT
      · simp only [hfirst]
        refine (hp.cut hf).bind fun k hk htoken => ?_
        have hcut := tokensAt_cut hT hf hk htoken (Nat.zero_add _) rfl
        by_cases hothers : others.isEmpty
        · simp only [hothers, if_true]
          exact pass.proceed_tokensAt hcut
        · simp only [hothers]
          have hkept := (cut_sound hc ha.advance.slice?_eq hf.lt).of_ok hk
          rw [String.ofList_toList] at hkept
          obtain ⟨hsettled, hrest⟩ := tokensAt_append.mp hcut
          have hagain := (ha.keeps (keeps_cut ha.whole hkept)).advance
          refine (hr _ _ _ hagain hrest).bind fun rest' _ hrest' => ?_
          exact pass.proceed_tokensAt (tokensAt_append.mpr ⟨hsettled, hrest'⟩)

theorem stepAcross_ends (hc : ∀ id text, Sound (Conserved text) (c.nested id text))
    (hh : c.haystack = c.text.toArray) (hp : Cuts T E c pass.name pass.pattern)
    (hr : pass.rematch.TokensAt T E c.text) {before rest : List Fragment} {pos : Nat}
    {raw : String} (ha : Aligned c.text before (.raw raw :: rest) pos)
    (hT : TokensAt T pos (.raw raw :: rest)) :
    Ends (Step.TokensAt T pos) E (pass.stepAcross c before pos raw rest) := by
  rw [Pass.stepAcross, hh]
  refine (find_ends hp List.infix_rfl pos).bind fun found hfind _ => ?_
  cases found with
  | none => exact hT
  | some span =>
      have hfound := ha.found_across (before.head?.any Fragment.isGreedy) hfind
      rw [← place_append span (before.head?.any Fragment.isGreedy) pos (.raw raw :: rest)] at ha hT
      exact stepPlaced_ends hc hp hr ha hfound hT

/-- A step of a scan leaves tokens with the property. -/
theorem step_ends (hc : ∀ id text, Sound (Conserved text) (c.nested id text))
    (hh : c.haystack = c.text.toArray) (hp : Cuts T E c pass.name pass.pattern)
    (hr : pass.rematch.TokensAt T E c.text) {before rest : List Fragment} {f : Fragment}
    {pos : Nat} (ha : Aligned c.text before (f :: rest) pos) (hT : TokensAt T pos (f :: rest)) :
    Ends (Step.TokensAt T pos) E (pass.step c before pos f rest) := by
  cases f with
  | leaf label text => exact ⟨hT, by simp⟩
  | node label inner => exact ⟨hT, by simp⟩
  | raw raw =>
      rw [Pass.step]
      split
      · exact stepAcross_ends hc hh hp hr ha hT
      · exact stepAlone_ends hp ha hT

/-- A scan leaves tokens with the property.  It has fuel enough when there
    is more of it than bytes, for every step settles one at least. -/
theorem scan_ends (hc : ∀ id text, Sound (Conserved text) (c.nested id text))
    (hh : c.haystack = c.text.toArray) (hp : Cuts T E c pass.name pass.pattern)
    (hk : pass.rematch.Keeping c.text) (hr : pass.rematch.TokensAt T E c.text) {fuel : Nat} :
    ∀ {before fs : List Fragment} {pos : Nat}, Aligned c.text before fs pos → TokensAt T pos fs →
      lengths fs < fuel → Ends (TokensAt T pos) E (pass.scan c fuel before fs pos) := by
  induction fuel with
  | zero => intro before fs pos _ _ hfuel; exact absurd hfuel (Nat.not_lt_zero _)
  | succ fuel ih =>
      intro before fs pos ha hT hfuel
      cases fs with
      | nil => exact hT
      | cons f rest =>
          have hfew := ha.length_le
          rw [List.length_cons] at hfew
          rw [Pass.scan, if_neg (by omega)]
          have hkeeps := step_sound hc hk ha
          refine (step_ends hc hh hp hr ha hT).bind fun step hstep hstepT => ?_
          have hkept := hkeeps.of_ok hstep
          cases step with
          | done gs => exact hstepT
          | more settled rest' =>
              obtain ⟨hall, hsettled⟩ := hstepT
              obtain ⟨hfront, hrest⟩ := tokensAt_append.mp hall
              -- what is settled takes up bytes, so there is fuel for the rest
              have hlength := hkept.lengths_eq ha.whole
              rw [Fragment.lengths_append] at hlength
              have hpos := (Fragment.allWhole_append.mp hkept.2).1.length_le
              have hsome := List.length_pos_iff.mpr hsettled
              refine (ih (ha.keeps hkept).advance hrest (by omega)).bind fun gs _ hgs => ?_
              exact tokensAt_append.mpr ⟨hfront, hgs⟩

end Scan

-- ── Entries ──────────────────────────────────────────────────────────────

/-- A grammar matches with a pattern, after its `rest` is merged in. -/
def MatchesWith (gs : List Grammar) (id : GrammarId) (p : Pattern) : Prop :=
  ∃ es, entries gs id = .ok es ∧ ∃ e ∈ es, p ∈ e.patterns

/-- What every cut gives, the tokens have in the end; and what fails, fails
    in searching or cutting. -/
theorem applyEntries_ends {E : Fault → Prop} {c : Context} {es : List Entry}
    (hc : ∀ id text, Sound (Conserved text) (c.nested id text))
    (hh : c.haystack = c.text.toArray)
    (hes : ∀ e ∈ es, ∀ p ∈ e.patterns, Cuts T E c e.name p) :
    ∀ {once : Bool} {before fs : List Fragment} {pos : Nat}, Aligned c.text before fs pos →
      TokensAt T pos fs → Ends (TokensAt T pos) E (applyEntries c es once before fs pos) := by
  induction es with
  | nil => intro once before fs pos _ hT; exact hT
  | cons e earlier ih =>
      intro once before fs pos ha hT
      have hearlier : ∀ e ∈ earlier, ∀ p ∈ e.patterns, Cuts T E c e.name p :=
        fun e he => hes e (List.mem_cons_of_mem _ he)
      have hkeep : Rematch.Keeping c.text
          fun before fs pos => applyEntries c earlier true before fs pos :=
        fun before fs pos ha => applyEntries_sound hc ha
      have hagain : Rematch.TokensAt T E c.text
          fun before fs pos => applyEntries c earlier true before fs pos :=
        fun before fs pos ha hT => ih hearlier ha hT
      rw [applyEntries]
      refine (ih hearlier ha hT).bind fun gs hgs hgsT => ?_
      have hkept := (applyEntries_sound hc ha).of_ok hgs
      -- the next pattern needs fragments that are aligned, so that is kept as well
      refine Ends.mono (P := fun hs => TokensAt T pos hs ∧ Keeps fs hs) ?_ fun hs hhs => hhs.1
      refine Ends.foldlM (fun hs hhs p hp => ?_) ⟨hgsT, hkept⟩
      have hbefore := ha.keeps hhs.2
      have hfuel := hbefore.byteLength_eq
      refine Ends.and_sound ?_ ?_
      · exact scan_ends hc hh (hes e List.mem_cons_self p hp) hkeep hagain hbefore hhs.1 (by omega)
      · refine (scan_sound hc hkeep hbefore).mono fun is his => ?_
        exact ⟨his.1.trans hhs.2.1, his.2⟩

/-- The same of the tokens of a text, and of tokenizing it; that also fails
    where the grammar, or the one it merges in, does not exist. -/
theorem tokenizeBy_ends {E : Fault → Prop} {gs : List Grammar}
    {nested : GrammarId → String → Except Fault (List Fragment)} {id : GrammarId} {text : String}
    (hn : ∀ id text, Sound (Conserved text) (nested id text))
    (hmissing : ∀ e, entries gs id = .error e → E (.noSuchGrammar e.id))
    (hcuts : ∀ es, entries gs id = .ok es → ∀ e ∈ es, ∀ p ∈ e.patterns,
      Cuts T E (.of nested text) e.name p) :
    Ends (TokensAt T 0) E (tokenizeBy gs nested id text) := by
  rw [tokenizeBy]
  by_cases hempty : text = ""
  · subst hempty
    trivial
  · rw [if_neg (by simpa using hempty)]
    cases hes : entries gs id with
    | error e => exact hmissing e hes
    | ok es =>
        refine applyEntries_ends (c := .of nested text) hn rfl (fun e he => ?_)
          (aligned_raw hempty) ⟨fun h => absurd h Bool.false_ne_true, trivial⟩
        exact hcuts es hes e (List.mem_reverse.mp he)

end Highlighter.Tokenizer
