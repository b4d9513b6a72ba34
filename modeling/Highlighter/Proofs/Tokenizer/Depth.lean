import Highlighter.Proofs.Tokenizer.Simulation
import Mathlib.Data.Finset.Card
import Mathlib.Data.Finset.Range

/-! # How deep tokens nest

    Tokens within tokens have shorter texts, or the same text with another
    grammar.  So when one more level of nesting changes no result for a
    text and its parts, no further level does; and each level that does
    change something settles a grammar for the text at hand, of which there
    are only as many as there are.  The depth that `tokenize` allows is
    therefore as good as any greater one (`tokenizeWithin_eq_tokenize`), and
    what it answers does not depend on how many grammars there are
    (`tokenize_eq_of_bisimulation`). -/

namespace Highlighter.Tokenizer

open Fragment (Conserved)

variable (gs : List Grammar)

/-- A result that no greater depth changes. -/
def Settled (depth : Nat) (id : GrammarId) (text : String) : Prop :=
  ∀ more, depth ≤ more → tokenizeWithin gs more id text = tokenizeWithin gs depth id text

variable {gs}

theorem Settled.mono {d d' : Nat} (hd : d ≤ d') {id : GrammarId} {text : String}
    (h : Settled gs d id text) : Settled gs d' id text := by
  intro more hmore
  rw [h more (hd.trans hmore), h d' hd]

-- ── One level more ───────────────────────────────────────────────────────

/-- One level more changes nothing but that a run ran out of levels. -/
theorem tokenizeWithin_below_succ (depth : Nat) (id : GrammarId) (text : String) :
    Below (tokenizeWithin gs depth id text) (tokenizeWithin gs (depth + 1) id text) := by
  induction depth generalizing id text with
  | zero => exact .inl rfl
  | succ depth ih =>
      refine tokenizeBy_below (Bisimulation.eq gs) (tokenizeWithin_sound gs depth) ?_ rfl
      rintro a _ rfl part _
      exact ih a _

/-- When one level more changes nothing for the parts of a text, another one
    changes nothing for the text. -/
theorem tokenizeWithin_succ_eq {depth : Nat} {text : String}
    (h : ∀ id part, part <:+: text.toList →
      tokenizeWithin gs depth id (String.ofList part)
        = tokenizeWithin gs (depth + 1) id (String.ofList part)) (id : GrammarId) :
    tokenizeWithin gs (depth + 1) id text = tokenizeWithin gs (depth + 1 + 1) id text := by
  refine Below.antisymm (tokenizeWithin_below_succ (depth + 1) id text) ?_
  refine tokenizeBy_below (Bisimulation.eq gs) (tokenizeWithin_sound gs (depth + 1)) ?_ rfl
  rintro a _ rfl part hpart
  exact .inr (h a part hpart).symm

/-- A part of a text is the text or has fewer bytes. -/
theorem eq_or_byteSize_lt_of_part {text : String} {part : List Char}
    (h : part <:+: text.toList) :
    String.ofList part = text ∨ (String.ofList part).utf8ByteSize < text.utf8ByteSize := by
  obtain ⟨before, after, htext⟩ := h
  have hsize := congrArg Text.byteLength htext
  rw [Text.byteLength_append, Text.byteLength_append, Text.byteLength_toList] at hsize
  rw [Text.utf8ByteSize_ofList]
  rcases Nat.lt_or_ge (Text.byteLength part) text.utf8ByteSize with hlt | hge
  · exact .inr hlt
  · obtain rfl := Text.byteLength_eq_zero.mp (show Text.byteLength before = 0 by omega)
    obtain rfl := Text.byteLength_eq_zero.mp (show Text.byteLength after = 0 by omega)
    rw [List.nil_append, List.append_nil] at htext
    rw [htext, String.ofList_toList]
    exact .inl rfl

/-- When one level more changes nothing for a text, whatever the grammar,
    and its shorter parts are settled, the text is settled. -/
theorem settled_of_succ_eq {depth : Nat} {text : String}
    (hparts : ∀ id part, String.utf8ByteSize part < text.utf8ByteSize → Settled gs depth id part)
    (h : ∀ id, tokenizeWithin gs depth id text = tokenizeWithin gs (depth + 1) id text)
    (id : GrammarId) : Settled gs depth id text := by
  have hsucc : ∀ more, ∀ id, tokenizeWithin gs (depth + more) id text
      = tokenizeWithin gs (depth + more + 1) id text := by
    intro more
    induction more with
    | zero => exact h
    | succ more ih =>
        show ∀ id, tokenizeWithin gs (depth + more + 1) id text
          = tokenizeWithin gs (depth + more + 2) id text
        refine tokenizeWithin_succ_eq fun id part hpart => ?_
        rcases eq_or_byteSize_lt_of_part hpart with heq | hlt
        · rw [heq]
          exact ih id
        · rw [hparts id _ hlt (depth + more) (by omega),
            hparts id _ hlt (depth + more + 1) (by omega)]
  intro more hmore
  obtain ⟨k, rfl⟩ := Nat.exists_eq_add_of_le hmore
  clear hmore
  induction k with
  | zero => rfl
  | succ k ih => rw [← ih, hsucc k id, Nat.add_assoc]

-- ── Counting ─────────────────────────────────────────────────────────────

/-- Whether a run ran out of levels. -/
def ranOut {α : Type} : Except Fault α → Bool
  | .error .endless => true
  | _ => false

variable (gs) in
/-- The grammars with which a text is not tokenized within a depth. -/
def unsettled (depth : Nat) (text : String) : Finset GrammarId :=
  (Finset.range gs.length).filter fun id => ranOut (tokenizeWithin gs depth id text)

theorem ranOut_iff {α : Type} {r : Except Fault α} : ranOut r = true ↔ r = .error .endless := by
  constructor
  · intro h
    cases r with
    | ok a => exact nomatch h
    | error e =>
        cases e with
        | endless => rfl
        | _ => exact nomatch h
  · rintro rfl
    rfl

/-- A grammar that does not exist needs no depth. -/
theorem tokenizeWithin_of_length_le {depth : Nat} {id : GrammarId} (h : gs.length ≤ id)
    (text : String) :
    tokenizeWithin gs (depth + 1) id text = tokenizeWithin gs (depth + 1 + 1) id text := by
  show tokenizeBy _ _ _ _ = tokenizeBy _ _ _ _
  have hentries : entries gs id = .error ⟨id⟩ := by
    rw [entries, mergedRules, grammarAt, List.getElem?_eq_none h]
    rfl
  rw [tokenizeBy, tokenizeBy, hentries]

/-- A level that changes something settles a grammar. -/
theorem unsettled_card_lt {depth : Nat} {id : GrammarId} {text : String}
    (h : tokenizeWithin gs (depth + 1) id text ≠ tokenizeWithin gs (depth + 1 + 1) id text) :
    (unsettled gs (depth + 1 + 1) text).card < (unsettled gs (depth + 1) text).card := by
  have hran : tokenizeWithin gs (depth + 1) id text = .error .endless :=
    (tokenizeWithin_below_succ (depth + 1) id text).resolve_right h
  refine Finset.card_lt_card ⟨fun a ha => ?_, fun hsub => ?_⟩
  · obtain ⟨hlt, hup⟩ := Finset.mem_filter.mp ha
    refine Finset.mem_filter.mpr ⟨hlt, ?_⟩
    rcases tokenizeWithin_below_succ (depth + 1) a text with hbelow | hbelow
    · exact ranOut_iff.mpr hbelow
    · rw [hbelow]
      exact hup
  · have hid : id < gs.length := by
      by_contra hid
      exact h (tokenizeWithin_of_length_le (Nat.le_of_not_lt hid) text)
    have hmem : id ∈ unsettled gs (depth + 1) text :=
      Finset.mem_filter.mpr ⟨Finset.mem_range.mpr hid, ranOut_iff.mpr hran⟩
    have hup := ranOut_iff.mp (Finset.mem_filter.mp (hsub hmem)).2
    exact h (hran.trans hup.symm)

/-- A text whose shorter parts are settled is settled after as many levels
    more as there are grammars that ran out of levels. -/
theorem settled_of_card_le {count depth : Nat} {text : String}
    (hparts : ∀ id part, String.utf8ByteSize part < text.utf8ByteSize →
      Settled gs (depth + 1) id part)
    (hcount : (unsettled gs (depth + 1) text).card ≤ count) (id : GrammarId) :
    Settled gs (depth + 1 + count) id text := by
  induction count generalizing depth with
  | zero =>
      refine settled_of_succ_eq hparts (fun id => ?_) id
      by_contra hne
      have := unsettled_card_lt hne
      omega
  | succ count ih =>
      by_cases hsame : ∀ id, tokenizeWithin gs (depth + 1) id text
          = tokenizeWithin gs (depth + 1 + 1) id text
      · exact (settled_of_succ_eq hparts hsame id).mono (by omega)
      · obtain ⟨a, ha⟩ := not_forall.mp hsame
        have hlt := unsettled_card_lt ha
        have hparts' : ∀ id part, String.utf8ByteSize part < text.utf8ByteSize →
            Settled gs (depth + 1 + 1) id part :=
          fun id part hpart => (hparts id part hpart).mono (Nat.le_succ _)
        exact (ih hparts' (by omega)).mono (by omega)

/-- The bytes of a text times the number of grammars are depth enough. -/
theorem settled (size : Nat) (text : String) (h : text.utf8ByteSize ≤ size) (id : GrammarId) :
    Settled gs (size * gs.length + 1) id text := by
  induction size generalizing text id with
  | zero =>
      obtain rfl : text = "" := by simpa using h
      intro more hmore
      obtain ⟨more, rfl⟩ : ∃ n, more = n + 1 := ⟨more - 1, by omega⟩
      rw [Nat.zero_mul]
      rfl
  | succ size ih =>
      have hcard : (unsettled gs (size * gs.length + 1) text).card ≤ gs.length :=
        (Finset.card_filter_le _ _).trans (Finset.card_range _).le
      have := settled_of_card_le (fun id part hpart => ih part (by omega) id) hcard id
      rw [Nat.succ_mul]
      exact this.mono (by omega)

/-- Every depth beyond the one that `tokenize` allows gives the same. -/
theorem tokenizeWithin_eq_tokenize {depth : Nat} {text : String}
    (h : text.utf8ByteSize * gs.length + 1 ≤ depth) (id : GrammarId) :
    tokenizeWithin gs depth id text = tokenize gs id text :=
  settled _ text (Nat.le_refl _) id depth h

/-- Within any depth a text has the result that `tokenize` gives, unless the
    run ran out of levels. -/
theorem tokenizeWithin_below_tokenize (depth : Nat) (id : GrammarId) (text : String) :
    Below (tokenizeWithin gs depth id text) (tokenize gs id text) := by
  have hmore : ∀ more, Below (tokenizeWithin gs depth id text)
      (tokenizeWithin gs (depth + more) id text) := by
    intro more
    induction more with
    | zero => exact .refl _
    | succ more ih =>
        rcases ih with hran | hsame
        · exact .inl hran
        · rw [hsame]
          exact tokenizeWithin_below_succ (depth + more) id text
  have hdeep := hmore (text.utf8ByteSize * gs.length + 1)
  rw [tokenizeWithin_eq_tokenize (Nat.le_add_left _ depth)] at hdeep
  exact hdeep

/-- Grammars that a bisimulation relates give every text the same result,
    however many others there are. -/
theorem tokenize_eq_of_bisimulation {hs : List Grammar} {R : GrammarId → GrammarId → Prop}
    (hR : Bisimulation gs hs R) {a b : GrammarId} (hab : R a b) (text : String) :
    tokenize gs a text = tokenize hs b text := by
  have hgs := Nat.le_max_left (text.utf8ByteSize * gs.length + 1)
    (text.utf8ByteSize * hs.length + 1)
  have hhs := Nat.le_max_right (text.utf8ByteSize * gs.length + 1)
    (text.utf8ByteSize * hs.length + 1)
  rw [← tokenizeWithin_eq_tokenize hgs a, ← tokenizeWithin_eq_tokenize hhs b]
  exact tokenizeWithin_eq_of_bisimulation hR _ hab text

end Highlighter.Tokenizer
