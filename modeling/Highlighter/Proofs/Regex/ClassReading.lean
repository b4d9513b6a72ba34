import Highlighter.Regex.CharClass
import Highlighter.Regex.Dialect

/-! # Reading classes round by round

    The reader of classes takes a token in every round.  A text from which
    it gets to a shorter one, and from one part to another, in some rounds
    is an `Advance`, and advances are put together.  There is one for a
    character, for a dash that stands for itself, for a range and for what
    a shorthand is written out to; each leaves open what follows.

    What a part `Gains` are the characters that are taken in. -/

namespace Highlighter.Regex

namespace CharClass

variable {setting : Setting} {outer : List Part} {p q r : Part} {c lo hi : Char}
  {cs ds rest : List Char}

-- ── Tokens ───────────────────────────────────────────────────────────────

/-- A text begins with a character that stands for itself, however it is
    written. -/
structure Spells (cs : List Char) (c : Char) (rest : List Char) : Prop where
  shorter : rest.length < cs.length
  tokens : ∀ asciiSpace inRange, tokens asciiSpace inRange cs = .ok ([.code c.toNat], rest)

/-- A plain character spells itself, but two ampersands are one token. -/
theorem spells_plain (h : c ∉ [']', '-', '\\', '[']) (hmeet : c = '&' → rest.head? ≠ some '&') :
    Spells (c :: rest) c rest := by
  refine ⟨Nat.lt_succ_self _, fun asciiSpace inRange => ?_⟩
  simp only [List.mem_cons, List.not_mem_nil, or_false, not_or] at h
  obtain ⟨hend, hdash, hescape, hopen⟩ := h
  rw [CharClass.tokens]
  · exact hend
  · exact hdash
  · exact hescape
  · exact fun _ h _ => hopen h
  · exact hopen
  · rintro _ rfl rfl
    exact hmeet rfl rfl

theorem spells_alphanum (h : c.isAlphanum = true) : Spells (c :: cs) c cs := by
  refine spells_plain (fun hc => ?_) fun hc => ?_
  · simp only [List.mem_cons, List.not_mem_nil, or_false] at hc
    obtain rfl | rfl | rfl | rfl := hc <;> exact nomatch h
  · subst hc
    exact nomatch h

theorem octal?_eq_none (h : c.isAlphanum = false) : Escape.octal? c = none := by
  rw [Escape.octal?, if_neg]
  rintro ⟨hlo, hhi⟩
  have hdigit : c.isDigit = true := by
    rw [Char.isDigit, Bool.and_eq_true, decide_eq_true_iff, decide_eq_true_iff]
    exact ⟨hlo, UInt32.le_trans hhi (by decide)⟩
  rw [Char.isAlphanum, hdigit, Bool.or_true] at h
  exact nomatch h

theorem set?_eq_none (h : c.isAlphanum = false) (asciiSpace : Bool) :
    Escape.set? asciiSpace c = none := by
  unfold Escape.set?
  split <;> first | rfl | exact absurd h (by decide)

theorem control?_eq_none (h : c.isAlphanum = false) : Escape.control? c = none := by
  unfold Escape.control?
  split <;> first | rfl | exact absurd h (by decide)

theorem value_quoted (h : c.isAlphanum = false) :
    Escape.value (c :: rest) = .ok (c.toNat, rest) := by
  rw [Escape.value, control?_eq_none h]
  · rfl
  all_goals intros; subst_vars; exact absurd h (by decide)

/-- Only letters and digits stand for something else behind a backslash. -/
theorem spells_quoted (h : c.isAlphanum = false) : Spells ('\\' :: c :: rest) c rest := by
  refine ⟨Nat.lt_add_of_pos_right Nat.two_pos, fun asciiSpace inRange => ?_⟩
  show escaped asciiSpace inRange (c :: rest) = _
  rw [escaped, octal?_eq_none h, set?_eq_none h, value_quoted h]
  · rfl
  all_goals intros; subst_vars; exact absurd h (by decide)

-- ── Parts ────────────────────────────────────────────────────────────────

/-- The part with a character that may begin a range. -/
def Part.withChar (p : Part) (c : Char) : Part :=
  { p with members := p.settled, item := .bound (.ofCode c.toNat) }

/-- The part with a set of characters that begins none. -/
def Part.withSet (p : Part) (s : CharSet) : Part :=
  { p with members := .union p.settled s, item := .whole }

/-- Whether a dash behind this item would begin a range.  There is no answer
    in a range, and behind a set the dash has to be the last one. -/
def Item.opens? : Item → Option Bool
  | .none => some false
  | .whole => some false
  | .bound _ => some true
  | _ => .none

theorem checkBound_char (p : Part) (c : Char) : p.checkBound (.ofCode c.toNat) = .ok () := by
  have hle : c.toNat ≤ 0x10FFFF := by
    have hvalid : c.toNat.isValidChar := c.valid
    unfold Nat.isValidChar at hvalid
    omega
  exact if_pos hle

theorem isRange_of_opens? {item : Item} {opens : Bool} (h : item.opens? = some opens) :
    item.isRange = false := by
  cases item with
  | range b => exact nomatch h
  | _ => rfl

theorem putBound_char (h : p.item.isRange = false) :
    p.putBound (.ofCode c.toNat) = .ok (p.withChar c) := by
  rw [Part.putBound, checkBound_char]
  cases hitem : p.item with
  | range b =>
      rw [hitem] at h
      exact nomatch h
  | _ => rfl

/-- What becomes of a part that takes in some characters. -/
structure Part.Gains (p q : Part) (taken : Char → Bool) : Prop where
  negated : q.negated = p.negated
  met : q.met = p.met
  settled : ∀ x, q.settled.mem x = (p.settled.mem x || taken x)

theorem Part.Gains.refl : p.Gains p fun _ => false :=
  ⟨rfl, rfl, fun _ => (Bool.or_false _).symm⟩

theorem Part.Gains.trans {s t : Char → Bool} (h : p.Gains q s) (h' : q.Gains r t) :
    p.Gains r fun x => s x || t x where
  negated := h'.negated.trans h.negated
  met := h'.met.trans h.met
  settled x := by rw [h'.settled, h.settled, Bool.or_assoc]

theorem Part.Gains.congr {s t : Char → Bool} (h : p.Gains q s) (hst : ∀ x, s x = t x) :
    p.Gains q t where
  negated := h.negated
  met := h.met
  settled x := by rw [h.settled, hst]

theorem Part.gains_withChar (p : Part) (c : Char) : p.Gains (p.withChar c) (· == c) where
  negated := rfl
  met := rfl
  settled x := by
    have hbyte : ¬ (decide (c.toNat < 0x80) = true ∧ 0x80 ≤ c.toNat) := by
      rw [decide_eq_true_iff]
      omega
    have hsettled : (p.withChar c).settled = p.settled.insert c.toNat := if_neg hbyte
    have hcode : decide (x.toNat = c.toNat) = (x == c) := decide_eq_decide.mpr Char.toNat_inj
    rw [hsettled, CharSet.insert, CharSet.mem_union, CharSet.mem_code, hcode]

theorem Part.gains_withSet (p : Part) (s : CharSet) : p.Gains (p.withSet s) s.mem where
  negated := rfl
  met := rfl
  settled _ := rfl

/-- The characters of a range. -/
def betweenChars (lo hi : Char) : CharSet := between (.ofCode lo.toNat) (.ofCode hi.toNat)

theorem mem_betweenChars (x : Char) :
    (betweenChars lo hi).mem x = (decide (lo ≤ x) && decide (x ≤ hi)) := by
  rw [betweenChars, between]
  split
  case isTrue h =>
    have hhi : hi.toNat ≤ 0x7F := Nat.le_of_lt_succ (of_decide_eq_true h.2)
    show (CharSet.range lo.toNat (Nat.min hi.toNat 0x7F)).mem x = _
    rw [show Nat.min hi.toNat 0x7F = hi.toNat from Nat.min_eq_left hhi]
    rfl
  case isFalse => rfl

-- ── Reading on ───────────────────────────────────────────────────────────

/-- Reading gets from a part to another one, and from a text to the rest
    of it, in some rounds: no more of them than characters, which is what
    the fuel is measured by. -/
def Advance (setting : Setting) (outer : List Part) (p : Part) (cs : List Char) (q : Part)
    (ds : List Char) : Prop :=
  ∃ rounds, rounds + ds.length ≤ cs.length ∧
    ∀ fuel, readOn setting (fuel + rounds) p outer [] cs = readOn setting fuel q outer [] ds

theorem Advance.refl : Advance setting outer p cs p cs :=
  ⟨0, by omega, fun _ => rfl⟩

theorem Advance.trans (h : Advance setting outer p cs q ds)
    (h' : Advance setting outer q ds r rest) : Advance setting outer p cs r rest := by
  obtain ⟨n, hn, hread⟩ := h
  obtain ⟨m, hm, hread'⟩ := h'
  refine ⟨m + n, by omega, fun fuel => ?_⟩
  rw [← Nat.add_assoc, hread, hread']

/-- One round takes a character. -/
theorem advance_bound (h : Spells cs c rest) (hput : p.putBound (.ofCode c.toNat) = .ok q) :
    Advance setting outer p cs q rest := by
  refine ⟨1, Nat.add_comm 1 _ ▸ h.shorter, fun fuel => ?_⟩
  rw [readOn, next, h.tokens]
  show (do readOn setting fuel (← p.putBound (.ofCode c.toNat)) outer [] rest) = _
  rw [hput]
  rfl

theorem advance_char (h : Spells cs c rest) (hp : p.item.isRange = false) :
    Advance setting outer p cs (p.withChar c) rest :=
  advance_bound h (putBound_char hp)

-- ── Dashes ───────────────────────────────────────────────────────────────

/-- What stands behind a dash: whether it ends the class, or a part of it. -/
def Follows (cs : List Char) (ends : Bool) : Prop :=
  ∀ asciiSpace inRange, ∃ t ts rest,
    tokens asciiSpace inRange cs = .ok (t :: ts, rest) ∧ t.endsPart = ends

theorem Spells.follows (h : Spells cs c rest) : Follows cs false :=
  fun asciiSpace inRange => ⟨_, _, _, h.tokens asciiSpace inRange, rfl⟩

theorem follows_leave : Follows (']' :: cs) true :=
  fun _ _ => ⟨_, _, _, rfl, rfl⟩

theorem follows_dash : Follows ('-' :: cs) false :=
  fun _ _ => ⟨_, _, _, rfl, rfl⟩

theorem follows_enter : Follows ('[' :: '^' :: cs) false :=
  fun _ _ => ⟨_, _, _, rfl, rfl⟩

/-- One round takes a dash, as what stands behind it says. -/
theorem advance_putDash {ends : Bool} (h : Follows cs ends) (hput : p.putDash ends = .ok q) :
    Advance setting outer p ('-' :: cs) q cs := by
  obtain ⟨t, ts, rest, htokens, rfl⟩ := h setting.asciiSpace p.item.isRange
  have hnext : next setting p [] cs = .ok (some (t, ts, rest)) := by
    rw [next, htokens]
    rfl
  refine ⟨1, Nat.le_of_eq (Nat.add_comm 1 _), fun fuel => ?_⟩
  show (do
    let following ← next setting p [] cs
    let atEnd := following.any fun f : Token × List Token × List Char => f.1.endsPart
    readOn setting fuel (← p.putDash atEnd) outer [] cs) = _
  rw [hnext]
  show (do readOn setting fuel (← p.putDash t.endsPart) outer [] cs) = _
  rw [hput]
  rfl

/-- A dash stands for itself where none begins a range, and at the end. -/
theorem putDash_char {ends opens : Bool} (hp : p.item.opens? = some opens)
    (hends : opens = true → ends = true) : p.putDash ends = .ok (p.withChar '-') := by
  have hbound : p.putBound (.ofCode '-'.toNat) = .ok (p.withChar '-') :=
    putBound_char (isRange_of_opens? hp)
  rw [Part.putDash, hbound]
  cases hitem : p.item with
  | bound b =>
      rw [hitem] at hp
      rw [hends (Option.some.inj hp).symm]
      rfl
  | set =>
      rw [hitem] at hp
      exact nomatch hp
  | _ => rfl

theorem advance_dash {ends opens : Bool} (h : Follows cs ends) (hp : p.item.opens? = some opens)
    (hends : opens = true → ends = true) :
    Advance setting outer p ('-' :: cs) (p.withChar '-') cs :=
  advance_putDash h (putDash_char hp hends)

/-- The part with a character and the dash behind it. -/
def Part.withRange (p : Part) (c : Char) : Part :=
  { p with members := p.settled, item := .range (.ofCode c.toNat) }

theorem putBound_range (h : lo ≤ hi) :
    (p.withRange lo).putBound (.ofCode hi.toNat) = .ok (p.withSet (betweenChars lo hi)) := by
  rw [Part.putBound, checkBound_char]
  exact if_pos h

/-- A dash between two characters makes a range. -/
theorem advance_range (hle : lo ≤ hi) (h : Spells cs hi rest) :
    Advance setting outer (p.withChar lo) ('-' :: cs) (p.withSet (betweenChars lo hi)) rest :=
  (advance_putDash h.follows rfl).trans (advance_bound h (putBound_range hle))

/-- So does one in front of another dash. -/
theorem advance_rangeToDash {ends : Bool} (hle : lo ≤ '-') (h : Follows cs ends) :
    Advance setting outer (p.withChar lo) ('-' :: '-' :: cs) (p.withSet (betweenChars lo '-'))
      cs := by
  have hput : (p.withRange lo).putDash ends = .ok (p.withSet (betweenChars lo '-')) :=
    putBound_range hle
  exact (advance_putDash follows_dash rfl).trans (advance_putDash h hput)

-- ── Shorthands ───────────────────────────────────────────────────────────

/-- A range of letters or digits. -/
theorem advance_interval (hp : p.item.isRange = false) (hle : lo ≤ hi)
    (hlo : lo.isAlphanum = true) (hhi : hi.isAlphanum = true) :
    Advance setting outer p (lo :: '-' :: hi :: cs) (p.withSet (betweenChars lo hi)) cs :=
  (advance_char (spells_alphanum hlo) hp).trans (advance_range hle (spells_alphanum hhi))

/-- The part with the characters of words. -/
def Part.withWord (p : Part) : Part :=
  (((p.withSet (betweenChars 'a' 'z')).withSet (betweenChars 'A' 'Z')).withSet
    (betweenChars '0' '9')).withChar '_'

theorem advance_word (hp : p.item.isRange = false) :
    Advance setting outer p (Dialect.word ++ cs) p.withWord cs := by
  have hword : Dialect.word = ['a', '-', 'z', 'A', '-', 'Z', '0', '-', '9', '_'] := rfl
  rw [hword]
  refine Advance.trans (advance_interval hp ?_ ?_ ?_) ?_
  iterate 3 decide
  refine Advance.trans (advance_interval rfl ?_ ?_ ?_) ?_
  iterate 3 decide
  refine Advance.trans (advance_interval rfl ?_ ?_ ?_) ?_
  iterate 3 decide
  exact advance_char (spells_plain (by decide) (by simp)) rfl

theorem advance_digit (hp : p.item.isRange = false) :
    Advance setting outer p (Dialect.digit ++ cs) (p.withSet (betweenChars '0' '9')) cs := by
  have hdigit : Dialect.digit = ['0', '-', '9'] := rfl
  rw [hdigit]
  exact advance_interval hp (by decide) (by decide) (by decide)

theorem bracket_append {inside : List Char} :
    Dialect.bracket true inside ++ cs = '[' :: '^' :: (inside ++ ']' :: cs) := by
  simp [Dialect.bracket]

/-- A class within the class is read on its own, and then taken in as one
    set. -/
theorem advance_bracket {inside : List Char} (hroom : outer.length + 1 < setting.room)
    (h : Advance setting (p.pause :: outer) { negated := true } (inside ++ ']' :: cs) q
      (']' :: cs)) :
    Advance setting outer p (Dialect.bracket true inside ++ cs) (p.withSet q.close.toSet) cs := by
  obtain ⟨rounds, hlength, hread⟩ := h
  rw [bracket_append]
  refine ⟨rounds + 2, ?_, fun fuel => ?_⟩
  · simp only [List.length_cons] at hlength ⊢
    omega
  · have henter : readOn setting (fuel + 1 + rounds + 1) p outer []
          ('[' :: '^' :: (inside ++ ']' :: cs))
        = readOn setting (fuel + 1 + rounds) { negated := true } (p.pause :: outer) []
          (inside ++ ']' :: cs) :=
      if_neg (Nat.not_le_of_lt hroom)
    rw [show fuel + (rounds + 2) = fuel + 1 + rounds + 1 by omega, henter, hread]
    rfl

-- ── The whole class ──────────────────────────────────────────────────────

/-- A class is read on from behind its caret, if it has one. -/
theorem read_eq {negated : Bool} (hroom : 0 < setting.room)
    (hcaret : negated = false → cs.head? ≠ some '^') :
    read setting ((if negated then ['^'] else []) ++ cs)
      = readOn setting (cs.length + 1) { negated } [] [] cs := by
  cases negated with
  | true => exact if_neg (Nat.ne_of_gt hroom)
  | false =>
      show read setting cs = _
      rw [read, if_neg (Nat.ne_of_gt hroom)]
      rintro ds rfl
      exact hcaret rfl rfl

end CharClass

end Highlighter.Regex
