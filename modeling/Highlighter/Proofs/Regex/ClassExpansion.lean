import Highlighter.Proofs.Regex.ClassLiteral
import Highlighter.Proofs.Regex.ClassReading
import Highlighter.Proofs.Regex.Retries
import Highlighter.Regex.Basic

/-! # How the engine reads an expanded class

    The engine takes in an expanded class element by element, and what it
    has taken in at the end is what the class denotes (`compile_source`).

    Two things are read differently and are not expanded.  Two ampersands
    intersect what stands on either side, so they have to be kept `Apart`.
    And a dash begins a range behind a character or behind the underscore
    that words are written out with, so that a dash which is to stand for
    itself there has to be the last element (`dashesKept`). -/

namespace Highlighter.Regex

namespace ClassLiteral

open CharClass (Advance Spells Follows betweenChars mem_betweenChars)

variable {setting : CharClass.Setting} {p q : CharClass.Part} {a b d e : Element}
  {es : List Element} {ms : List Member} {c lo hi : Char} {rest : List Char} {opening : Bool}
  {taken : Char → Bool}

-- ── Parts ────────────────────────────────────────────────────────────────

/-- Whether a dash behind an element would begin a range. -/
def Element.opens : Element → Bool
  | .short .word => true
  | .short _ => false
  | _ => true

/-- The part with what an element stands for. -/
def put (p : CharClass.Part) : Element → CharClass.Part
  | .plain c _ => p.withChar c
  | .quoted c _ => p.withChar c
  | .short .word => p.withWord
  | .short .noWord => p.withSet (CharClass.Part.withWord { negated := true }).close.toSet
  | .short .digit => p.withSet (betweenChars '0' '9')
  | .short .noDigit =>
      p.withSet (CharClass.Part.withSet { negated := true } (betweenChars '0' '9')).close.toSet

theorem opens?_put (p : CharClass.Part) (e : Element) : (put p e).item.opens? = some e.opens := by
  cases e with
  | plain c _ => rfl
  | quoted c _ => rfl
  | short s => cases s <;> rfl

theorem put_of_char? (h : e.char? = some c) : put p e = p.withChar c := by
  cases e with
  | plain d _ => cases h; rfl
  | quoted d _ => cases h; rfl
  | short s => exact nomatch h

/-- What a class stands for that has taken in some characters. -/
theorem mem_close {negated : Bool} (h : CharClass.Part.Gains { negated } q taken) (x : Char) :
    q.close.toSet.mem x = (negated != taken x) := by
  have hclose : q.close = ⟨negated, q.settled⟩ := by
    rw [CharClass.Part.close, h.negated, CharClass.Part.total, h.met]
  have hempty : (CharClass.Part.settled { negated }).mem x = false := CharSet.mem_none x
  have hmem : q.settled.mem x = taken x := by rw [h.settled, hempty, Bool.false_or]
  rw [hclose, ← hmem]
  cases negated with
  | false => exact (Bool.false_bne _).symm
  | true => exact (Bool.true_bne _).symm

theorem mem_digits (x : Char) : (betweenChars '0' '9').mem x = x.isDigit :=
  mem_betweenChars x

theorem gains_withWord (p : CharClass.Part) : p.Gains p.withWord Shorthand.word.mem := by
  have hgains := (((p.gains_withSet (betweenChars 'a' 'z')).trans
    (CharClass.Part.gains_withSet _ (betweenChars 'A' 'Z'))).trans
    (CharClass.Part.gains_withSet _ (betweenChars '0' '9'))).trans
    (CharClass.Part.gains_withChar _ '_')
  refine hgains.congr fun x => ?_
  have hlower : (betweenChars 'a' 'z').mem x = x.isLower := mem_betweenChars x
  have hupper : (betweenChars 'A' 'Z').mem x = x.isUpper :=
    (mem_betweenChars x).trans (Bool.decide_and _ _).symm
  rw [hlower, hupper, mem_digits, Bool.or_comm x.isLower]
  rfl

theorem gains_put (p : CharClass.Part) (e : Element) : p.Gains (put p e) e.mem := by
  cases e with
  | plain c _ => exact p.gains_withChar c
  | quoted c _ => exact p.gains_withChar c
  | short s =>
    cases s with
    | word => exact gains_withWord p
    | digit => exact (p.gains_withSet _).congr mem_digits
    | noWord =>
        exact (p.gains_withSet _).congr fun x =>
          (mem_close (gains_withWord _) x).trans (Bool.true_bne _)
    | noDigit =>
        have hdigits := (CharClass.Part.gains_withSet { negated := true } _).congr mem_digits
        exact (p.gains_withSet _).congr fun x => (mem_close hdigits x).trans (Bool.true_bne _)

-- ── Texts ────────────────────────────────────────────────────────────────

/-- No two ampersands stand next to each other as they are. -/
def Apart (es : List Element) : Prop :=
  es.IsChain fun a b => ¬ (a.isPlain '&' = true ∧ b.isPlain '&' = true)

instance : DecidablePred Apart := fun es => inferInstanceAs (Decidable (es.IsChain _))

theorem Apart.tail (h : Apart (e :: es)) : Apart es := List.IsChain.tail h

/-- The text of expanded elements, up to the end of the class and on. -/
def text (es : List Element) (rest : List Char) : List Char :=
  es.flatMap Element.expanded ++ ']' :: rest

theorem text_cons : text (e :: es) rest = e.expanded ++ text es rest := by
  rw [text, List.flatMap_cons, List.append_assoc, text]

theorem text_dash (h : e.isDash = true) : text (e :: es) rest = '-' :: text es rest := by
  obtain ⟨ordinary, rfl⟩ := e.eq_plain_of_isPlain h
  exact text_cons

/-- A class that is not negated does not look so. -/
theorem head?_text_ne_caret (l : ClassLiteral) (h : l.negated = false) :
    (text l.elements rest).head? ≠ some '^' := by
  have hcaret := l.caret h
  intro hhead
  cases hes : l.elements with
  | nil =>
      rw [hes] at hhead
      exact absurd (Option.some.inj hhead) (by decide)
  | cons e es =>
      rw [hes, text_cons] at hhead
      have hplain := Element.isPlain_of_head? (by decide) (by decide) (by decide) hhead
      rw [hes, List.head?_cons, Option.all_some, hplain] at hcaret
      exact nomatch hcaret

theorem head?_text_ne_ampersand (hapart : Apart (e :: es)) (h : e.isPlain '&' = true) :
    (text es rest).head? ≠ some '&' := by
  intro hhead
  cases es with
  | nil => exact absurd (Option.some.inj hhead) (by decide)
  | cons a es =>
      rw [text_cons] at hhead
      have hplain := Element.isPlain_of_head? (by decide) (by decide) (by decide) hhead
      exact (List.isChain_cons_cons.mp hapart).1 ⟨h, hplain⟩

theorem spells_text (hchar : e.char? = some c) (hdash : e.isDash = false)
    (hapart : Apart (e :: es)) : Spells (text (e :: es) rest) c (text es rest) := by
  rw [text_cons]
  cases e with
  | short s => exact nomatch hchar
  | quoted d ordinary =>
      obtain rfl := Option.some.inj hchar
      exact CharClass.spells_quoted ordinary
  | plain d ordinary =>
      obtain rfl := Option.some.inj hchar
      by_cases hopen : d = '['
      · subst hopen
        exact CharClass.spells_quoted (by decide)
      · have hne : d ≠ '-' := ne_of_beq_false hdash
        rw [Element.expanded, if_neg hopen]
        refine CharClass.spells_plain ?_ fun hd => ?_
        · simp [ordinary, hne, hopen]
        · exact head?_text_ne_ampersand hapart (beq_iff_eq.mpr hd)

/-- A dash in front of the text is at the end only if no elements follow. -/
theorem follows_text (hapart : Apart es) : Follows (text es rest) es.isEmpty := by
  cases es with
  | nil => exact CharClass.follows_leave
  | cons e es =>
    obtain hdash | ⟨c, hchar, hdash⟩ | ⟨s, rfl⟩ := e.dash_or_char_or_short
    · exact text_dash hdash ▸ CharClass.follows_dash
    · exact (spells_text hchar hdash hapart).follows
    · rw [text_cons]
      cases s with
      | word => exact (CharClass.spells_alphanum (by decide)).follows
      | digit => exact (CharClass.spells_alphanum (by decide)).follows
      | noWord => exact CharClass.follows_enter
      | noDigit => exact CharClass.follows_enter

-- ── Elements ─────────────────────────────────────────────────────────────

/-- The engine takes in an element, whatever follows. -/
theorem advance_element (hroom : 1 < setting.room) (hapart : Apart (e :: es))
    (hp : p.item.opens? = some opening) (hdash : e.isDash = true → opening = true → es = []) :
    Advance setting [] p (text (e :: es) rest) (put p e) (text es rest) := by
  have hrange := CharClass.isRange_of_opens? hp
  obtain he | ⟨c, hchar, he⟩ | ⟨s, rfl⟩ := e.dash_or_char_or_short
  · obtain ⟨ordinary, rfl⟩ := e.eq_plain_of_isPlain he
    rw [text_dash he]
    exact CharClass.advance_dash (follows_text hapart.tail) hp fun ho =>
      List.isEmpty_iff.mpr (hdash he ho)
  · rw [put_of_char? hchar]
    exact CharClass.advance_char (spells_text hchar he hapart) hrange
  · rw [text_cons]
    cases s with
    | word => exact CharClass.advance_word hrange
    | digit => exact CharClass.advance_digit hrange
    | noWord => exact CharClass.advance_bracket hroom (CharClass.advance_word rfl)
    | noDigit => exact CharClass.advance_bracket hroom (CharClass.advance_digit rfl)

/-- The elements up to the end of the class are taken in as these
    characters. -/
def Takes (setting : CharClass.Setting) (rest : List Char) (p : CharClass.Part)
    (es : List Element) (taken : Char → Bool) : Prop :=
  ∃ q, Advance setting [] p (text es rest) q (']' :: rest) ∧ p.Gains q taken

theorem takes_nil : Takes setting rest p [] fun _ => false :=
  ⟨p, Advance.refl, .refl⟩

theorem takes_one (hroom : 1 < setting.room) (hapart : Apart (e :: es))
    (hp : p.item.opens? = some opening) (hdash : e.isDash = true → opening = true → es = [])
    (h : Takes setting rest (put p e) es taken) :
    Takes setting rest p (e :: es) fun x => e.mem x || taken x := by
  obtain ⟨q, hadvance, hgains⟩ := h
  exact ⟨q, (advance_element hroom hapart hp hdash).trans hadvance, (gains_put p e).trans hgains⟩

theorem takes_range (hroom : 1 < setting.room) (hapart : Apart (a :: d :: b :: es))
    (hp : p.item.opens? = some opening) (hbare : a.isDash = true → opening = false)
    (hd : d.isDash = true) (hlo : a.char? = some lo) (hhi : b.char? = some hi) (hle : lo ≤ hi)
    (h : Takes setting rest (p.withSet (betweenChars lo hi)) es taken) :
    Takes setting rest p (a :: d :: b :: es) fun x =>
      (Member.range a.isDash lo hi).mem x || taken x := by
  obtain ⟨q, hadvance, hgains⟩ := h
  have hfirst : Advance setting [] p (text (a :: d :: b :: es) rest) (p.withChar lo)
      ('-' :: text (b :: es) rest) := by
    rw [← text_dash hd, ← put_of_char? hlo]
    exact advance_element hroom hapart hp fun ha ho => absurd (hbare ha) (by simp [ho])
  have hsecond : Advance setting [] (p.withChar lo) ('-' :: text (b :: es) rest)
      (p.withSet (betweenChars lo hi)) (text es rest) := by
    cases hb : b.isDash with
    | false => exact CharClass.advance_range hle (spells_text hhi hb hapart.tail.tail)
    | true =>
        -- the dash at the end of a range is a token of its own kind
        obtain ⟨ordinary, rfl⟩ := b.eq_plain_of_isPlain hb
        obtain rfl : '-' = hi := Option.some.inj hhi
        exact CharClass.advance_rangeToDash hle (follows_text hapart.tail.tail.tail)
  exact ⟨q, (hfirst.trans hsecond).trans hadvance,
    ((p.gains_withSet _).congr mem_betweenChars).trans hgains⟩

-- ── Members ──────────────────────────────────────────────────────────────

/-- Whether every dash is read as it is meant.  Where one would begin a
    range for the engine, only the last element may be a dash; `opening`
    says whether it would in front. -/
def dashesKept : (opening : Bool) → List Member → Bool
  | _, [] => true
  | opening, .one e :: ms => (!(opening && e.isDash) || ms.isEmpty) && dashesKept e.opens ms
  | opening, .range bare _ _ :: ms => !(opening && bare) && dashesKept false ms

theorem dashesKept_one (h : dashesKept opening (.one e :: ms) = true) :
    (e.isDash = true → opening = true → ms = []) ∧ dashesKept e.opens ms = true := by
  rw [dashesKept, Bool.and_eq_true] at h
  refine ⟨fun he ho => ?_, h.2⟩
  have hend := h.1
  rw [he, ho] at hend
  exact List.isEmpty_iff.mp hend

theorem dashesKept_range {bare : Bool}
    (h : dashesKept opening (.range bare lo hi :: ms) = true) :
    (bare = true → opening = false) ∧ dashesKept false ms = true := by
  rw [dashesKept, Bool.and_eq_true] at h
  refine ⟨fun hb => ?_, h.2⟩
  have hnot := h.1
  rw [hb, Bool.and_true, Bool.not_eq_true'] at hnot
  exact hnot

/-- A class without members has no elements. -/
theorem eq_nil_of_members? (h : members? es = some []) : es = [] := by
  fun_cases members? es with
  | case1 => rfl
  | case2 a => exact nomatch h
  | case3 a b => exact nomatch h
  | _ => simp_all [members?]

/-- What is taken in up to the end of the class are its members.  The
    induction is on how they are read; between two of them no range waits
    for its end. -/
theorem takes_members (hroom : 1 < setting.room) (hms : members? es = some ms)
    (hapart : Apart es) (hp : p.item.opens? = some opening)
    (hkept : dashesKept opening ms = true) :
    Takes setting rest p es fun x => ms.any (·.mem x) := by
  fun_induction members? es generalizing ms p opening with
  | case1 =>
      obtain rfl := Option.some.inj hms
      exact takes_nil
  | case2 a =>
      obtain rfl := Option.some.inj hms
      exact takes_one hroom hapart hp (fun _ _ => rfl) takes_nil
  | case3 a b =>
      obtain rfl := Option.some.inj hms
      obtain ⟨ha, hkept⟩ := dashesKept_one hkept
      refine takes_one hroom hapart hp (fun hd ho => nomatch ha hd ho) ?_
      exact takes_one hroom hapart.tail (opens?_put p a) (fun _ _ => rfl) takes_nil
  | case4 a d b es hd lo hi hhi hlo hle ih =>
      obtain ⟨ns, hns, rfl⟩ := Option.map_eq_some_iff.mp hms
      obtain ⟨hbare, hkept⟩ := dashesKept_range hkept
      exact takes_range hroom hapart hp hbare hd hlo hhi hle
        (ih hns hapart.tail.tail.tail rfl hkept)
  | case5 => exact nomatch hms
  | case6 a d b es hd hchars ih =>
      -- a dash next to a shorthand: three members, each taken in alone
      obtain ⟨ns, hns, rfl⟩ := Option.map_eq_some_iff.mp hms
      obtain ⟨ha, hkept⟩ := dashesKept_one hkept
      obtain ⟨hd, hkept⟩ := dashesKept_one hkept
      obtain ⟨hb, hkept⟩ := dashesKept_one hkept
      refine takes_one hroom hapart hp (fun hdash ho => nomatch ha hdash ho) ?_
      refine takes_one hroom hapart.tail (opens?_put p a) (fun hdash ho => nomatch hd hdash ho) ?_
      refine takes_one hroom hapart.tail.tail (opens?_put _ d) (fun hdash ho => ?_) ?_
      · have hnone : ns = [] := hb hdash ho
        exact eq_nil_of_members? (hnone ▸ hns)
      · exact ih hns hapart.tail.tail.tail (opens?_put _ b) hkept
  | case7 a d b es hd ih =>
      obtain ⟨ns, hns, rfl⟩ := Option.map_eq_some_iff.mp hms
      obtain ⟨ha, hkept⟩ := dashesKept_one hkept
      refine takes_one hroom hapart hp (fun hdash ho => ?_) ?_
      · exact eq_nil_of_members? (ha hdash ho ▸ hns)
      · exact ih hns hapart.tail (opens?_put p a) hkept

/-- The engine reads the class from behind its opening bracket. -/
theorem read_text {l : ClassLiteral} (setting : CharClass.Setting) (rest : List Char)
    (hroom : 1 < setting.room) (hapart : Apart l.elements)
    (hkept : dashesKept false l.members = true) :
    ∃ cls, CharClass.read setting ((if l.negated then ['^'] else []) ++ text l.elements rest)
        = .ok (cls, rest) ∧ cls.toSet.mem = l.mem := by
  have htakes : Takes setting rest { negated := l.negated } l.elements
      fun x => l.members.any (·.mem x) :=
    takes_members hroom l.members?_eq hapart rfl hkept
  obtain ⟨q, ⟨rounds, hlength, hread⟩, hgains⟩ := htakes
  refine ⟨q.close, ?_, funext (mem_close hgains)⟩
  obtain ⟨fuel, hfuel⟩ : ∃ fuel, (text l.elements rest).length + 1 = fuel + 1 + rounds := by
    rw [List.length_cons] at hlength
    exact ⟨(text l.elements rest).length - rounds, by omega⟩
  rw [CharClass.read_eq (by omega) (head?_text_ne_caret l), hfuel, hread]
  rfl

end ClassLiteral

-- ── Programs ─────────────────────────────────────────────────────────────

/-- A program that matches one character out of some, wherever the text
    has one. -/
def Program.MatchesOne (p : Program) (mem : Char → Bool) : Prop :=
  ∀ text pos,
    p.matchAt text pos = .ok ((text[pos]?.filter mem).map fun _ => ⟨pos, pos + 1, none⟩)

theorem matchesOne_set (s : CharSet) :
    Program.MatchesOne { expr := .one s, groups := 0 } s.mem := by
  intro text pos
  rw [Program.matchAt_of_not_longest rfl, Program.run, matcher_one s rfl]
  cases hc : text[pos]?.filter s.mem with
  | none =>
      rw [show text[(MatchState.start 0 text.size pos).pos]?.filter s.mem = none from hc]
      rfl
  | some c =>
      rw [show text[(MatchState.start 0 text.size pos).pos]?.filter s.mem = some c from hc]
      rfl

/-- A pattern that is a class and nothing else. -/
theorem compileChars_class {flags : Flags} {source inside : List Char} {cls : CharClass}
    (hcase : flags.ignoreCase = false) (hexpand : Dialect.expand flags source = '[' :: inside)
    (hread : CharClass.read { room := Reader.maxDepth - 2 } inside = .ok (cls, [])) :
    compileChars source flags = .ok { expr := .one cls.toSet, groups := 0 } := by
  let start : Reader := { frame := { kind := .whole, around := flags.modes }, modes := flags.modes }
  have hcasing : start.casing = .exact := by
    have hexact : start.modes.ignoreCase = false := hcase
    rw [Reader.casing, hexact]
    rfl
  have hsetting : CharClass.read
      { asciiSpace := start.modes.asciiSpace, room := Reader.maxDepth - start.depth } inside
        = .ok (cls, []) := hread
  have hstep : start.step '[' inside = .ok (start.push (.set cls.toSet), []) := by
    show start.pushClass inside = _
    rw [Reader.pushClass, hsetting]
    show Except.ok (start.push (.ofClass start.casing cls), []) = _
    rw [hcasing]
    rfl
  have hon : start.readOn (inside.length + 1) ('[' :: inside)
      = .ok (.set cls.toSet, start.push (.set cls.toSet)) := by
    rw [Reader.readOn, hstep]
    show (start.push (.set cls.toSet)).readOn inside.length [] = _
    rw [Reader.readOn]
    rfl
  have hwhole : Reader.read flags.modes ('[' :: inside)
      = .ok { tree := .set cls.toSet, groups := 0, longest := false } := by
    rw [Reader.read, List.length_cons, hon]
    rfl
  rw [compileChars, hexpand, hwhole]
  rfl

namespace ClassLiteral

variable {flags : Flags}

/-- The empty class is expanded to an assertion that never holds. -/
theorem compileChars_nothing (hcase : flags.ignoreCase = false) :
    ∃ p, compileChars ['[', ']'] flags = .ok p ∧ p.MatchesOne fun _ => false := by
  refine ⟨{ expr := .ahead true .empty, groups := 0 }, ?_, fun text pos => ?_⟩
  · obtain ⟨g, i, m, s, u, y⟩ := flags
    obtain rfl : i = false := hcase
    rfl
  · cases text[pos]? <;> rfl

/-- The class of all characters is expanded to white space and all else. -/
theorem compileChars_anything (hcase : flags.ignoreCase = false) :
    ∃ p, compileChars ['[', '^', ']'] flags = .ok p ∧ p.MatchesOne fun _ => true := by
  let cls : CharClass := ⟨false, .union (.union .none .space) (.compl .space)⟩
  have hcompile : compileChars ['[', '^', ']'] flags
      = .ok { expr := .one cls.toSet, groups := 0 } :=
    compileChars_class hcase rfl rfl
  have hmem : cls.toSet.mem = fun _ => true := by
    funext x
    show ((CharSet.none.mem x || CharSet.space.mem x) || !CharSet.space.mem x) = true
    rw [Bool.or_assoc, Bool.or_not_self, Bool.or_true]
  exact ⟨_, hcompile, hmem ▸ matchesOne_set cls.toSet⟩

/-- A class compiles, and matches the characters it denotes and no others,
    if its ampersands stand apart and no dash that stands for itself is in
    the place of one that would begin a range. -/
theorem compile_source {l : ClassLiteral} (hcase : flags.ignoreCase = false)
    (hapart : Apart l.elements) (hkept : dashesKept false l.members = true) :
    ∃ p, compile (String.ofList l.source) flags = .ok p ∧ p.MatchesOne l.mem := by
  rw [compile, String.toList_ofList]
  by_cases hempty : l.elements = []
  · obtain ⟨negated, elements, caret, ordered⟩ := l
    obtain rfl : elements = [] := hempty
    cases negated with
    | false => exact compileChars_nothing hcase
    | true => exact compileChars_anything hcase
  · obtain ⟨cls, hread, hmem⟩ :=
      read_text { room := Reader.maxDepth - 2 } [] (by decide) hapart hkept
    have hexpand : Dialect.expand flags l.source
        = '[' :: ((if l.negated then ['^'] else []) ++ text l.elements []) := by
      rw [expand_source l hempty, Dialect.bracket, List.append_assoc]
      rfl
    exact ⟨_, compileChars_class hcase hexpand hread, hmem ▸ matchesOne_set cls.toSet⟩

/-- A class with a bit of everything. -/
def mixed : ClassLiteral where
  negated := true
  elements :=
    [.short .digit, .plain '-' (by decide), .plain 'a' (by decide), .plain '[' (by decide),
      .quoted ']' (by decide), .plain '&' (by decide), .quoted '-' (by decide),
      .plain 't' (by decide), .plain '-' (by decide), .plain 'z' (by decide),
      .plain '-' (by decide)]
  caret := by decide
  ordered := by decide

theorem compile_source_of_mixed :
    ∃ p, compile "[^\\d-a[\\]&\\-t-z-]" {} = .ok p ∧ p.matchAt #['b'] 0 = .ok (some ⟨0, 1, none⟩)
      ∧ p.matchAt #['u'] 0 = .ok none ∧ p.matchAt #['-'] 0 = .ok none := by
  have hcompile : ∃ p, compile (String.ofList mixed.source) {} = .ok p ∧ p.MatchesOne mixed.mem :=
    compile_source rfl (by decide) (by decide)
  obtain ⟨p, hp, hone⟩ := hcompile
  exact ⟨p, hp, hone _ _, hone _ _, hone _ _⟩

/-- A dash behind the characters of words, as in `[\w-.]`. -/
def wordDash : ClassLiteral where
  negated := false
  elements := [.short .word, .plain '-' (by decide), .plain '.' (by decide)]
  caret := by decide
  ordered := by decide

/-- Two ampersands, as in `[a&&b]`. -/
def ampersands : ClassLiteral where
  negated := false
  elements :=
    [.plain 'a' (by decide), .plain '&' (by decide), .plain '&' (by decide), .plain 'b' (by decide)]
  caret := by decide
  ordered := by decide

/-- Without the conditions the one does not compile, for the full stop is
    in front of the underscore, and the other one matches nothing. -/
theorem compile_source_misread :
    (¬ ∃ p, compile (String.ofList wordDash.source) {} = .ok p ∧ p.MatchesOne wordDash.mem)
      ∧ ¬ ∃ p, compile (String.ofList ampersands.source) {} = .ok p
        ∧ p.MatchesOne ampersands.mem := by
  constructor
  · rintro ⟨p, hp, -⟩
    have herror : compile (String.ofList wordDash.source) {} = .error .emptyRange := by rfl
    rw [herror] at hp
    exact nomatch hp
  · rintro ⟨p, hp, hone⟩
    have hnone : (compile (String.ofList ampersands.source) {}).map (·.matchAt #['a'] 0)
        = .ok (.ok none) := by
      rfl
    rw [hp] at hnone
    exact nomatch (hone #['a'] 0).symm.trans (Except.ok.inj hnone)

end ClassLiteral

end Highlighter.Regex
