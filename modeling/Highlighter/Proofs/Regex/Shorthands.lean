import Highlighter.Proofs.Regex.AsciiFolding
import Highlighter.Proofs.Regex.ClassExpansion

/-! # Shorthands and word boundaries

    Outside of classes a shorthand is expanded to a class of ASCII, and a
    word boundary to looks at the characters on both sides.  The engine
    takes in either of them as one piece, wherever it stands
    (`Reader.Takes`), and the piece matches what `Tree.ActsAs` says.

    Without the `i` flag this is ASCII.  With it the engine goes by the case
    foldings of Unicode, so that the long s and the Kelvin sign are word
    characters too, for shorthands and for boundaries
    (`compile_shorthands`). -/

namespace Highlighter.Regex

open CharClass (Advance betweenChars)

variable {r r' r'' : Reader} {c : Char} {cs ds rest : List Char}

-- ── Meaning ──────────────────────────────────────────────────────────────

namespace Shorthand

/-- Whether a shorthand stands for a character where letters match in
    either case or not.  In either case two letters beyond ASCII, the long s
    and the Kelvin sign, are those that fold to a letter of ASCII. -/
def memUnder (ignoreCase : Bool) : Shorthand → Char → Bool
  | .word, c => word.mem c || ignoreCase && (c == '\u017f' || c == '\u212a')
  | .noWord, c => !(word.mem c || ignoreCase && (c == '\u017f' || c == '\u212a'))
  | .digit, c => digit.mem c
  | .noDigit, c => !digit.mem c

end Shorthand

/-- Whether just one of the characters around a position is in a set; at an
    end of the text there is only one character. -/
def oneSided (mem : Char → Bool) (text : Haystack) (pos : Nat) : Bool :=
  (decide (0 < pos) && text[pos - 1]?.any mem) != text[pos]?.any mem

namespace Reader

-- ── Reading on ───────────────────────────────────────────────────────────

/-- The reader gets from a state to another one, and from a text to the
    rest of it, in no more steps than it takes in characters. -/
def Reads (r : Reader) (cs : List Char) (r' : Reader) (ds : List Char) : Prop :=
  ∃ steps, steps + ds.length ≤ cs.length ∧
    ∀ fuel, r.readOn (fuel + steps) cs = r'.readOn fuel ds

theorem Reads.trans (h : r.Reads cs r' ds) (h' : r'.Reads ds r'' rest) : r.Reads cs r'' rest := by
  obtain ⟨n, hn, hread⟩ := h
  obtain ⟨m, hm, hread'⟩ := h'
  refine ⟨m + n, by omega, fun fuel => ?_⟩
  rw [← Nat.add_assoc, hread, hread']

theorem reads_of_step (h : r.step c cs = .ok (r', ds)) (hlength : ds.length ≤ cs.length) :
    r.Reads (c :: cs) r' ds := by
  refine ⟨1, ?_, fun fuel => ?_⟩
  · rw [List.length_cons]
    omega
  · rw [readOn, h]
    rfl

/-- The reader with a piece more in the current alternative. -/
def take (r : Reader) (p : Piece) : Reader := r.withPieces (p :: r.frame.pieces)

/-- The reader takes in a text as one piece, whatever follows. -/
def Takes (r : Reader) (cs : List Char) (p : Piece) : Prop :=
  ∀ rest, r.Reads (cs ++ rest) (r.take p) rest

-- ── Steps ────────────────────────────────────────────────────────────────

/-- Brackets and bars are never skipped, not even where blanks are. -/
theorem step_open (r : Reader) (cs : List Char) : r.step '(' cs = r.openGroup cs := by
  rw [step]
  cases r.modes.extended <;> rfl

theorem step_class (r : Reader) (cs : List Char) : r.step '[' cs = r.pushClass cs := by
  rw [step]
  cases r.modes.extended <;> rfl

theorem step_bar (r : Reader) (cs : List Char) : r.step '|' cs = .ok (r.nextChoice, cs) := by
  rw [step]
  cases r.modes.extended <;> rfl

theorem step_close (h : r.leave r.outer = some r') : r.step ')' cs = .ok (r', cs) := by
  rw [step]
  cases r.modes.extended <;> exact h ▸ rfl

-- ── Groups ───────────────────────────────────────────────────────────────

/-- The reader in a group that it opens, with these alternatives and these
    pieces of the current one so far. -/
def within (r : Reader) (kind : GroupKind) (choices : List Tree) (pieces : List Piece) : Reader :=
  { r with frame := { kind, around := r.modes, choices, pieces }, outer := r.frame :: r.outer }

theorem reads_open {head : List Char} {kind : GroupKind}
    (hhead : ∀ cs, r.openGroup (head ++ cs) = r.enterKind kind cs)
    (hroom : r.depth + 2 ≤ maxDepth) (cs : List Char) :
    r.Reads ('(' :: (head ++ cs)) (r.within kind [] []) cs := by
  refine reads_of_step ?_ ?_
  · have henter : r.enter kind r.modes = .ok (r.within kind [] []) := by
      refine if_neg (Nat.not_lt_of_le ?_)
      show 2 + 2 * (r.outer.length + 1) ≤ maxDepth
      rw [depth] at hroom
      omega
    rw [step_open, hhead, enterKind, henter]
    rfl
  · rw [List.length_append]
    omega

theorem reads_close {kind : GroupKind} (hkind : kind ≠ .modes) (choices : List Tree)
    (pieces : List Piece) (cs : List Char) :
    (r.within kind choices pieces).Reads (')' :: cs)
      (r.take (Frame.close { kind, around := r.modes, choices, pieces })) cs :=
  reads_of_step (step_close (if_neg hkind)) (Nat.le_refl _)

end Reader

-- ── Classes ──────────────────────────────────────────────────────────────

namespace Shorthand

/-- Whether a shorthand stands for what is not listed. -/
def negated : Shorthand → Bool
  | .word => false
  | .noWord => true
  | .digit => false
  | .noDigit => true

/-- What is listed. -/
def listed : Shorthand → Shorthand
  | .word => .word
  | .noWord => .word
  | .digit => .digit
  | .noDigit => .digit

/-- The members of the class that a shorthand is expanded to. -/
def members : Shorthand → List Char
  | .word => Dialect.word
  | .noWord => Dialect.word
  | .digit => Dialect.digit
  | .noDigit => Dialect.digit

theorem escape_letter (s : Shorthand) :
    Dialect.escape false s.letter = Dialect.bracket s.negated s.members := by
  cases s <;> rfl

/-- What the reader of classes has taken in at the end of it. -/
def part (s : Shorthand) : CharClass.Part :=
  match s.listed with
  | .digit => CharClass.Part.withSet { negated := s.negated } (betweenChars '0' '9')
  | _ => CharClass.Part.withWord { negated := s.negated }

theorem advance_part (s : Shorthand) (setting : CharClass.Setting) (cs : List Char) :
    Advance setting [] { negated := s.negated } (s.members ++ cs) s.part cs := by
  cases s with
  | word => exact CharClass.advance_word rfl
  | noWord => exact CharClass.advance_word rfl
  | digit => exact CharClass.advance_digit rfl
  | noDigit => exact CharClass.advance_digit rfl

theorem gains_part (s : Shorthand) :
    CharClass.Part.Gains { negated := s.negated } s.part s.listed.mem := by
  have hdigits := fun p => (CharClass.Part.gains_withSet p (betweenChars '0' '9')).congr
    ClassLiteral.mem_digits
  cases s with
  | word => exact ClassLiteral.gains_withWord _
  | noWord => exact ClassLiteral.gains_withWord _
  | digit => exact hdigits _
  | noDigit => exact hdigits _

theorem read_part (s : Shorthand) {setting : CharClass.Setting} (hroom : 0 < setting.room)
    (rest : List Char) :
    CharClass.read setting ((if s.negated then ['^'] else []) ++ (s.members ++ ']' :: rest))
      = .ok (s.part.close, rest) := by
  obtain ⟨rounds, hlength, hread⟩ := s.advance_part setting (']' :: rest)
  obtain ⟨fuel, hfuel⟩ : ∃ fuel,
      (s.members ++ ']' :: rest).length + 1 = fuel + 1 + rounds :=
    ⟨(s.members ++ ']' :: rest).length - rounds, by rw [List.length_cons] at hlength; omega⟩
  rw [CharClass.read_eq hroom fun _ => by cases s <;> exact (nomatch ·), hfuel, hread]
  rfl

/-- The characters of the class. -/
def set (ignoreCase : Bool) (s : Shorthand) : CharSet :=
  let members := s.part.settled
  CharClass.toSet ⟨s.negated, if ignoreCase then .anyCase members else members⟩

theorem mem_settled (s : Shorthand) : s.part.settled.mem = s.listed.mem := by
  funext x
  rw [s.gains_part.settled]
  exact (congrArg (· || _) (CharSet.mem_none x)).trans (Bool.false_or _)

theorem ascii_settled (s : Shorthand) : CharSet.Ascii s.part.settled.mem := by
  rw [mem_settled]
  cases s with
  | word => exact ascii_word
  | noWord => exact ascii_word
  | digit => exact ascii_digit
  | noDigit => exact ascii_digit

theorem mem_members (ignoreCase : Bool) (s : Shorthand) (x : Char) :
    (if ignoreCase then .anyCase s.part.settled else s.part.settled).mem x
      = s.listed.memUnder ignoreCase x := by
  have hs : word.mem 's' = true ∧ word.mem 'k' = true := by decide
  have hnot : digit.mem 's' = false ∧ digit.mem 'k' = false := by decide
  cases ignoreCase with
  | false =>
      rw [if_neg Bool.false_ne_true, mem_settled]
      cases s <;> simp [listed, memUnder]
  | true =>
      rw [if_pos rfl, CharSet.mem_anyCase s.ascii_settled, mem_settled]
      cases s <;> simp [listed, memUnder, hs, hnot]

theorem mem_set (ignoreCase : Bool) (s : Shorthand) :
    (s.set ignoreCase).mem = s.memUnder ignoreCase := by
  funext x
  have hmem := mem_members ignoreCase s x
  cases s with
  | word => exact hmem
  | noWord => exact congrArg not hmem
  | digit => exact hmem
  | noDigit => exact congrArg not hmem

theorem close_part (s : Shorthand) : s.part.close = ⟨s.negated, s.part.settled⟩ := by
  cases s <;> rfl

/-- In either case the class is one set as well: no member of it has a
    longer folding. -/
theorem ofClass_part (s : Shorthand) (h : r.asciiCase = false) :
    Tree.ofClass r.casing s.part.close = .set (s.set r.modes.ignoreCase) := by
  rw [close_part, Reader.casing, h]
  cases r.modes.ignoreCase with
  | false => rfl
  | true =>
      show (if s.negated then _ else _) = _
      rw [CharSet.expansions_eq_nil s.ascii_settled]
      exact ite_self _

/-- The reader takes in a shorthand as one set. -/
theorem takes (s : Shorthand) (hcase : r.asciiCase = false) (hroom : r.depth < Reader.maxDepth) :
    r.Takes (Dialect.escape false s.letter) (.part (.set (s.set r.modes.ignoreCase)) false 0) := by
  intro rest
  have htext : Dialect.escape false s.letter ++ rest
      = '[' :: ((if s.negated then ['^'] else []) ++ (s.members ++ ']' :: rest)) := by
    simp only [escape_letter, Dialect.bracket, List.cons_append, List.append_assoc,
      List.nil_append]
  rw [htext]
  refine Reader.reads_of_step ?_ ?_
  · rw [Reader.step_class, Reader.pushClass, s.read_part (Nat.sub_pos_of_lt hroom)]
    show Except.ok (r.push (.ofClass r.casing s.part.close), rest) = _
    rw [s.ofClass_part hcase]
    rfl
  · simp only [List.length_append, List.length_cons]
    omega

end Shorthand

-- ── Boundaries ───────────────────────────────────────────────────────────

/-- A look at the character in front or behind, for one of a set. -/
def Tree.behindOne (negated : Bool) (s : CharSet) : Tree :=
  .behind negated (.between 0 none) (.set s)

/-- Looks at both sides: a word character on just one of them, or on both
    of them or none if `negated`. -/
def Tree.sides (negated : Bool) (s : CharSet) : Tree :=
  .alt [.seq [.behindOne false s, .ahead (!negated) (.set s)],
    .seq [.behindOne true s, .ahead negated (.set s)]]

namespace Reader

/-- The reader takes in a look at a word character as one piece. -/
theorem takes_look {head : String} (opening : List Char) (kind : GroupKind)
    (hhead : head.toList = '(' :: opening) (hkind : kind ≠ .modes)
    (hopen : ∀ cs, r.openGroup (opening ++ cs) = r.enterKind kind cs)
    (hcase : r.asciiCase = false) (hroom : r.depth + 2 < maxDepth) :
    r.Takes (Dialect.look head)
      (.part (kind.close (.set (Shorthand.word.set r.modes.ignoreCase))) true 0) := by
  intro rest
  have htext : Dialect.look head ++ rest
      = '(' :: (opening ++ (Dialect.escape false Shorthand.word.letter ++ ')' :: rest)) := by
    simp only [Dialect.look, hhead, List.cons_append, List.append_assoc, List.nil_append]
    rfl
  rw [htext]
  refine (reads_open hopen (Nat.le_of_lt hroom) _).trans ?_
  have hinside : (r.within kind [] []).asciiCase = false := hcase
  refine Reads.trans (Shorthand.takes .word hinside ?_ _) (reads_close hkind [] _ rest)
  rw [depth] at hroom ⊢
  exact hroom

/-- The text of a look at what is in front. -/
def lookBehind (negated : Bool) : List Char := Dialect.look (if negated then "(?<!" else "(?<=")

/-- The text of a look at what is behind. -/
def lookAhead (negated : Bool) : List Char := Dialect.look (if negated then "(?!" else "(?=")

theorem takes_lookBehind (negated : Bool) (hcase : r.asciiCase = false)
    (hroom : r.depth + 2 < maxDepth) :
    r.Takes (lookBehind negated)
      (.part (.behindOne negated (Shorthand.word.set r.modes.ignoreCase)) true 0) := by
  cases negated with
  | false =>
      exact takes_look ['?', '<', '='] (.behind false) rfl nofun
        (fun _ => rfl) hcase hroom
  | true =>
      exact takes_look ['?', '<', '!'] (.behind true) rfl nofun
        (fun _ => rfl) hcase hroom

theorem takes_lookAhead (negated : Bool) (hcase : r.asciiCase = false)
    (hroom : r.depth + 2 < maxDepth) :
    r.Takes (lookAhead negated)
      (.part (.ahead negated (.set (Shorthand.word.set r.modes.ignoreCase))) true 0) := by
  cases negated with
  | false =>
      exact takes_look ['?', '='] (.ahead false) rfl nofun
        (fun _ => rfl) hcase hroom
  | true =>
      exact takes_look ['?', '!'] (.ahead true) rfl nofun
        (fun _ => rfl) hcase hroom

/-- In a group, the looks of one alternative. -/
theorem reads_side (behind ahead : Bool) (hcase : r.asciiCase = false)
    (hroom : r.depth + 4 < maxDepth) (choices : List Tree) (cs : List Char) :
    let s := Shorthand.word.set r.modes.ignoreCase
    (r.within .plain choices []).Reads (lookBehind behind ++ (lookAhead ahead ++ cs))
      (r.within .plain choices
        [.part (.ahead ahead (.set s)) true 0, .part (.behindOne behind s) true 0]) cs := by
  intro s
  have hinside (pieces : List Piece) : (r.within .plain choices pieces).asciiCase = false ∧
      (r.within .plain choices pieces).depth + 2 < maxDepth := by
    rw [depth] at hroom ⊢
    exact ⟨hcase, hroom⟩
  have hbehind : (r.within .plain choices []).Takes (lookBehind behind) _ :=
    takes_lookBehind behind (hinside _).1 (hinside _).2
  have hahead : (r.within .plain choices [.part (.behindOne behind s) true 0]).Takes
      (lookAhead ahead) _ :=
    takes_lookAhead ahead (hinside _).1 (hinside _).2
  exact (hbehind _).trans (hahead cs)

/-- The reader takes in a word boundary as one piece. -/
theorem takes_boundary (negated : Bool) (hcase : r.asciiCase = false)
    (hroom : r.depth + 4 < maxDepth) :
    r.Takes (Dialect.escape false (if negated then 'B' else 'b'))
      (.part (.sides negated (Shorthand.word.set r.modes.ignoreCase)) true 0) := by
  intro rest
  have htext : Dialect.escape false (if negated then 'B' else 'b') ++ rest
      = '(' :: (['?', ':'] ++ (lookBehind false ++ (lookAhead (!negated) ++ '|' ::
        (lookBehind true ++ (lookAhead negated ++ ')' :: rest))))) := by
    cases negated <;> rfl
  have hopen : ∀ cs, r.openGroup (['?', ':'] ++ cs) = r.enterKind .plain cs := fun _ => rfl
  rw [htext]
  refine (reads_open hopen (by omega) _).trans ?_
  refine (reads_side false (!negated) hcase hroom [] _).trans ?_
  refine (reads_of_step (step_bar _ _) (Nat.le_refl _)).trans ?_
  refine (reads_side true negated hcase hroom _ _).trans ?_
  have hplain : GroupKind.plain ≠ .modes := nofun
  exact reads_close hplain _ _ rest

end Reader

-- ── Matching ─────────────────────────────────────────────────────────────

namespace Tree

/-- What a tree matches, wherever it stands outside of lookbehinds: it is
    settled on its own, refers to no groups, and comes to few dead ends. -/
structure ActsAs (t : Tree) (acts : Haystack → Matcher Marks) : Prop where
  joined : t.joined = t
  references : t.references = []
  settled : ∀ groups, ∃ t', t.settle false groups = .ok (t', groups) ∧ ∀ use,
    (∀ text st k, st.limit = text.size → (t'.part use).expr.matcher text st k = acts text st k) ∧
      ∃ n, (t'.part use).expr.deadEnds? 1 = some n ∧ n ≤ retryLimit

/-- Matches one character out of some. -/
def oneOf (mem : Char → Bool) (text : Haystack) : Matcher Marks := fun st k =>
  ((text[st.pos]?.filter mem).map fun _ => k st.next).getD .fail

/-- Matches the empty text where a condition holds. -/
def atPlaces (holds : Haystack → Nat → Bool) (text : Haystack) : Matcher Marks := fun st k =>
  if holds text st.pos then k st else .fail

theorem actsAs_set (s : CharSet) : (Tree.set s).ActsAs (oneOf s.mem) where
  joined := rfl
  references := rfl
  settled _ := ⟨.set s, rfl, fun _ =>
    ⟨fun _ _ k hlimit => matcher_one s hlimit k, 2, rfl, by decide⟩⟩

/-- An assertion that finds its own position, or nothing. -/
theorem assert_found {negated found : Bool} {st : MatchState} {k : MatchState → Attempt Marks} :
    Matcher.assert negated (if found then .done st else .fail) st k
      = if found != negated then k st else .fail := by
  cases negated <;> cases found <;> rfl

theorem matcher_ahead (negated : Bool) (s : CharSet) {text : Haystack} {st : MatchState}
    (hlimit : st.limit = text.size) (k : MatchState → Attempt Marks) :
    (Expr.ahead negated (.one s)).matcher text st k
      = if text[st.pos]?.any s.mem != negated then k st else .fail := by
  rw [← assert_found]
  show Matcher.assert negated (.andThen ((Expr.one s).matcher text st .done) _) st k = _
  congr 1
  rw [matcher_one s hlimit]
  cases text[st.pos]? with
  | none => rfl
  | some c =>
      rw [Option.filter_some, Option.any_some]
      cases s.mem c <;> rfl

theorem matcher_behind (negated : Bool) (s : CharSet) {text : Haystack} {st : MatchState}
    (hlimit : st.limit = text.size) (k : MatchState → Attempt Marks) :
    (Expr.behind negated (.exactly 1) (.one s)).matcher text st k
      = if (decide (0 < st.pos) && text[st.pos - 1]?.any s.mem) != negated then k st
        else .fail := by
  rw [← assert_found]
  show Matcher.assert negated (Matcher.earlier ((Expr.one s).matcher text) st 1) st k = _
  congr 1
  rw [Matcher.earlier]
  by_cases hpos : 1 ≤ st.pos
  · let back : MatchState := { st with pos := st.pos - 1 }
    have hnext : back.next = st := by
      show { st with pos := st.pos - 1 + 1 } = st
      rw [Nat.sub_add_cancel hpos]
    have hlimit' : back.limit = text.size := hlimit
    have hfront : decide (0 < st.pos) = true := decide_eq_true hpos
    rw [if_pos hpos, hfront, Bool.true_and]
    show (Expr.one s).matcher text back .done = _
    rw [matcher_one s hlimit', hnext]
    cases text[st.pos - 1]? with
    | none => rfl
    | some c =>
        rw [Option.filter_some, Option.any_some]
        cases s.mem c <;> rfl
  · have hfront : decide (0 < st.pos) = false := decide_eq_false hpos
    rw [if_neg hpos, hfront]
    rfl

theorem orElse_fail (a : Attempt Marks) : a.orElse .fail = a := by
  funext m
  rw [Attempt.orElse]
  split
  case h_1 s m' h => exact h.symm
  case h_2 m' h => exact h.symm

theorem actsAs_sides (negated : Bool) (s : CharSet) :
    (Tree.sides negated s).ActsAs
      (atPlaces fun text pos => oneSided s.mem text pos != negated) where
  joined := rfl
  references := rfl
  settled groups := by
    let side (behind ahead : Bool) : Tree :=
      .seq [.behind behind (.exactly 1) (.set s), .ahead ahead (.set s)]
    refine ⟨.alt [side false (!negated), side true negated], rfl, fun use =>
      ⟨fun text st k hlimit => ?_, 12, rfl, by decide⟩⟩
    have hside (behind ahead : Bool) : ((side behind ahead).part use).expr.matcher text st k
        = if ((decide (0 < st.pos) && text[st.pos - 1]?.any s.mem) != behind)
            && (text[st.pos]?.any s.mem != ahead) then k st else .fail := by
      show (Expr.behind behind (.exactly 1) (.one s)).matcher text st
        (fun st' => (Expr.ahead ahead (.one s)).matcher text st' k) = _
      rw [matcher_behind behind s hlimit, matcher_ahead ahead s hlimit]
      cases (decide (0 < st.pos) && text[st.pos - 1]?.any s.mem) != behind <;> rfl
    show Attempt.orElse (((side false (!negated)).part use).expr.matcher text st k)
      (((side true negated).part use).expr.matcher text st k) = _
    rw [hside, hside, atPlaces, oneSided]
    -- the two alternatives exclude each other
    cases decide (0 < st.pos) && text[st.pos - 1]?.any s.mem <;>
      cases text[st.pos]?.any s.mem <;> cases negated
    all_goals first | rfl | exact orElse_fail _

end Tree

-- ── Patterns ─────────────────────────────────────────────────────────────

namespace Reader

/-- The reader takes in a text as one piece that matches like this. -/
def ReadsAs (r : Reader) (cs : List Char) (acts : Haystack → Matcher Marks) : Prop :=
  ∃ t whole, r.Takes cs (.part t whole 0) ∧ t.ActsAs acts

/-- The reader is at a place where these flags are in force, with groups
    around it that leave room for two more. -/
structure Under (r : Reader) (flags : Flags) : Prop where
  ignoreCase : r.modes.ignoreCase = flags.ignoreCase
  asciiCase : r.asciiCase = false
  room : r.depth + 4 < maxDepth

variable {flags : Flags}

theorem readsAs_shorthand (h : r.Under flags) (s : Shorthand) :
    r.ReadsAs (Dialect.escape false s.letter) (Tree.oneOf (s.memUnder flags.ignoreCase)) := by
  have hroom : r.depth < maxDepth := Nat.lt_of_add_right_lt h.room
  refine ⟨_, _, s.takes h.asciiCase hroom, ?_⟩
  rw [h.ignoreCase, ← s.mem_set]
  exact Tree.actsAs_set _

theorem readsAs_boundary (h : r.Under flags) (negated : Bool) :
    r.ReadsAs (Dialect.escape false (if negated then 'B' else 'b'))
      (Tree.atPlaces fun text pos =>
        oneSided (Shorthand.word.memUnder flags.ignoreCase) text pos != negated) := by
  refine ⟨_, _, takes_boundary negated h.asciiCase h.room, ?_⟩
  rw [h.ignoreCase, ← Shorthand.word.mem_set]
  exact Tree.actsAs_sides negated _

/-- The reader at the start of a pattern. -/
def start (flags : Flags) : Reader :=
  { frame := { kind := .whole, around := flags.modes }, modes := flags.modes }

theorem start_under (flags : Flags) : (start flags).Under flags where
  ignoreCase := rfl
  asciiCase := rfl
  room := (by decide : 2 + 4 < maxDepth)

/-- A pattern that is taken in as one piece and nothing else. -/
theorem read_of_takes {t : Tree} {whole : Bool} (h : (start flags).Takes cs (.part t whole 0)) :
    read flags.modes cs = .ok { tree := t, groups := 0, longest := false } := by
  obtain ⟨steps, hlength, hsteps⟩ := h []
  rw [List.append_nil] at hlength hsteps
  have hon : (start flags).readOn cs.length cs = .ok (t, (start flags).take (.part t whole 0)) := by
    obtain ⟨fuel, hfuel⟩ := Nat.exists_eq_add_of_le' (Nat.le_of_add_right_le hlength)
    rw [hfuel, hsteps, readOn]
    rfl
  have hread : read flags.modes cs
      = ((start flags).readOn cs.length cs).bind fun taken =>
        (taken.2.checkWhole taken.1).bind fun _ =>
          .ok { tree := taken.1, groups := taken.2.groups, longest := taken.2.longest } := rfl
  rw [hread, hon]
  rfl

/-- Such a pattern compiles to a program that matches like the piece. -/
theorem ReadsAs.exists_compile {acts : Haystack → Matcher Marks} {c : Char}
    (h : (start flags).ReadsAs (Dialect.escape false c) acts) :
    ∃ expr, compile (String.ofList ['\\', c]) flags = .ok { expr, groups := 0 } ∧
      (∀ text st k, st.limit = text.size → expr.matcher text st k = acts text st k) ∧
        ∃ n, expr.deadEnds? 1 = some n ∧ n ≤ retryLimit := by
  obtain ⟨t, whole, htakes, hacts⟩ := h
  obtain ⟨t', hsettle, hmatch⟩ := hacts.settled t.referencedGroups
  refine ⟨t'.toExpr, ?_, hmatch t'.groupUse⟩
  have hexpand : Dialect.expand flags ['\\', c] = Dialect.escape false c := List.append_nil _
  have hwhole : t.settleWhole 0 = .ok t' := by
    rw [Tree.settleWhole, hacts.joined, hacts.references, List.all_nil, if_pos rfl, hsettle]
    rfl
  rw [compile, String.toList_ofList, compileChars, hexpand, read_of_takes htakes]
  show (t.settleWhole 0).bind (fun tree => .ok (Program.mk tree.toExpr 0 false)) = _
  rw [hwhole]
  rfl

end Reader

/-- A program without groups that goes on from one state at most, and
    comes to few dead ends. -/
theorem Program.matchAt_eq {expr : Expr} {text : Haystack} {pos : Nat} (found : Option MatchState)
    (h : ∀ k : MatchState → Attempt Marks,
      expr.matcher text (.start 0 text.size pos) k = (found.map k).getD .fail)
    (hmarks : ∀ st ∈ found, st.marks = .none 0)
    (hcost : ∃ n, expr.deadEnds? 1 = some n ∧ n ≤ retryLimit) :
    Program.matchAt { expr, groups := 0 } text pos
      = .ok (found.map fun st => ⟨pos, st.pos, none⟩) := by
  obtain ⟨n, hcost, hn⟩ := hcost
  rw [matchAt_eq_unlimited rfl hcost hn, unlimited?, h]
  cases found with
  | none => rfl
  | some st =>
      obtain ⟨stop, limit, marks, trail⟩ := st
      obtain rfl : marks = .none 0 := hmarks _ rfl
      rfl

/-- How shorthands and word boundaries match outside of classes under some
    flags. -/
structure ShorthandsMatch (flags : Flags) : Prop where
  /-- A shorthand matches one character, of those that it stands for. -/
  shorthand : ∀ s : Shorthand, ∃ p, compile (String.ofList ['\\', s.letter]) flags = .ok p ∧
    p.MatchesOne (s.memUnder flags.ignoreCase)
  /-- A boundary holds where a word character stands on just one side, or
      where none does or two if it is negated. -/
  boundary : ∀ negated, ∃ p,
    compile (String.ofList ['\\', if negated then 'B' else 'b']) flags = .ok p ∧
      ∀ text pos, p.matchAt text pos =
        .ok (if oneSided (Shorthand.word.memUnder flags.ignoreCase) text pos != negated
          then some ⟨pos, pos, none⟩ else none)
  /-- So they do in every pattern in which they stand. -/
  everywhere : ∀ r : Reader, r.Under flags →
    (∀ s : Shorthand, r.ReadsAs (Dialect.escape false s.letter)
      (Tree.oneOf (s.memUnder flags.ignoreCase))) ∧
    ∀ negated, r.ReadsAs (Dialect.escape false (if negated then 'B' else 'b'))
      (Tree.atPlaces fun text pos =>
        oneSided (Shorthand.word.memUnder flags.ignoreCase) text pos != negated)

theorem compile_shorthands (flags : Flags) : ShorthandsMatch flags where
  shorthand s := by
    obtain ⟨expr, hcompile, hmatch, hcost⟩ :=
      (Reader.readsAs_shorthand (Reader.start_under flags) s).exists_compile
    refine ⟨_, hcompile, fun text pos => ?_⟩
    let found := (text[pos]?.filter (s.memUnder flags.ignoreCase)).map fun _ =>
      (MatchState.start 0 text.size pos).next
    rw [Program.matchAt_eq found]
    · exact congrArg Except.ok (Option.map_map _ _ _)
    · intro k
      rw [hmatch _ _ _ rfl, Option.map_map]
      rfl
    · intro st hst
      obtain ⟨_, -, rfl⟩ := Option.map_eq_some_iff.mp hst
      rfl
    · exact hcost
  boundary negated := by
    obtain ⟨expr, hcompile, hmatch, hcost⟩ :=
      (Reader.readsAs_boundary (Reader.start_under flags) negated).exists_compile
    refine ⟨_, hcompile, fun text pos => ?_⟩
    let start := MatchState.start 0 text.size pos
    have hfound (k : MatchState → Attempt Marks) : expr.matcher text start k
        = if oneSided (Shorthand.word.memUnder flags.ignoreCase) text pos != negated
          then k start else .fail := hmatch _ _ _ rfl
    cases hside : oneSided (Shorthand.word.memUnder flags.ignoreCase) text pos != negated with
    | false =>
        rw [hside] at hfound
        exact Program.matchAt_eq none hfound nofun hcost
    | true =>
        rw [hside] at hfound
        exact Program.matchAt_eq (some start) hfound (fun st hst => Option.some.inj hst ▸ rfl) hcost
  everywhere r h := ⟨Reader.readsAs_shorthand h, Reader.readsAs_boundary h⟩

/-- With the `i` flag it is not ASCII: the long s is a word character, and
    no boundary stands between it and a letter. -/
theorem compile_shorthands_longS :
    (¬ ∃ p, compile "\\w" { ignoreCase := true } = .ok p ∧ p.MatchesOne Shorthand.word.mem)
      ∧ ¬ ∃ p, compile "\\b" { ignoreCase := true } = .ok p ∧ ∀ text pos,
        p.matchAt text pos
          = .ok (if oneSided Shorthand.word.mem text pos then some ⟨pos, pos, none⟩ else none) := by
  constructor
  · rintro ⟨p, hp, hone⟩
    have hfound : (compile "\\w" { ignoreCase := true }).toOption.map
        (fun p => (p.matchAt #['\u017f'] 0).toOption) = some (some (some ⟨0, 1, none⟩)) := by
      decide +kernel
    rw [hp] at hfound
    have hfound : (p.matchAt #['\u017f'] 0).toOption = some (some ⟨0, 1, none⟩) :=
      Option.some.inj hfound
    rw [hone] at hfound
    exact nomatch Option.some.inj hfound
  · rintro ⟨p, hp, hplace⟩
    have hnone : (compile "\\b" { ignoreCase := true }).toOption.map
        (fun p => (p.matchAt #['\u017f', 'k'] 1).toOption) = some (some none) := by
      decide +kernel
    rw [hp] at hnone
    have hnone : (p.matchAt #['\u017f', 'k'] 1).toOption = some none := Option.some.inj hnone
    rw [hplace] at hnone
    exact nomatch Option.some.inj hnone

end Highlighter.Regex
