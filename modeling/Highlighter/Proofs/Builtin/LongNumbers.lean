import Highlighter.Proofs.Builtin.Languages
import Highlighter.Proofs.Regex.GivingUp
import Highlighter.Proofs.Tokenizer.GivingUp

/-! # Long numbers in diagrams

    In block diagrams a number is digits, perhaps with a dot and digits
    behind them, up to the end of a word.  Digits with a letter behind them
    are none; but before that is known, every way to share the digits
    between the part in front of the missing dot and the part behind it is
    tried.  With some thousand digits these are more ways than a match may
    come to, so the text is given up (`Builtin.tokenize_ones`). -/

namespace Highlighter.Builtin

open Document Regex

/-- Ones, and a letter behind them. -/
def ones (n : Nat) : String := String.ofList (List.replicate n '1' ++ ['a'])

-- ── The pattern ──────────────────────────────────────────────────────────

/-- A digit. -/
def digitSet : CharSet := .union .none .digit

/-- A character of a word. -/
def wordSet : CharSet :=
  .union (.union (.union (.union .none (.range 97 122)) (.range 65 90)) .digit) (.range 95 95)

/-- Digits, one at least. -/
def digits : Expr := .loop (.one digitSet) 1 none true .none

/-- A number in base sixteen, between boundaries. -/
def hexadecimal : Expr :=
  let digit : CharSet := .union (.union digitSet (.range 65 70)) (.range 97 102)
  .seq (.boundary wordSet) (.seq (.literal ['0', 'x'])
    (.seq (.loop (.one digit) 1 none true .none) (.boundary wordSet)))

/-- A number that begins with a dot. -/
def fraction : Expr :=
  .seq (.alt (.seq (.behind false (.exactly 1) (.one wordSet)) (.ahead false (.one wordSet)))
      (.seq (.behind true (.exactly 1) (.one wordSet)) (.ahead true (.one wordSet))))
    (.seq (.one (.single '.')) digits)

def exponent : Expr :=
  let sign : CharSet := .union (.union .none (.single '+')) (.single '-')
  .loop (.seq (.one (.union (.union .none (.single 'E')) (.single 'e')))
    (.seq (.loop (.one sign) 0 (some 1) true .none) digits)) 0 (some 1) true .none

/-- A number that begins with digits. -/
def decimal : Expr :=
  .seq (.boundary wordSet) (.seq digits (.seq (.loop (.one (.single '.')) 0 (some 1) true .none)
    (.loop (.one digitSet) 0 none true .none)))

/-- What the pattern for numbers compiles to. -/
def number : Expr :=
  .alt hexadecimal (.seq (.alt decimal fraction) (.seq (.boundary wordSet) exponent))

def numberSource : String :=
  "\\b0x[\\dA-Fa-f]+\\b|(?:\\b\\d+\\.?\\d*|\\B\\.\\d+)\\b" ++ "(?:[Ee][+-]?\\d+)?"

theorem number_program :
    (Regex.ofStrings numberSource "").program = .ok { expr := number, groups := 0 } := by
  have hspelled : Spelled numberSource _ := (spelled_ofList _).append (spelled_ofList _)
  show Regex.compile numberSource (Regex.Flags.ofString "") = _
  rw [Regex.compile, hspelled]
  decide +kernel

-- ── The text ─────────────────────────────────────────────────────────────

theorem toArray_ones (n : Nat) :
    (ones n).toList.toArray = (List.replicate n '1' ++ ['a']).toArray := by
  rw [ones, String.toList_ofList]

theorem mem_ones {n : Nat} : ∀ c ∈ (ones n).toList.toArray, c ∈ ['1', 'a'] := by
  intro c hc
  rw [toArray_ones, List.mem_toArray] at hc
  rcases List.mem_append.mp hc with hc | hc
  · rw [List.eq_of_mem_replicate hc]
    exact List.mem_cons_self
  · exact List.mem_cons_of_mem _ hc

theorem any_ones_of_lt {n i : Nat} (h : i < n) (f : Char → Bool) :
    ((ones n).toList.toArray[i]?).any f = f '1' := by
  rw [toArray_ones, List.getElem?_toArray, List.getElem?_append_left (by simpa using h),
    List.getElem?_replicate_of_lt h, Option.any_some]

theorem any_ones_self (n : Nat) (f : Char → Bool) :
    ((ones n).toList.toArray[n]?).any f = f 'a' := by
  rw [toArray_ones, List.getElem?_toArray, List.getElem?_append_right (by simp)]
  simp

theorem any_ones_eq_false {n i : Nat} (h : i ≤ n) {f : Char → Bool} (hone : f '1' = false)
    (ha : f 'a' = false) : ((ones n).toList.toArray[i]?).any f = false := by
  rcases Nat.lt_or_eq_of_le h with hlt | rfl
  · rw [any_ones_of_lt hlt, hone]
  · rw [any_ones_self, ha]

-- ── Dead ends ────────────────────────────────────────────────────────────

/-- Nowhere behind a digit is there a boundary. -/
theorem wastes_boundary {n i : Nat} (hpos : 0 < i) (hle : i ≤ n)
    (k : MatchState → Attempt Tally) :
    ((Expr.boundary wordSet).matcher (ones n).toList.toArray
      (.start 0 (ones n).toList.toArray.size i) k).Wastes 2 := by
  obtain ⟨i, rfl⟩ := Nat.exists_eq_succ_of_ne_zero (Nat.ne_of_gt hpos)
  refine wastes_boundary_inside 0 ((any_ones_of_lt hle _).trans (by decide)) ?_
  rcases Nat.lt_or_eq_of_le hle with hlt | rfl
  · exact (any_ones_of_lt hlt _).trans (by decide)
  · exact (any_ones_self _ _).trans (by decide)

/-- The match of a number is given up. -/
theorem matchAt_number {n : Nat} (hn : 3162 ≤ n) :
    Program.matchAt { expr := number, groups := 0 } (ones n).toList.toArray 0 = .error ⟨⟩ := by
  refine Program.matchAt_of_wastes rfl mem_ones (by decide) fun k => ?_
  let text := (ones n).toList.toArray
  have hset : ∀ i < n, text[i]?.any digitSet.mem = true := fun i hi =>
    (any_ones_of_lt hi _).trans (by decide)
  have hend : text[n]?.any digitSet.mem = false := (any_ones_self n _).trans (by decide)
  have hdot : ∀ i ≤ n, text[i]?.any (CharSet.single '.').mem = false := fun i hi =>
    any_ones_eq_false hi (by decide) (by decide)
  have hloops := wastes_loops 0 hset hend hdot (by omega) (c := 2)
    (k := fun s => (Expr.seq (.boundary wordSet) exponent).matcher text s k)
    fun i hpos hle => wastes_boundary hpos hle _
  have hall : retryLimit + 1 ≤ ∑ j ∈ Finset.range n, (j + 1) * 2 := by
    have hsum := two_mul_sum_range n 2
    have hle : 3162 * 3163 ≤ n * (n + 1) := Nat.mul_le_mul hn (by omega)
    rw [retryLimit]
    omega
  have hdecimal : (decimal.matcher text (.start 0 text.size 0)
      fun s => (Expr.seq (.boundary wordSet) exponent).matcher text s k).Wastes
        (retryLimit + 1) := by
    rw [decimal, Expr.matcher]
    exact wastes_boundary_start 0 ((any_ones_of_lt (by omega) _).trans (by decide))
      (hloops.mono hall)
  rw [Expr.matcher, Expr.matcher]
  exact hdecimal.orElse_closed _

-- ── The grammar ──────────────────────────────────────────────────────────

/-- The characters compile, and to what needs another character than those
    of the text. -/
def compilesToOther (cs : List Char) (flags : Regex.Flags) : Bool :=
  match Regex.compileChars cs flags with
  | .ok p => p.expr.needsOther ['1', 'a']
  | .error _ => false

theorem findsNothing_of_spelled {source flags : String} {cs : List Char} (hs : Spelled source cs)
    (h : compilesToOther cs (Regex.Flags.ofString flags) = true) {p : Pattern}
    (hp : p.regex = Regex.ofStrings source flags) (n : Nat) :
    Tokenizer.FindsNothing (ones n) p := by
  rw [compilesToOther] at h
  split at h
  · next e he =>
      have hprogram : p.regex.program = .ok e := by
        rw [hp]
        show Regex.compile source (Regex.Flags.ofString flags) = .ok e
        rw [Regex.compile, hs]
        exact he
      rcases find_of_needsOther hprogram h (mem_ones (n := n)) 0 p.lookbehind with hnone | hgaveUp
      · refine .inl ?_
        rw [Tokenizer.find, hnone]
        rfl
      · refine .inr ?_
        rw [Tokenizer.find, hgaveUp]
        rfl
  · cases h

/-- In block diagrams, nothing is found in the text before it comes to
    numbers. -/
theorem entries_of_diag {V : View} {g : Grammar} (h : TokensUnfold V diag.tokens g)
    {gs : List Grammar} {id : GrammarId} (hg : gs[id]? = some g) (n : Nat) :
    ∃ first later, entries gs id = .ok
      (first ++ ⟨"number", [{ regex := Regex.ofStrings numberSource "" }]⟩ :: later) ∧
      ∀ e ∈ first, ∀ p ∈ e.patterns, Tokenizer.FindsNothing (ones n) p := by
  obtain ⟨g', hrules, hrest⟩ := h
  simp only [diag, Tokens.ofEntries, one, Document.source, RulesUnfold, PatternsUnfold,
    PatternUnfolds, InsideUnfolds, RestUnfolds, exists_eq_left] at hrules hrest
  obtain rfl := hrest
  obtain ⟨_, ⟨property, ⟨-, hproperty⟩, rfl⟩, _, ⟨string, ⟨-, hstring⟩, rfl⟩,
    _, ⟨operator, ⟨-, hoperator⟩, rfl⟩, _, ⟨_, ⟨-, rfl⟩, rfl⟩,
    punctuation, -, value, -, boolean, -, null, -, rfl⟩ := hrules
  refine ⟨[⟨"property", [property]⟩, ⟨"string", [string]⟩, ⟨"operator", [operator]⟩],
    [⟨"punctuation", punctuation.toList⟩, ⟨"attr-value", value.toList⟩,
      ⟨"boolean", boolean.toList⟩, ⟨"null", null.toList⟩], ?_, ?_⟩
  · rw [entries, mergedRules, grammarAt, hg]
    rfl
  · simp only [List.forall_mem_cons, List.not_mem_nil, false_implies, implies_true, and_true]
    refine ⟨?_, ?_, ?_⟩
    · exact findsNothing_of_spelled (spelled_ofList _) (by decide +kernel)
        (congrArg _ hproperty) n
    · exact findsNothing_of_spelled ((spelled_ofList _).append (spelled_ofList _))
        (by decide +kernel) (congrArg _ hstring) n
    · exact findsNothing_of_spelled ((spelled_ofList _).append (spelled_ofList _))
        (by decide +kernel) (congrArg _ hoperator) n

/-- Ones with a letter behind them are given up, if they are many. -/
theorem tokenize_ones {n : Nat} (hn : 3162 ≤ n) :
    ∃ id regex, catalog.grammarId? "diag" = some id ∧
      Tokenizer.tokenize catalog.grammars id (ones n) = .error (.gaveUp regex) := by
  have hdiag : diag ∈ languages := by simp [languages, documents]
  have hname : "diag" ∈ diag.given := List.mem_cons_self
  obtain ⟨id, g, hid, hg, hread⟩ := settles_catalog.grammar diag hdiag
  obtain ⟨first, later, hentries, hfirst⟩ := entries_of_diag hread hg n
  have hlanguage := (settles_catalog.languages "diag").mpr ⟨diag, hdiag, hname⟩
  have hne : ones n ≠ "" := by
    rw [ones, ne_eq, String.ofList_eq_empty_iff]
    exact List.append_ne_nil_of_right_ne_nil _ (List.cons_ne_nil _ _)
  have hnumber : Tokenizer.find { regex := Regex.ofStrings numberSource "" }
      (ones n).toList.toArray 0 = .error (.gaveUp (Regex.ofStrings numberSource "")) := by
    rw [Tokenizer.find, find_of_matchAt_error number_program rfl (matchAt_number hn)]
    rfl
  obtain ⟨regex, hgivenUp⟩ := Tokenizer.tokenize_gaveUp hne hentries hfirst hnumber
  exact ⟨id, regex, hlanguage.grammarId?.trans (hid "diag" hname), hgivenUp⟩

end Highlighter.Builtin
