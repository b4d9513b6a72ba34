import Highlighter.Proofs.Tokenizer.Cutting
import Highlighter.Proofs.Tokenizer.Depth

/-! # Every token is justified

    Tokens are made when a pattern is first tried, when a greedy match runs
    over several fragments, and when the patterns before it are tried
    again; and a greedy match can take tokens back.  Yet each token that is
    left in the end has a pattern that accounts for all of it: the name is
    that of the pattern's entry, the aliases and the greedy flag are the
    pattern's, what is inside is what tokenizing the text of the token with
    the grammar inside gives, and the place is where the pattern is found
    in the text or in a piece of it (`tokenize_justified`).

    It holds of a token when it is cut, and tokens never move: so it is a
    property of tokens at their offsets that every cut gives. -/

namespace Highlighter.Tokenizer

open Fragment (lengths)
open Text (byteLength slice?)

/-- The token that a pattern under a name makes of a text.  What is inside
    is what tokenizing the text by itself gives. -/
def IsTokenOf (gs : List Grammar) (name : String) (p : Pattern) (own : List Char)
    (t : Fragment) : Prop :=
  let label : Label := ⟨name, p.aliases, byteLength own, p.greedy⟩
  match p.inside with
  | none => t = .leaf label (String.ofList own)
  | some id => ∃ inner, tokenize gs id (String.ofList own) = .ok inner ∧ t = .node label inner

/-- A pattern is found from one offset of a text to another, when some
    piece of the text is searched for it from some place on. -/
def FoundBetween (p : Pattern) (text : List Char) (start stop : Nat) : Prop :=
  ∃ front hay back place span, text = front ++ (hay ++ back) ∧
    p.regex.find hay.toArray place p.lookbehind = .ok (some span) ∧
    byteLength front + span.start = start ∧ byteLength front + span.stop = stop

/-- Some pattern of some entries accounts for a token at an offset. -/
def Justified (gs : List Grammar) (es : List Entry) (text : List Char) (offset : Nat)
    (t : Fragment) : Prop :=
  ∃ e ∈ es, ∃ p ∈ e.patterns, ∃ own, slice? text offset (offset + t.length) = some own ∧
    IsTokenOf gs e.name p own t ∧ FoundBetween p text offset (offset + t.length)

-- ── Cuts ─────────────────────────────────────────────────────────────────

/-- What was tokenized within some depth is what tokenizing gives. -/
theorem tokenize_of_within {gs : List Grammar} {depth : Nat} {id : GrammarId} {text : String}
    {fs : List Fragment} (h : tokenizeWithin gs depth id text = .ok fs) :
    tokenize gs id text = .ok fs := by
  have hbelow : Below (tokenizeWithin gs depth id text) (tokenize gs id text) :=
    tokenizeWithin_below_tokenize depth id text
  rcases hbelow with hgave | hsame
  · rw [h] at hgave
    exact nomatch hgave
  · rw [← hsame, h]

/-- A token that is made with texts tokenized within some depth. -/
theorem isTokenOf_token {gs : List Grammar} {depth : Nat} {text : String} {name : String}
    {p : Pattern} {matched : List Char} {t : Fragment}
    (h : token (.of (tokenizeWithin gs depth) text) name p matched = .ok t) :
    IsTokenOf gs name p matched t := by
  rcases token_cases h with ⟨hi, rfl⟩ | ⟨id, inner, hi, hinner, rfl⟩
  · simp only [IsTokenOf, hi]
  · simp only [IsTokenOf, hi]
    exact ⟨inner, tokenize_of_within hinner, rfl⟩

/-- Every cut gives a token that is justified where it was found. -/
theorem cuts_justified {gs : List Grammar} {depth : Nat} {text : String} {es : List Entry}
    {e : Entry} (he : e ∈ es) {p : Pattern} (hp : p ∈ e.patterns) :
    Cuts (Justified gs es text.toList) (fun _ => True) (.of (tokenizeWithin gs depth) text)
      e.name p where
  broken _ _ := trivial
  gaveUp _ _ _ := trivial
  cut := by
    intro front hay start stop span hf
    cases hk : cut (.of (tokenizeWithin gs depth) text) e.name p hay start span stop with
    | error e => trivial
    | ok k =>
        obtain ⟨before, matched, after, -, hmatched, -, ht, -, -⟩ := slices_of_cut hk
        obtain ⟨back, hback⟩ := hf.piece
        obtain ⟨place, -, hfind⟩ := hf.found
        obtain ⟨a, -, -, ha, hstop⟩ := Text.append_of_slice? hmatched
        have hlength : byteLength front + span.start + k.token.length
            = byteLength front + span.stop := by
          rw [length_of_token ht]
          omega
        have hown := slice?_of_piece front back hmatched
        rw [← hback] at hown
        refine ⟨e, he, p, hp, matched, ?_, isTokenOf_token ht, ?_⟩
        · rw [hlength]
          exact hown
        · rw [hlength]
          exact ⟨front, hay, back, place, span, hback, find_eq_ok_iff.mp hfind, rfl, rfl⟩

-- ── Tokens ───────────────────────────────────────────────────────────────

/-- Every token of a text that was tokenized is one that a pattern of the
    grammar makes of its own text, found where the token stands. -/
theorem tokenize_justified {gs : List Grammar} {id : GrammarId} {text : String}
    {before after : List Fragment} {t : Fragment}
    (h : tokenize gs id text = .ok (before ++ t :: after)) (ht : t.isToken = true) :
    ∃ es, entries gs id = .ok es ∧ Justified gs es text.toList (lengths before) t := by
  have hends : Ends
      (TokensAt (fun offset t => ∃ es, entries gs id = .ok es ∧
        Justified gs es text.toList offset t) 0)
      (fun _ => True) (tokenize gs id text) := by
    refine tokenizeBy_ends (tokenizeWithin_sound gs _) (fun _ _ => trivial) ?_
    intro es hes e he p hp
    have hcuts : Cuts (Justified gs es text.toList) (fun _ => True)
        (.of (tokenizeWithin gs (text.utf8ByteSize * gs.length)) text) e.name p :=
      cuts_justified he hp
    exact ⟨hcuts.broken, hcuts.gaveUp, fun hf => (hcuts.cut hf).mono fun k hk => ⟨es, hes, hk⟩⟩
  have hjust := (hends.of_ok h).of_mem ht
  rw [Nat.zero_add] at hjust
  exact hjust

/-- A greedy match that takes back a token found earlier, with a grammar
    inside, behind text and in front of another token. -/
theorem tokenize_justified_across :
    let word : String × Rule := ("n", .patterns (.single { regex := { source := "1" } }))
    let gs : List Grammar :=
      [⟨[word, ("s", .patterns (.single
          { regex := { source := "x1x" }, greedy := true, inside := some 1 }))]⟩, ⟨[word]⟩]
    let t : Fragment :=
      .node ⟨"s", [], 3, true⟩ [.raw "x", .leaf ⟨"n", [], 1, false⟩ "1", .raw "x"]
    tokenize gs 0 "éx1x1" = .ok ([.raw "é"] ++ t :: [.leaf ⟨"n", [], 1, false⟩ "1"]) ∧
      t.isToken = true ∧
      ∃ es, entries gs 0 = .ok es ∧ Justified gs es "éx1x1".toList (lengths [.raw "é"]) t := by
  intro word gs t
  have h : tokenize gs 0 "éx1x1" = .ok ([.raw "é"] ++ t :: [.leaf ⟨"n", [], 1, false⟩ "1"]) := by
    rfl
  exact ⟨h, rfl, tokenize_justified h rfl⟩

end Highlighter.Tokenizer
