import Highlighter.Fragment
import Highlighter.Tokenizer.Entry

/-! # Scanning fragments with a pattern

    A pattern is tried on every raw fragment from some place on.  Its
    match splits the fragment in up to three, and scanning goes on behind
    the token.

    A greedy pattern searches the whole text instead and may run over
    tokens found earlier.  `place` says which fragments such a match
    concerns: those in front of it are passed by, those it touches are
    replaced, together with raw text behind a token that it has cut.  When
    it has replaced several fragments, the entries in front of its own get
    another chance at what is left, through `rematch`.

    Scanning moves on by a byte at least in every step, so the bytes of
    the text are its fuel. -/

namespace Highlighter.Tokenizer

/-- Why a text is not tokenized. -/
inductive Fault where
  /-- A pattern cannot be read. -/
  | brokenRegex (regex : Regex) (error : Regex.SyntaxError)
  /-- A match of a pattern was given up. -/
  | gaveUp (regex : Regex)
  /-- A rule refers to a grammar that does not exist. -/
  | noSuchGrammar (id : GrammarId)
  /-- A token would begin inside a character. -/
  | splitCharacter
  /-- There are more fragments than bytes of text. -/
  | overfull
  /-- Tokens nest within tokens of the same text, or matches follow each
      other, without end. -/
  | endless
deriving DecidableEq

/-- What a scan works with. -/
structure Context where
  /-- The whole text. -/
  text : List Char
  /-- The text as patterns search it. -/
  haystack : Regex.Haystack
  /-- Tokenizes the text of a token with a grammar. -/
  nested : GrammarId → String → Except Fault (List Fragment)

/-- The context of a text. -/
def Context.of (nested : GrammarId → String → Except Fault (List Fragment)) (text : String) :
    Context :=
  ⟨text.toList, text.toList.toArray, nested⟩

/-- Makes the entries in front of the current one match again, each
    pattern once: given the fragments before some place in reverse, those
    from there on and the bytes before it, the new fragments from there on. -/
abbrev Rematch := List Fragment → List Fragment → Nat → Except Fault (List Fragment)

/-- The fault of a pattern whose search for a token has no answer. -/
def Fault.ofFailure (regex : Regex) : Regex.Failure → Fault
  | .unreadable e => .brokenRegex regex e
  | .gaveUp => .gaveUp regex
  | .endless => .endless

/-- The token of a pattern found in a text. -/
def find (p : Pattern) (text : Regex.Haystack) (start : Nat) : Except Fault (Option Regex.Span) :=
  (p.regex.find text start p.lookbehind).mapError (Fault.ofFailure p.regex)

-- ── Cutting out a token ──────────────────────────────────────────────────

/-- A raw fragment, unless it would be empty. -/
def rawFragment? (cs : List Char) : List Fragment :=
  if cs.isEmpty then [] else [.raw (String.ofList cs)]

/-- The token for a matched text. -/
def token (c : Context) (name : String) (p : Pattern) (matched : List Char) :
    Except Fault Fragment := do
  let label : Label :=
    ⟨name, p.aliases, Text.byteLength matched, p.greedy⟩
  match p.inside with
  | some id => do
      let inner ← c.nested id (String.ofList matched)
      .ok (.node label inner)
  | none => .ok (.leaf label (String.ofList matched))

/-- The slice of a text, which must not cut a character. -/
def slice (text : List Char) (start stop : Nat) : Except Fault (List Char) :=
  match Text.slice? text start stop with
  | some cs => .ok cs
  | none => .error .splitCharacter

/-- A stretch of text cut at a token. -/
structure Cut where
  before : List Fragment
  token : Fragment
  after : List Fragment

/-- Cuts the bytes from `start` to `stop` of a text at the span of a token. -/
def cut (c : Context) (name : String) (p : Pattern) (text : List Char) (start : Nat)
    (span : Regex.Span) (stop : Nat) : Except Fault Cut := do
  let matched ← slice text span.start span.stop
  let before ← slice text start span.start
  let t ← token c name p matched
  let after ← slice text span.stop stop
  .ok ⟨rawFragment? before, t, rawFragment? after⟩

-- ── Greedy matches ───────────────────────────────────────────────────────

/-- The fragments up to the byte `stop`, and raw text that follows a token
    that is not greedy; and the rest.  `pos` is the offset of the first
    fragment and `afterGreedy` says what stands in front of it. -/
def reach (stop : Nat) : (afterGreedy : Bool) → (pos : Nat) → List Fragment →
    List Fragment × List Fragment
  | _, _, [] => ([], [])
  | afterGreedy, pos, f :: fs =>
      if pos < stop || (!f.isToken && !afterGreedy) then
        let (taken, rest) := reach stop f.isGreedy (pos + f.length) fs
        (f :: taken, rest)
      else ([], f :: fs)

/-- The fragments that end at the byte `start` or before, and the rest. -/
def passBy (start : Nat) : (pos : Nat) → List Fragment → List Fragment × List Fragment
  | _, [] => ([], [])
  | pos, f :: fs =>
      if pos + f.length ≤ start then
        let (passed, rest) := passBy start (pos + f.length) fs
        (f :: passed, rest)
      else ([], f :: fs)

/-- The fragments that a greedy match concerns. -/
structure Placement where
  /-- Fragments in front of the match. -/
  passed : List Fragment
  /-- Fragments that the match touches or takes along. -/
  covered : List Fragment
  /-- Fragments behind those. -/
  beyond : List Fragment

/-- Where a match in the whole text lies among the fragments from `pos` on. -/
def place (span : Regex.Span) (afterGreedy : Bool) (pos : Nat) (fs : List Fragment) : Placement :=
  let (reached, beyond) := reach span.stop afterGreedy pos fs
  let (passed, covered) := passBy span.start pos reached
  ⟨passed, covered, beyond⟩

-- ── Scanning ─────────────────────────────────────────────────────────────

/-- What a step of a scan leads to. -/
inductive Step where
  /-- The scan ends with these fragments. -/
  | done (fs : List Fragment)
  /-- The scan has settled some fragments and goes on with the rest. -/
  | more (settled rest : List Fragment)

/-- How a pattern is applied. -/
structure Pass where
  /-- The name of the rule. -/
  name : String
  pattern : Pattern
  /-- Whether the pattern stops after its first match. -/
  once : Bool
  rematch : Rematch

/-- Goes on behind a token that was put in front of `rest`. -/
def Pass.proceed (pass : Pass) (settled : List Fragment) (rest : List Fragment) : Step :=
  if pass.once then .done (settled ++ rest)
  else match rest with
    | [] => .done settled
    | t :: rest => .more (settled ++ [t]) rest

/-- A step at the raw fragment `raw`, by a search in it alone. -/
def Pass.stepAlone (c : Context) (pass : Pass) (raw : String) (rest : List Fragment) :
    Except Fault Step := do
  match ← find pass.pattern raw.toList.toArray 0 with
  | none => .ok (if pass.once then .done (.raw raw :: rest) else .more [.raw raw] rest)
  | some span => do
      let k ← cut c pass.name pass.pattern raw.toList 0 span raw.utf8ByteSize
      .ok (pass.proceed k.before (k.token :: k.after ++ rest))

/-- A step at the fragments that a match in the whole text concerns, the
    first of them being at the offset `pos`.  A match that begins in a
    token makes none. -/
def Pass.stepPlaced (c : Context) (pass : Pass) (before : List Fragment) (pos : Nat)
    (span : Regex.Span) (at' : Placement) : Except Fault Step :=
  match at'.covered with
  | [] => .ok (.more at'.passed at'.beyond)
  | first :: others =>
      if first.isToken then .ok (.more (at'.passed ++ [first]) (others ++ at'.beyond))
      else do
        let start := pos + Fragment.lengths at'.passed
        let stop := start + Fragment.lengths at'.covered
        let k ← cut c pass.name pass.pattern c.text start span stop
        let settled := at'.passed ++ k.before
        let rest := k.token :: k.after ++ at'.beyond
        if others.isEmpty then .ok (pass.proceed settled rest)
        else do
          let rest ← pass.rematch (settled.reverse ++ before) rest (pos + Fragment.lengths settled)
          .ok (pass.proceed settled rest)

/-- A step at the raw fragment `raw`, by a search in the whole text. -/
def Pass.stepAcross (c : Context) (pass : Pass) (before : List Fragment) (pos : Nat)
    (raw : String) (rest : List Fragment) : Except Fault Step := do
  match ← find pass.pattern c.haystack pos with
  | none => .ok (.done (.raw raw :: rest))
  | some span =>
      let afterGreedy := before.head?.any Fragment.isGreedy
      pass.stepPlaced c before pos span (place span afterGreedy pos (.raw raw :: rest))

/-- A step at a fragment.  Tokens are passed by; in front of others a greedy
    pattern searches the whole text. -/
def Pass.step (c : Context) (pass : Pass) (before : List Fragment) (pos : Nat) :
    Fragment → List Fragment → Except Fault Step
  | .raw raw, rest =>
      if pass.pattern.greedy && !rest.isEmpty then pass.stepAcross c before pos raw rest
      else pass.stepAlone c raw rest
  | t, rest => .ok (.more [t] rest)

/-- Scans the fragments from the offset `pos` on, those before it being
    given in reverse. -/
def Pass.scan (c : Context) (pass : Pass) :
    (fuel : Nat) → (before fs : List Fragment) → (pos : Nat) → Except Fault (List Fragment)
  | _, _, [], _ => .ok []
  | 0, _, _ :: _, _ => .error .endless
  | fuel + 1, before, f :: rest, pos =>
      if Text.byteLength c.text < before.length + (rest.length + 1) then .error .overfull
      else do
        match ← pass.step c before pos f rest with
        | .done fs => .ok fs
        | .more settled rest => do
            let fs ← pass.scan c fuel (settled.reverse ++ before) rest
              (pos + Fragment.lengths settled)
            .ok (settled ++ fs)

end Highlighter.Tokenizer
