import Highlighter.Tokenizer.Basic

/-! # Tokenizing by indices

    The tokenizer holds its fragments in two lists, those in front of a
    place and those behind.  Here they are one row, with a place in it
    given by an index and an offset, and every access is checked: reading
    a fragment, replacing a stretch of the row, slicing the text,
    subtracting.  An access that is out of bounds is a `Trap`.

    Nothing else is different.  Each function does what its counterpart
    does, in the same order; `find` and `Pass.step` differ most, for they
    compute by subtraction what the others get from the lists. -/

namespace Highlighter.Tokenizer.Indexed

open Text (byteLength)
open Regex (Span)

inductive Trap where
  /-- What stops a run without indices. -/
  | fault (e : Fault)
  /-- There is no fragment at an index. -/
  | noSuchFragment (index : Nat)
  /-- A greater number is subtracted from a smaller one. -/
  | underflow
deriving DecidableEq

-- ── Checked accesses ─────────────────────────────────────────────────────

/-- What stops a run stops it here as well. -/
def lift {α : Type} : Except Fault α → Except Trap α
  | .ok a => .ok a
  | .error e => .error (.fault e)

def fragmentAt (fs : List Fragment) (index : Nat) : Except Trap Fragment :=
  match fs[index]? with
  | some f => .ok f
  | none => .error (.noSuchFragment index)

def minus (a b : Nat) : Except Trap Nat := if b ≤ a then .ok (a - b) else .error .underflow

/-- Puts fragments in the place of as many as are `removed` from an index on. -/
def splice (fs : List Fragment) (index removed : Nat) (new : List Fragment) :
    Except Trap (List Fragment) :=
  if index + removed ≤ fs.length then
    .ok (fs.take index ++ (new ++ fs.drop (index + removed)))
  else .error (.noSuchFragment (index + removed))

/-- The raw fragment between two offsets of a text, if there is any text. -/
def rawBetween (text : List Char) (start stop : Nat) : Except Trap (List Fragment) :=
  if start < stop then do
    let cs ← lift (slice text start stop)
    .ok [.raw (String.ofList cs)]
  else .ok []

-- ── Finding ──────────────────────────────────────────────────────────────

/-- The token part of a match; the length of its first group is subtracted. -/
def tokenOf (text : Regex.Haystack) (lookbehind : Bool) (m : Regex.Match) : Except Trap Span := do
  let stripped ← match lookbehind, m.first with
    | true, some (start, stop) => minus (Regex.offset text stop) (Regex.offset text start)
    | _, _ => .ok 0
  let stop := Regex.offset text m.stop
  .ok ⟨min (Regex.offset text m.start + stripped) stop, stop⟩

/-- The token of the first match at `pos` or later that has one.  To go on
    behind the start of a match, the text is sliced there. -/
def findIn (p : Pattern) (search : Regex.Search) (text : Regex.Haystack) (start : Nat) :
    (count pos : Nat) → Except Trap (Option Span)
  | 0, pos => if text.size < pos then .ok none else .error (.fault .endless)
  | count + 1, pos =>
      match search text pos with
      | .error _ => .error (.fault (.gaveUp p.regex))
      | .ok none => .ok none
      | .ok (some m) =>
          if p.regex.flags.sticky && m.start != start then .ok none
          else do
            let t ← tokenOf text p.lookbehind m
            if t.start < t.stop then .ok (some t)
            else do
              let _ ← lift (slice text.toList (Regex.offset text m.start) (byteLength text.toList))
              findIn p search text start count (m.start + 1)

/-- The token of a pattern found in a text; the search has to begin between
    two characters. -/
def find (p : Pattern) (text : Regex.Haystack) (start : Nat) : Except Trap (Option Span) :=
  match p.regex.program with
  | .error e => .error (.fault (.brokenRegex p.regex e))
  | .ok program =>
      match Regex.position? text start with
      | none => .error (.fault .splitCharacter)
      | some pos => findIn p program.search text pos (text.size + 1 - pos) pos

-- ── Scanning ─────────────────────────────────────────────────────────────

structure Context where
  text : List Char
  haystack : Regex.Haystack
  nested : GrammarId → String → Except Trap (List Fragment)

/-- A place in a row of fragments: an index and the bytes in front of it. -/
structure Place where
  fragments : List Fragment
  index : Nat
  pos : Nat

structure Pass where
  name : String
  pattern : Pattern
  once : Bool
  rematch : Place → Except Trap (List Fragment)

inductive Step where
  | done (fs : List Fragment)
  | more (p : Place)

def token (c : Context) (name : String) (p : Pattern) (matched : List Char) :
    Except Trap Fragment := do
  let label : Label := ⟨name, p.aliases, byteLength matched, p.greedy⟩
  match p.inside with
  | some id => do
      let inner ← c.nested id (String.ofList matched)
      .ok (.node label inner)
  | none => .ok (.leaf label (String.ofList matched))

/-- How far a greedy match extends: the first fragment it touches with its
    offset, and the one behind the last with its offset. -/
structure Extent where
  first : Nat
  pos : Nat
  next : Nat
  stop : Nat

def extendsOver (fs : List Fragment) (span : Span) (x : Extent) (f : Fragment) :
    Except Trap Bool :=
  if x.stop < span.stop then .ok true
  else if f.isToken then .ok false
  else if x.next = 0 then .ok true
  else do
    let before ← fragmentAt fs (← minus x.next 1)
    .ok !before.isGreedy

/-- Extends a match over `count` fragments at most. -/
def extend (fs : List Fragment) (span : Span) : (count : Nat) → Extent → Except Trap Extent
  | 0, x => .ok x
  | count + 1, x => do
      let f ← fragmentAt fs x.next
      if ← extendsOver fs span x f then
        let stop := x.stop + f.length
        extend fs span count
          (if stop ≤ span.start then ⟨x.first + 1, stop, x.next + 1, stop⟩
          else ⟨x.first, x.pos, x.next + 1, stop⟩)
      else .ok x

/-- Puts a token in the place of fragments, of which the first one is at
    the place and the last one ends at `stop`; and goes on behind it. -/
def Pass.replace (c : Context) (pass : Pass) (at' : Place) (span : Span) (stop removed : Nat) :
    Except Trap Step := do
  let matched ← lift (slice c.text span.start span.stop)
  let before ← rawBetween c.text at'.pos span.start
  let index := at'.index + before.length
  let pos := max at'.pos span.start
  let t ← token c pass.name pass.pattern matched
  let after ← rawBetween c.text span.stop stop
  let fs ← splice at'.fragments at'.index removed (before ++ t :: after)
  -- from here on the row may have changed, so the token is read from it
  let fs ← if removed = 1 then .ok fs else pass.rematch ⟨fs, index, pos⟩
  if pass.once then .ok (.done fs)
  else do
    let f ← fragmentAt fs index
    .ok (.more ⟨fs, index + 1, pos + f.length⟩)

def Pass.stepAlone (c : Context) (pass : Pass) (at' : Place) (f : Fragment) :
    Except Trap Step := do
  let stop := at'.pos + f.length
  let part ← lift (slice c.text at'.pos stop)
  match ← find pass.pattern part.toArray 0 with
  | none =>
      .ok (if pass.once then .done at'.fragments else .more ⟨at'.fragments, at'.index + 1, stop⟩)
  | some span =>
      pass.replace c at' ⟨at'.pos + span.start, at'.pos + span.stop⟩ stop 1

/-- A step at the fragments that a match in the whole text extends over.  A
    match that begins in a token makes none. -/
def Pass.stepOver (c : Context) (pass : Pass) (fs : List Fragment) (span : Span) (x : Extent) :
    Except Trap Step :=
  match fs[x.first]? with
  | some (.raw _) => do
      let removed ← minus x.next x.first
      pass.replace c ⟨fs, x.first, x.pos⟩ span x.stop removed
  | some f => .ok (.more ⟨fs, x.first + 1, x.pos + f.length⟩)
  | none => .ok (.more ⟨fs, x.first + 1, x.pos⟩)

def Pass.stepAcross (c : Context) (pass : Pass) (at' : Place) : Except Trap Step := do
  match ← find pass.pattern c.haystack at'.pos with
  | none => .ok (.done at'.fragments)
  | some span => do
      let count ← minus at'.fragments.length at'.index
      let x ← extend at'.fragments span count ⟨at'.index, at'.pos, at'.index, at'.pos⟩
      pass.stepOver c at'.fragments span x

def Pass.step (c : Context) (pass : Pass) (at' : Place) : Except Trap Step := do
  let f ← fragmentAt at'.fragments at'.index
  if f.isToken then .ok (.more ⟨at'.fragments, at'.index + 1, at'.pos + f.length⟩)
  else do
    let last ← minus at'.fragments.length 1
    if pass.pattern.greedy && at'.index != last then pass.stepAcross c at'
    else pass.stepAlone c at' f

def Pass.scan (c : Context) (pass : Pass) : (fuel : Nat) → Place → Except Trap (List Fragment)
  | 0, at' =>
      if at'.index < at'.fragments.length then .error (.fault .endless) else .ok at'.fragments
  | fuel + 1, at' =>
      if at'.index < at'.fragments.length then
        if byteLength c.text < at'.fragments.length then .error (.fault .overfull)
        else do
          match ← pass.step c at' with
          | .done fs => .ok fs
          | .more at' => pass.scan c fuel at'
      else .ok at'.fragments

-- ── Entries and grammars ─────────────────────────────────────────────────

def applyEntries (c : Context) : List Entry → (once : Bool) → Place →
    Except Trap (List Fragment)
  | [], _, at' => .ok at'.fragments
  | e :: earlier, once, at' => do
      let fs ← applyEntries c earlier once at'
      e.patterns.foldlM
        (fun fs p =>
          Pass.scan c ⟨e.name, p, once, applyEntries c earlier true⟩ (byteLength c.text + 1)
            { at' with fragments := fs })
        fs

def tokenizeBy (gs : List Grammar) (nested : GrammarId → String → Except Trap (List Fragment))
    (id : GrammarId) (text : String) : Except Trap (List Fragment) :=
  if text.isEmpty then .ok []
  else match entries gs id with
    | .error e => .error (.fault (.noSuchGrammar e.id))
    | .ok es =>
        applyEntries ⟨text.toList, text.toList.toArray, nested⟩ es.reverse false
          ⟨[.raw text], 0, 0⟩

def tokenizeWithin (gs : List Grammar) : (depth : Nat) → GrammarId → String →
    Except Trap (List Fragment)
  | 0 => fun _ _ => .error (.fault .endless)
  | depth + 1 => tokenizeBy gs (tokenizeWithin gs depth)

end Highlighter.Tokenizer.Indexed
