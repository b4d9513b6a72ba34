import Highlighter.Regex.Dialect
import Highlighter.Regex.Expr.OfTree
import Highlighter.Regex.Program
import Highlighter.Regex.Reader
import Highlighter.Regex.Tree.Settled

/-! # Regexes and how they find tokens

    A `Regex` is a source and its flags; what they compile to comes with
    it, and so does the proof that it does.  Two regexes are equal when
    they are written alike.

    `find` goes from match to match up to the first one with a token in it:
    the token is the match without its prefix, and a match that leaves
    nothing is passed over.  When a match is given up on the way, there is
    no answer.  It counts in bytes, for that is how texts are cut. -/

namespace Highlighter

open Regex (Flags SyntaxError Haystack)

namespace Regex

/-- The options a flags value stands for. -/
def Flags.modes (flags : Flags) : Modes :=
  { ignoreCase := flags.ignoreCase, dotAll := flags.dotAll, singleLine := !flags.multiline }

/-- Reads the characters of a source under flags. -/
def compileChars (source : List Char) (flags : Flags) : Except SyntaxError Program := do
  let reading ← Reader.read flags.modes (Dialect.expand flags source)
  let tree ← reading.tree.settleWhole reading.groups
  .ok { expr := tree.toExpr, groups := reading.groups, longest := reading.longest }

/-- Reads a source under flags. -/
def compile (source : String) (flags : Flags) : Except SyntaxError Program :=
  compileChars source.toList flags

end Regex

/-- A regex literal. -/
structure Regex where
  source : String
  flags : Flags := {}
  /-- What the source compiles to under the flags. -/
  program : Except SyntaxError Regex.Program := Regex.compile source flags
  program_eq : program = Regex.compile source flags := by rfl

namespace Regex

/-- Regexes that are written alike are equal. -/
theorem eq_of_source_flags {a b : Regex} (hs : a.source = b.source) (hf : a.flags = b.flags) :
    a = b := by
  obtain ⟨sa, fa, pa, ha⟩ := a
  obtain ⟨sb, fb, pb, hb⟩ := b
  obtain rfl : sa = sb := hs
  obtain rfl : fa = fb := hf
  subst ha hb
  rfl

instance : DecidableEq Regex := fun a b =>
  if h : a.source = b.source ∧ a.flags = b.flags then
    isTrue (eq_of_source_flags h.1 h.2)
  else isFalse fun hab => h ⟨congrArg source hab, congrArg flags hab⟩

/-- A regex from a source and the letters of its flags. -/
def ofStrings (source flags : String) : Regex :=
  { source, flags := Flags.ofString flags }

/-- The regex as a literal, its source between slashes as it stands. -/
def toString (r : Regex) : String :=
  "/" ++ r.source ++ "/" ++ r.flags.toString

instance : ToString Regex := ⟨toString⟩

instance : Inhabited Regex := ⟨ofStrings "" ""⟩

-- ── Finding tokens ───────────────────────────────────────────────────────

/-- A stretch of a text, in bytes. -/
structure Span where
  start : Nat
  stop : Nat
deriving DecidableEq, Repr

/-- The byte offset of a character. -/
def offset (text : Haystack) (pos : Nat) : Nat :=
  Text.byteLength (text.toList.take pos)

/-- The character at a byte offset, or the end of the text. -/
def position? (text : Haystack) (bytes : Nat) : Option Nat :=
  (Text.takeBytes? bytes text.toList).map List.length

/-- The token part of a match: without as many bytes in front as the first
    group has matched, when it is a prefix. -/
def Match.token (text : Haystack) (lookbehind : Bool) (m : Match) : Span :=
  let stripped := match lookbehind, m.first with
    | true, some (start, stop) => offset text stop - offset text start
    | _, _ => 0
  let stop := offset text m.stop
  ⟨min (offset text m.start + stripped) stop, stop⟩

/-- Why a search for a token has no answer. -/
inductive Failure where
  /-- The source cannot be read. -/
  | unreadable (error : SyntaxError)
  /-- A match was given up. -/
  | gaveUp
  /-- The matches do not move on. -/
  | endless
deriving DecidableEq, Repr

/-- The token of the first match at `pos` or later that has one, in
    `count` attempts at most.  The search goes on one character after a
    match without a token, and a sticky regex has to match at `start`. -/
def findIn (search : Search) (sticky lookbehind : Bool) (text : Haystack) (start : Nat) :
    (count pos : Nat) → Except Failure (Option Span)
  | 0, pos => if text.size < pos then .ok none else .error .endless
  | count + 1, pos =>
      match search text pos with
      | .error _ => .error .gaveUp
      | .ok none => .ok none
      | .ok (some m) =>
          if sticky && m.start != start then .ok none
          else
            let t := m.token text lookbehind
            if t.start < t.stop then .ok (some t)
            else findIn search sticky lookbehind text start count (m.start + 1)

/-- The first token at or after a byte offset. -/
def find (r : Regex) (text : Haystack) (start : Nat) (lookbehind : Bool) :
    Except Failure (Option Span) :=
  match r.program, position? text start with
  | .error e, _ => .error (.unreadable e)
  | .ok _, none => .ok none
  | .ok p, some pos =>
      findIn p.search r.flags.sticky lookbehind text pos (text.size + 1 - pos) pos

end Regex

end Highlighter
