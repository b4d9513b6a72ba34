import Highlighter.Tokenizer.Scan

/-! # Tokenizing

    A text starts as one raw fragment.  The entries of the grammar are
    applied in order, every pattern to the raw text the ones before have
    left.  A token of a pattern with a grammar inside is tokenized in
    turn.

    Tokens nest without end only when some text comes up twice with the
    same grammar on the way down; so the bytes of the text times the
    number of grammars bound the depth, and beyond it the answer is the
    fault `endless`. -/

namespace Highlighter.Tokenizer

/-- Applies entries, the last one first in the list, to the fragments from
    the offset `pos` on. -/
def applyEntries (c : Context) : List Entry → (once : Bool) → (before fs : List Fragment) →
    (pos : Nat) → Except Fault (List Fragment)
  | [], _, _, fs, _ => .ok fs
  | e :: earlier, once, before, fs, pos => do
      let fs ← applyEntries c earlier once before fs pos
      e.patterns.foldlM
        (fun fs p =>
          let again := fun before fs pos => applyEntries c earlier true before fs pos
          Pass.scan c ⟨e.name, p, once, again⟩ (Text.byteLength c.text + 1) before fs pos)
        fs

/-- Tokenizes a text, the texts of its tokens by `nested`. -/
def tokenizeBy (gs : List Grammar) (nested : GrammarId → String → Except Fault (List Fragment))
    (id : GrammarId) (text : String) : Except Fault (List Fragment) :=
  if text.isEmpty then .ok []
  else match entries gs id with
    | .error e => .error (.noSuchGrammar e.id)
    | .ok es => applyEntries (.of nested text) es.reverse false [] [.raw text] 0

/-- Tokenizes a text, with tokens nested `depth` deep at most. -/
def tokenizeWithin (gs : List Grammar) : (depth : Nat) → GrammarId → String →
    Except Fault (List Fragment)
  | 0 => fun _ _ => .error .endless
  | depth + 1 => tokenizeBy gs (tokenizeWithin gs depth)

/-- Tokenizes a text with a grammar. -/
def tokenize (gs : List Grammar) (id : GrammarId) (text : String) : Except Fault (List Fragment) :=
  tokenizeWithin gs (text.utf8ByteSize * gs.length + 1) id text

end Highlighter.Tokenizer
