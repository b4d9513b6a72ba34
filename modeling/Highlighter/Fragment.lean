/-! # Fragments

    What a tokenized text is made of: raw text that no pattern claimed,
    and tokens.  A token of a pattern with a grammar of its own holds
    fragments, any other token holds text.  `text` gives back the source
    text that fragments stand for. -/

namespace Highlighter

/-- What is known of a token beside its content. -/
structure Label where
  /-- The name of the rule that matched. -/
  kind : String
  /-- The further labels of the pattern. -/
  aliases : List String := []
  /-- The number of bytes of the matched text. -/
  length : Nat
  /-- Whether the pattern was greedy. -/
  greedy : Bool := false
deriving DecidableEq, Repr

/-- An element of a tokenized text. -/
inductive Fragment where
  /-- Text that no pattern claimed. -/
  | raw (text : String)
  /-- A token with the text it matched. -/
  | leaf (label : Label) (text : String)
  /-- A token whose text is tokenized in turn. -/
  | node (label : Label) (inner : List Fragment)
deriving Repr

namespace Fragment

/-- The number of bytes a fragment covers. -/
def length : Fragment → Nat
  | .raw text => text.utf8ByteSize
  | .leaf label _ => label.length
  | .node label _ => label.length

/-- The label of a token. -/
def label? : Fragment → Option Label
  | .raw _ => none
  | .leaf label _ => some label
  | .node label _ => some label

/-- Whether the fragment is a token. -/
def isToken (f : Fragment) : Bool := f.label?.isSome

/-- Whether the fragment is a token of a greedy pattern. -/
def isGreedy (f : Fragment) : Bool := f.label?.any Label.greedy

mutual

/-- The source text of a fragment. -/
def text : Fragment → String
  | .raw text => text
  | .leaf _ text => text
  | .node _ inner => texts inner

/-- The source text of fragments in a row. -/
def texts : List Fragment → String
  | [] => ""
  | f :: fs => f.text ++ texts fs

end

/-- The number of bytes that fragments in a row cover. -/
def lengths : List Fragment → Nat
  | [] => 0
  | f :: fs => f.length + lengths fs

@[simp] theorem lengths_nil : lengths [] = 0 := rfl

@[simp] theorem lengths_cons (f : Fragment) (fs : List Fragment) :
    lengths (f :: fs) = f.length + lengths fs := rfl

@[simp] theorem lengths_append (fs gs : List Fragment) :
    lengths (fs ++ gs) = lengths fs + lengths gs := by
  induction fs with
  | nil => simp
  | cons f fs ih => simp [ih, Nat.add_assoc]

@[simp] theorem texts_nil : texts [] = "" := by rw [texts]

@[simp] theorem texts_cons (f : Fragment) (fs : List Fragment) :
    texts (f :: fs) = f.text ++ texts fs := by rw [texts]

@[simp] theorem texts_append (fs gs : List Fragment) :
    texts (fs ++ gs) = texts fs ++ texts gs := by
  induction fs with
  | nil => simp
  | cons f fs ih => simp [ih, String.append_assoc]

end Fragment

end Highlighter
