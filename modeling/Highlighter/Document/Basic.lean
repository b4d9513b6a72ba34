/-! # Grammar documents

    What a grammar file says: a name, further names and the tokens of the
    language, in the order of the document.  A pattern may have a grammar
    for its text, and the tokens may have one to be merged in; either is
    another language by name or tokens written in place, which makes the
    type `Reference` recursive. -/

namespace Highlighter

namespace Document

/-- The further labels of a token, as they were written. -/
inductive Aliases where
  | one (name : String)
  | many (names : List String)
deriving DecidableEq, Repr

/-- The labels as a list. -/
def Aliases.toList : Aliases → List String
  | .one name => [name]
  | .many names => names

/-- A pattern with all that can be said of it; `ρ` stands for references. -/
structure Descriptor (ρ : Type) where
  pattern : String
  flags : String := ""
  lookbehind : Bool := false
  greedy : Bool := false
  aliases : Aliases := .many []
  inside : Option ρ := none

/-- A pattern is a source alone or a descriptor. -/
inductive PatternForm (ρ : Type) where
  | source (source : String)
  | descriptor (d : Descriptor ρ)

/-- The patterns of a token: alternatives or a single one. -/
inductive PatternsForm (ρ : Type) where
  | alternatives (ps : List (PatternForm ρ))
  | single (p : PatternForm ρ)

/-- Where a grammar comes from. -/
inductive Reference where
  /-- A language by its name, which need not be known yet. -/
  | language (name : String)
  /-- Tokens written in place, and what is merged into them. -/
  | inline (entries : List (String × PatternsForm Reference)) (rest : Option Reference)

/-- The tokens of a grammar. -/
structure Tokens where
  entries : List (String × PatternsForm Reference) := []
  /-- The grammar to be merged in. -/
  rest : Option Reference := none

/-- Tokens without a grammar to be merged in. -/
def Tokens.ofEntries (entries : List (String × PatternsForm Reference)) : Tokens := { entries }

/-- Tokens written in place. -/
def Reference.ofTokens (t : Tokens) : Reference := .inline t.entries t.rest

/-- The descriptor of a pattern; a source alone stands for a descriptor
    with nothing else said. -/
def PatternForm.toDescriptor {ρ : Type} : PatternForm ρ → Descriptor ρ
  | .source s => { pattern := s }
  | .descriptor d => d

/-- A single pattern, of a source alone. -/
def source {ρ : Type} (s : String) : PatternsForm ρ := .single (.source s)

/-- A single pattern with a descriptor. -/
def one {ρ : Type} (d : Descriptor ρ) : PatternsForm ρ := .single (.descriptor d)

end Document

/-- A grammar document. -/
structure Document where
  name : String
  aliases : List String := []
  tokens : Document.Tokens

end Highlighter
