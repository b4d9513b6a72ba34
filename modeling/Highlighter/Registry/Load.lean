import Highlighter.Document.Basic
import Highlighter.Error
import Highlighter.Registry.Catalog

/-! # Loading grammar documents

    Making grammars of a document adds to the catalog as it goes: grammars
    written in place, and places for names that are not known yet.  Every
    pattern is read at once.  When one is broken, all that was added is
    dropped again. -/

namespace Highlighter

/-- Work on a catalog that may fail and then leaves the catalog as it is. -/
abbrev Load := ExceptT Error (StateM Catalog)

namespace Load

open Document (Reference Descriptor PatternForm PatternsForm)

/-- Adds a grammar without a name. -/
def add (g : Grammar) : Load GrammarId := fun c => ((.ok (c.add g).1, (c.add g).2))

/-- The grammar a name refers to. -/
def link (name : String) : Load GrammarId := fun c => ((.ok (c.link name).1, (c.link name).2))

/-- The regex of a source and flags, if it can be read. -/
def regex (source flags : String) : Load Regex :=
  let r := Regex.ofStrings source flags
  match r.program with
  | .ok _ => pure r
  | .error e => throw (.invalidPattern r e)

mutual

/-- The grammar of a reference. -/
def reference : Reference → Load GrammarId
  | .language name => link name
  | .inline entries rest => do
      let g ← rules entries {}
      let g ← restRule rest g
      add g

/-- Sets the rules of tokens on a grammar. -/
def rules : List (String × PatternsForm Reference) → Grammar → Load Grammar
  | [], g => pure g
  | (name, ps) :: entries, g => do
      let ps ← patterns ps
      rules entries (g.set name (.patterns ps))

/-- Sets the rule for what is merged in. -/
def restRule : Option Reference → Grammar → Load Grammar
  | none, g => pure g
  | some r, g => do
      let id ← reference r
      pure (g.set restName (.grammar id))

/-- The patterns of a token. -/
def patterns : PatternsForm Reference → Load Patterns
  | .single p => do
      let p ← pattern p
      pure (.single p)
  | .alternatives ps => do
      let ps ← alternatives ps
      pure (.alternatives ps)

/-- Patterns one after the other. -/
def alternatives : List (PatternForm Reference) → Load (List Pattern)
  | [] => pure []
  | p :: ps => do
      let p ← pattern p
      let ps ← alternatives ps
      pure (p :: ps)

/-- A pattern; its regex is read first. -/
def pattern : PatternForm Reference → Load Pattern
  | .source source => do
      let regex ← regex source ""
      pure { regex }
  | .descriptor ⟨source, flags, lookbehind, greedy, aliases, grammar⟩ => do
      let regex ← regex source flags
      let inside ← inside grammar
      pure { regex, lookbehind, greedy, aliases := aliases.toList, inside }

/-- The grammar for the text of a token. -/
def inside : Option Reference → Load (Option GrammarId)
  | none => pure none
  | some r => do
      let id ← reference r
      pure (some id)

end

/-- The grammar of tokens. -/
def grammar (t : Document.Tokens) : Load Grammar := do
  let g ← rules t.entries {}
  restRule t.rest g

end Load

/-- Adds the language of a document under all its names.  The catalog does
    not change when that fails. -/
def Catalog.load (c : Catalog) (d : Document) : Except Error GrammarId × Catalog :=
  match Load.grammar d.tokens c with
  | (.error e, loaded) => (.error e, loaded.discard c.grammars.length)
  | (.ok g, loaded) =>
      let (id, named) := loaded.addLanguage d.name g
      (.ok id, d.aliases.foldl (fun c name => c.setLanguage name id) named)

/-- What is left of a document that cannot be loaded is dropped. -/
theorem Catalog.load_of_error {c loaded : Catalog} {d : Document} {e : Error}
    (h : Load.grammar d.tokens c = (.error e, loaded)) :
    c.load d = (.error e, loaded.discard c.grammars.length) := by
  rw [load, h]

/-- The grammar of a document is added under its name, then under the
    others. -/
theorem Catalog.load_of_ok {c loaded named : Catalog} {d : Document} {g : Grammar}
    {id : GrammarId} (h : Load.grammar d.tokens c = (.ok g, loaded))
    (hnamed : loaded.addLanguage d.name g = (id, named)) :
    c.load d = (.ok id, d.aliases.foldl (fun c name => c.setLanguage name id) named) := by
  rw [load, h]
  simp only [hnamed]

end Highlighter
