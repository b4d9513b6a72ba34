import Highlighter.Document.Reader
import Highlighter.Html
import Highlighter.Registry.Load
import Highlighter.Tokenizer.Basic

/-! # Registries

    A registry knows languages, hooks and how tokens are written, and with
    them turns code into HTML.  Highlighting runs the hooks in front of
    tokenizing, tokenizes, runs the hooks behind it, renders, and runs the
    hooks on the result. -/

namespace Highlighter

/-- Languages, hooks and the way of writing tokens. -/
structure Registry where
  catalog : Catalog := {}
  hooks : Hooks := {}
  renderer : Html.Renderer := {}

/-- The document in a file, given what reading the file has led to.  A
    directory can be opened like a file and fails only then. -/
def Document.ofFile (content : Except FileError String) : Except Error Document :=
  match content with
  | .ok content =>
      match Document.read .file content with
      | .ok d => .ok d
      | .error e => .error (.document (.text e))
  | .error .isADirectory => .error (.document (.unreadable .isADirectory))
  | .error e => .error (.file e)

/-- The document in a text. -/
def Document.ofString (content : String) : Except Error Document :=
  match Document.read .memory content with
  | .ok d => .ok d
  | .error e => .error (.document (.text e))

namespace Registry

/-- Adds the language of a document. -/
def load (r : Registry) (d : Document) : Except Error GrammarId × Registry :=
  let (result, catalog) := r.catalog.load d
  (result, { r with catalog })

/-- Adds the language of a document, if that could be read. -/
def loadRead (r : Registry) (d : Except Error Document) : Except Error GrammarId × Registry :=
  match d with
  | .ok d => r.load d
  | .error e => (.error e, r)

/-- Adds the language of a document in a text. -/
def loadText (r : Registry) (content : String) : Except Error GrammarId × Registry :=
  r.loadRead (Document.ofString content)

/-- Adds the language of a document in a file. -/
def loadFile (r : Registry) (content : Except FileError String) :
    Except Error GrammarId × Registry :=
  r.loadRead (Document.ofFile content)

/-- Copies the grammar of a language and sets rules on the copy. -/
def extend (r : Registry) (language : String) (rules : List (String × Rule)) :
    Except Error (GrammarId × Registry) :=
  match r.catalog.grammarId? language with
  | none => .error (.grammarNotFound language)
  | some id =>
      match r.catalog.copy id with
      | .error e => .error (.tokenizing (.noSuchGrammar e.id))
      | .ok (new, c) =>
          let grammars := c.grammars.modify new fun g => g.setAll rules
          .ok (new, { r with catalog := { c with grammars } })

/-- Tokenizes a text with a grammar. -/
def tokenize (r : Registry) (id : GrammarId) (text : String) :
    Except Tokenizer.Fault (List Fragment) :=
  Tokenizer.tokenize r.catalog.grammars id text

/-- The grammar to highlight a language with: that of the language itself,
    or the plain one if it may stand in. -/
def grammarFor (r : Registry) (language : String) (fallback : Bool) : Except Error GrammarId :=
  match r.catalog.grammarId? language with
  | some id => .ok id
  | none =>
      match fallback, r.catalog.grammarId? plainName with
      | true, some id => .ok id
      | _, _ => .error (.grammarNotFound language)

/-- The fragments of what the hooks have made of the code. -/
def fragments (r : Registry) (env : HighlightEnv) : Except Error (List Fragment) :=
  match env.grammar with
  | some id =>
      match r.tokenize id env.code with
      | .ok fs => .ok fs
      | .error fault => .error (.tokenizing fault)
  | none => .ok (if env.code.isEmpty then [] else [.raw env.code])

/-- Highlights code with a grammar. -/
def highlightWith (r : Registry) (id : GrammarId) (language code : String) :
    Except Error String := do
  let env := r.hooks.run .beforeTokenize { code, grammar := some id, language }
  let tokens ← r.fragments env
  let env := r.hooks.run .afterTokenize { env with tokens }
  let html := r.renderer.render r.hooks env.language env.tokens
  let env := r.hooks.run .beforeInsert { env with html }
  .ok (r.hooks.run .afterHighlight env).html

/-- Highlights code of a language. -/
def highlight (r : Registry) (language code : String) (fallback : Bool) : Except Error String := do
  let id ← r.grammarFor language fallback
  r.highlightWith id language code

end Registry

end Highlighter
