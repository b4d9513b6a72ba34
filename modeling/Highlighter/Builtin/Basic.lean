import Highlighter.Builtin.Code
import Highlighter.Builtin.Diagrams
import Highlighter.Builtin.Exchange
import Highlighter.Builtin.Markup
import Highlighter.Registry.Basic

/-! # The builtin registry

    The languages that need no grammar file, and the plain one.  A wrap
    hook shows the character of an entity when the pointer rests on it. -/

namespace Highlighter

namespace Builtin

/-- The documents of the languages, in the order of loading. -/
def documents : List Document :=
  [markup, mermaid, nomnoml, plantuml, http, erd, diag, ascii, json, request, sh, clojure, pikchr]

/-- The text without the first `amp;` that follows an ampersand. -/
def unescapeFirst : List Char → List Char
  | '&' :: 'a' :: 'm' :: 'p' :: ';' :: cs => '&' :: cs
  | c :: cs => c :: unescapeFirst cs
  | [] => []

/-- Gives an entity its source text as a title. -/
def entityTitle (env : WrapEnv) : WrapEnv :=
  if env.kind = "entity" then
    env.setAttribute "title" (String.ofList (unescapeFirst env.content.toList))
  else env

/-- Adds the languages of documents up to the first that fails. -/
def loadAll (r : Registry) : List Document → Except Error Registry
  | [] => .ok r
  | d :: ds =>
      match r.load d with
      | (.ok _, r) => loadAll r ds
      | (.error e, _) => .error e

end Builtin

/-- A registry with the builtin languages. -/
def Registry.builtin : Except Error Registry := do
  let r ← Builtin.loadAll {} Builtin.documents
  .ok
    { r with
      catalog := (r.catalog.addPlain ["text", "txt"]).2
      hooks := r.hooks.addWrap Builtin.entityTitle }

end Highlighter
