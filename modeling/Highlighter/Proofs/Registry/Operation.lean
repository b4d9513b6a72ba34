import Highlighter.Registry.Basic

/-! # Operations and reachable registries

    Everything that can be done with a registry, as data, and what it makes
    of one.  An operation that refers to a language or a grammar that does
    not exist is none.  A registry is reachable when a sequence of
    operations leads to it from the empty one; what holds of the empty
    registry and is kept by every operation holds of all of them
    (`Reachable.invariant`).

    At the end stand two small documents to load. -/

namespace Highlighter

/-- What can be done with a registry. -/
inductive Operation where
  /-- Adds a grammar without a name. -/
  | add (g : Grammar)
  | setLanguage (name : String) (id : GrammarId)
  | addLanguage (name : String) (g : Grammar)
  | addAlias (name other : String)
  | addPlain (aliases : List String)
  /-- Loads a document; that may fail. -/
  | load (d : Document)
  | copy (id : GrammarId)
  | extend (language : String) (rules : List (String × Rule))
  | insertBefore (id : GrammarId) (anchor : Option String) (rules : List (String × Rule))
  /-- Changes a grammar in any way. -/
  | edit (id : GrammarId) (f : Grammar → Grammar)
  /-- Changes the hooks and the way tokens are written. -/
  | configure (hooks : Hooks) (renderer : Html.Renderer)

namespace Operation

/-- The registry after an operation, if what it refers to exists. -/
def run (r : Registry) : Operation → Option Registry
  | .add g => some { r with catalog := (r.catalog.add g).2 }
  | .setLanguage name id => some { r with catalog := r.catalog.setLanguage name id }
  | .addLanguage name g => some { r with catalog := (r.catalog.addLanguage name g).2 }
  | .addAlias name other => some { r with catalog := r.catalog.addAlias name other }
  | .addPlain aliases => some { r with catalog := (r.catalog.addPlain aliases).2 }
  | .load d => some (r.load d).2
  | .copy id =>
      match r.catalog.copy id with
      | .ok (_, catalog) => some { r with catalog }
      | .error _ => none
  | .extend language rules =>
      match r.extend language rules with
      | .ok (_, extended) => some extended
      | .error _ => none
  | .insertBefore id anchor rules =>
      match r.catalog.insertBefore id anchor rules with
      | .ok (_, catalog) => some { r with catalog }
      | .error _ => none
  | .edit id f =>
      if id < r.catalog.grammars.length then
        some { r with catalog := { r.catalog with grammars := r.catalog.grammars.modify id f } }
      else none
  | .configure hooks renderer => some { r with hooks, renderer }

end Operation

namespace Registry

/-- A registry that operations lead to from the empty one. -/
inductive Reachable : Registry → Prop where
  | empty : Reachable {}
  | step {r r' : Registry} (op : Operation) : Reachable r → op.run r = some r' → Reachable r'

/-- What every operation keeps holds of every reachable registry. -/
theorem Reachable.invariant {I : Registry → Prop} {r : Registry} (h : r.Reachable)
    (hempty : I {}) (hstep : ∀ r r' (op : Operation), I r → op.run r = some r' → I r') : I r := by
  induction h with
  | empty => exact hempty
  | step op _ hrun ih => exact hstep _ _ op ih hrun

end Registry

-- ── Small documents ──────────────────────────────────────────────────────

/-- A document with words for tokens. -/
def Document.words (name : String) (aliases : List String) : Document :=
  { name, aliases, tokens := .ofEntries [("word", Document.source "[a-z]+")] }

/-- A document with words for tokens, which have tokens of a language. -/
def Document.wordsOf (language name : String) (aliases : List String) : Document :=
  { name, aliases
    tokens := .ofEntries
      [("word", Document.one { pattern := "[a-z]+", inside := some (.language language) })] }

end Highlighter
