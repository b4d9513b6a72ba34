import Highlighter.Grammar.Walk

/-! # Copies of grammars

    Copying a grammar copies everything it can reach, so that changes to
    the copy never show in what was copied.  Copies are added at the end in
    the order of a walk; references between copied grammars become
    references between their copies. -/

namespace Highlighter

/-- The number of a copied grammar's copy, the copies being numbered from
    `start` on. -/
def copyOf (start : Nat) (copied : List GrammarId) (id : GrammarId) : GrammarId :=
  start + copied.idxOf id

/-- The grammars with the copies of some of them at the end. -/
def withCopies (gs : List Grammar) (copied : List GrammarId) : List Grammar :=
  gs ++ copied.filterMap fun id =>
    (gs[id]?).map (Grammar.mapReferences (copyOf gs.length copied))

/-- Copies a grammar and all it can reach; the number of its copy and the
    grammars with the copies. -/
def deepCopy (gs : List Grammar) (id : GrammarId) :
    Except NoSuchGrammar (GrammarId × List Grammar) := do
  let copied ← reachable gs [id]
  .ok (copyOf gs.length copied id, withCopies gs copied)

end Highlighter
