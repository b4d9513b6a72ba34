import Highlighter.Grammar.Basic

/-! # Walking through grammars

    A walk starts from named grammars and follows every reference, depth
    first and in the order of the rules.  It enters a grammar once, though
    it may be shared or refer to itself, and reports what it meets: the
    grammar, the patterns of each rule, and each of them where they are
    alternatives.

    What is still to be met is a list of stops; entering a grammar puts the
    stops of its rules in front.  The numbers not entered yet become fewer
    with every grammar, so walks end. -/

namespace Highlighter

/-- What a walk meets. -/
inductive Node where
  | grammar (id : GrammarId)
  /-- The patterns of a rule. -/
  | patterns (ps : Patterns)
  /-- One of the alternatives of a rule. -/
  | alternative (p : Pattern)
deriving DecidableEq

/-- Something that a walk meets. -/
structure Visit where
  /-- The name or number under which it was met. -/
  key : String
  node : Node
  /-- The closest name of a rule, or of a language at the start. -/
  hint : String
deriving DecidableEq

/-- The grammar a visit has entered, if it has. -/
def Visit.grammar? (v : Visit) : Option GrammarId :=
  match v.node with
  | .grammar id => some id
  | _ => none

namespace Walk

/-- What a walk still has to meet. -/
inductive Stop where
  | visit (v : Visit)
  /-- A reference to a grammar, to be entered unless it was before. -/
  | reference (key : String) (id : GrammarId) (hint : String)

/-- The alternatives of a rule, numbered from `n` on. -/
def alternatives (hint : String) : (n : Nat) → List Pattern → List Stop
  | _, [] => []
  | n, p :: ps => .visit ⟨toString n, .alternative p, hint⟩ :: alternatives hint (n + 1) ps

/-- The stops of a rule. -/
def stops : String × Rule → List Stop
  | (name, .grammar id) => [.reference name id name]
  | (name, .patterns ps) =>
      .visit ⟨name, .patterns ps, name⟩ ::
        (match ps with
          | .single _ => []
          | .alternatives ps => alternatives name 0 ps) ++
        (Rule.references (.patterns ps)).map fun id => .reference "inside" id name

/-- Meets the stops in order, `unseen` being the grammars not entered. -/
def run (gs : List Grammar) (unseen : List GrammarId) (pending : List Stop) :
    Except NoSuchGrammar (List Visit) :=
  match pending with
  | [] => .ok []
  | .visit v :: pending => do
      let vs ← run gs unseen pending
      .ok (v :: vs)
  | .reference key id hint :: pending =>
      match gs[id]? with
      | none => .error ⟨id⟩
      | some g =>
          if id ∈ unseen then do
            let vs ← run gs (unseen.erase id) (g.rules.flatMap stops ++ pending)
            .ok (⟨key, .grammar id, hint⟩ :: vs)
          else run gs unseen pending
termination_by (unseen.length, pending.length)
decreasing_by
  · exact Prod.Lex.right _ (Nat.lt_succ_self _)
  · have h := List.length_erase_of_mem ‹id ∈ unseen›
    have := List.length_pos_of_mem ‹id ∈ unseen›
    exact Prod.Lex.left _ _ (by omega)
  · exact Prod.Lex.right _ (Nat.lt_succ_self _)

end Walk

/-- What a walk from named grammars meets. -/
def walk (gs : List Grammar) (roots : List (String × GrammarId)) :
    Except NoSuchGrammar (List Visit) :=
  Walk.run gs (List.range gs.length) (roots.map fun r => .reference r.1 r.2 r.1)

/-- The grammars that can be reached from others, in the order of a walk. -/
def reachable (gs : List Grammar) (roots : List GrammarId) :
    Except NoSuchGrammar (List GrammarId) := do
  let vs ← walk gs (roots.map (("", ·)))
  .ok (vs.filterMap Visit.grammar?)

end Highlighter
