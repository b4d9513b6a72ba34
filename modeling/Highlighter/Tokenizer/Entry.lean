import Highlighter.Grammar.Basic

/-! # The entries of a grammar

    What a grammar matches with: its rules that are patterns, after the
    grammar of its rule `rest` is merged in.  A rule of that grammar takes
    the place of the rule of the same name, and the others follow at the
    end. -/

namespace Highlighter

/-- A token type and its patterns. -/
structure Entry where
  name : String
  patterns : List Pattern
deriving DecidableEq

/-- The entry of a rule, if the rule is made of patterns. -/
def Entry.ofRule? : String × Rule → Option Entry
  | (name, .patterns ps) => some ⟨name, ps.toList⟩
  | (_, .grammar _) => none

/-- Rules with others merged in: a rule takes the place of the one of its
    name, and those of new names follow. -/
def overlay (rules others : List (String × Rule)) : List (String × Rule) :=
  rules.map (fun r => (r.1, (OrderedMap.get? r.1 others).getD r.2)) ++
    others.filter fun r => !(OrderedMap.names rules).contains r.1

/-- The rules of a grammar with its `rest` merged in. -/
def mergedRules (gs : List Grammar) (id : GrammarId) :
    Except NoSuchGrammar (List (String × Rule)) := do
  let g ← grammarAt gs id
  match g.get? restName with
  | some (.grammar rest) => do
      let r ← grammarAt gs rest
      .ok ((overlay g.rules r.rules).filter (·.1 != restName))
  | _ => .ok g.rules

/-- What a grammar matches with, in order. -/
def entries (gs : List Grammar) (id : GrammarId) : Except NoSuchGrammar (List Entry) := do
  .ok ((← mergedRules gs id).filterMap Entry.ofRule?)

end Highlighter
