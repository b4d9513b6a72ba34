import Highlighter.OrderedMap
import Highlighter.Regex.Basic

/-! # Grammars

    A grammar is an ordered list of rules, each under a name: the patterns
    of a token type, or another grammar.  The order is the priority of
    matching.  Names do not repeat, since `set` replaces the rule of a
    name where it stands.

    Grammars refer to one another by number, so that they can refer to
    themselves and share parts. -/

namespace Highlighter

/-- The place of a grammar among all the grammars of a registry. -/
abbrev GrammarId := Nat

/-- A regex and how its matches become tokens. -/
structure Pattern where
  regex : Regex
  /-- The first group is a condition on what precedes the token. -/
  lookbehind : Bool := false
  /-- Matches may run over tokens found earlier. -/
  greedy : Bool := false
  /-- Further labels of the token. -/
  aliases : List String := []
  /-- The grammar for the text of the token. -/
  inside : Option GrammarId := none
deriving DecidableEq

/-- The patterns of a token type. -/
inductive Patterns where
  | single (p : Pattern)
  /-- Tried in order. -/
  | alternatives (ps : List Pattern)
deriving DecidableEq

/-- What a name stands for in a grammar. -/
inductive Rule where
  | patterns (ps : Patterns)
  /-- Another grammar; only the rule `rest` has a meaning for matching. -/
  | grammar (id : GrammarId)
deriving DecidableEq

/-- An ordered list of named rules. -/
structure Grammar where
  rules : List (String × Rule) := []
deriving DecidableEq, Inhabited

/-- The name of the rule whose grammar is merged into the one that has it. -/
def restName : String := "rest"

/-- The patterns as a list. -/
def Patterns.toList : Patterns → List Pattern
  | .single p => [p]
  | .alternatives ps => ps

/-- Changes each of the patterns. -/
def Patterns.map (f : Pattern → Pattern) : Patterns → Patterns
  | .single p => .single (f p)
  | .alternatives ps => .alternatives (ps.map f)

@[simp] theorem Patterns.toList_map (f : Pattern → Pattern) (ps : Patterns) :
    (ps.map f).toList = ps.toList.map f := by
  cases ps <;> rfl

/-- The grammars a rule refers to, in the order they are written. -/
def Rule.references : Rule → List GrammarId
  | .patterns ps => ps.toList.filterMap Pattern.inside
  | .grammar id => [id]

/-- Changes every reference of a rule. -/
def Rule.mapReferences (f : GrammarId → GrammarId) : Rule → Rule
  | .patterns ps => .patterns (ps.map fun p => { p with inside := p.inside.map f })
  | .grammar id => .grammar (f id)

@[simp] theorem Rule.references_mapReferences (f : GrammarId → GrammarId) (r : Rule) :
    (r.mapReferences f).references = r.references.map f := by
  cases r with
  | grammar id => rfl
  | patterns ps =>
      simp only [Rule.mapReferences, Rule.references, Patterns.toList_map, List.filterMap_map,
        List.map_filterMap]
      rfl

theorem Rule.mapReferences_id (r : Rule) : r.mapReferences id = r := by
  cases r with
  | grammar id => rfl
  | patterns ps => cases ps <;> simp [Rule.mapReferences, Patterns.map]

theorem Rule.mapReferences_mapReferences (f f' : GrammarId → GrammarId) (r : Rule) :
    (r.mapReferences f).mapReferences f' = r.mapReferences fun id => f' (f id) := by
  cases r with
  | grammar id => rfl
  | patterns ps => cases ps <;> simp [Rule.mapReferences, Patterns.map, Function.comp_def]

namespace Grammar

/-- The names of the rules, in order. -/
def names (g : Grammar) : List String := OrderedMap.names g.rules

/-- The rule with a name. -/
def get? (g : Grammar) (name : String) : Option Rule := OrderedMap.get? name g.rules

/-- Gives a name a rule: in place of the one it has, or at the end. -/
def set (g : Grammar) (name : String) (r : Rule) : Grammar := ⟨OrderedMap.set name r g.rules⟩

/-- Sets rules one after the other. -/
def setAll (g : Grammar) (rules : List (String × Rule)) : Grammar :=
  ⟨OrderedMap.setAll g.rules rules⟩

/-- Takes out the rule with a name. -/
def remove (g : Grammar) (name : String) : Grammar := ⟨OrderedMap.remove name g.rules⟩

/-- Changes the rule with a name, if there is one. -/
def modify (g : Grammar) (name : String) (f : Rule → Rule) : Grammar :=
  match g.get? name with
  | some r => g.set name (f r)
  | none => g

/-- The grammars that the rules refer to. -/
def references (g : Grammar) : List GrammarId :=
  g.rules.flatMap fun r => r.2.references

/-- Changes every reference. -/
def mapReferences (f : GrammarId → GrammarId) (g : Grammar) : Grammar :=
  ⟨g.rules.map fun r => (r.1, r.2.mapReferences f)⟩

@[simp] theorem names_mapReferences (f : GrammarId → GrammarId) (g : Grammar) :
    (g.mapReferences f).names = g.names := by
  simp [names, OrderedMap.names, mapReferences]

/-- References change in a rule that is set as in the others. -/
theorem mapReferences_set (f : GrammarId → GrammarId) (g : Grammar) (name : String) (r : Rule) :
    (g.set name r).mapReferences f = (g.mapReferences f).set name (r.mapReferences f) :=
  congrArg Grammar.mk (OrderedMap.map_set (Rule.mapReferences f) name r g.rules)

/-- Nothing changes when every reference stays what it is. -/
theorem mapReferences_eq_self {f : GrammarId → GrammarId} (h : ∀ id, f id = id) (g : Grammar) :
    g.mapReferences f = g := by
  obtain rfl : f = id := funext h
  exact congrArg Grammar.mk (List.map_id'' (fun r => congrArg (Prod.mk r.1) r.2.mapReferences_id) _)

/-- References change one way after the other. -/
theorem mapReferences_mapReferences (f f' : GrammarId → GrammarId) (g : Grammar) :
    (g.mapReferences f).mapReferences f' = g.mapReferences fun id => f' (f id) := by
  rw [mapReferences, mapReferences, mapReferences, List.map_map]
  refine congrArg Grammar.mk (List.map_congr_left fun r _ => ?_)
  exact congrArg (Prod.mk r.1) (r.2.mapReferences_mapReferences f f')

theorem mem_names_set {g : Grammar} {name n : String} {r : Rule} :
    n ∈ (g.set name r).names ↔ n = name ∨ n ∈ g.names :=
  OrderedMap.mem_names_set

/-- Setting a rule keeps the names apart. -/
theorem nodup_names_set {g : Grammar} (h : g.names.Nodup) (name : String) (r : Rule) :
    (g.set name r).names.Nodup :=
  OrderedMap.nodup_names_set h name r

end Grammar

/-- The number of a grammar that does not exist. -/
structure NoSuchGrammar where
  id : GrammarId
deriving DecidableEq, Repr

/-- The grammar with a number. -/
def grammarAt (gs : List Grammar) (id : GrammarId) : Except NoSuchGrammar Grammar :=
  match gs[id]? with
  | some g => .ok g
  | none => .error ⟨id⟩

end Highlighter
