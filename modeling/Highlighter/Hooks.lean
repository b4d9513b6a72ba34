import Highlighter.Error
import Highlighter.Grammar.Basic

/-! # Hooks

    Functions that take part in highlighting at named points.  The hooks of
    a point run in the order in which they were added, each on what the one
    before has left.  Wrap hooks run on every token before it is written. -/

namespace Highlighter

/-- The points at which hooks run. -/
inductive HookName where
  | beforeHighlightAll
  | beforeSanityCheck
  | beforeHighlight
  | beforeTokenize
  | afterTokenize
  | beforeInsert
  | afterHighlight
  | complete
deriving DecidableEq, Repr

namespace HookName

/-- All points, in the order in which they come up. -/
def all : List HookName :=
  [.beforeHighlightAll, .beforeSanityCheck, .beforeHighlight, .beforeTokenize, .afterTokenize,
    .beforeInsert, .afterHighlight, .complete]

/-- The name of a point. -/
def toString : HookName → String
  | .beforeHighlightAll => "before-highlightall"
  | .beforeSanityCheck => "before-sanity-check"
  | .beforeHighlight => "before-highlight"
  | .beforeTokenize => "before-tokenize"
  | .afterTokenize => "after-tokenize"
  | .beforeInsert => "before-insert"
  | .afterHighlight => "after-highlight"
  | .complete => "complete"

instance : ToString HookName := ⟨toString⟩

/-- The point of a name. -/
def ofString (s : String) : Except Error HookName :=
  match all.find? (·.toString == s) with
  | some name => .ok name
  | none => .error (.unknownHook s)

end HookName

/-- What the hooks of a highlighting work on. -/
structure HighlightEnv where
  code : String := ""
  /-- The grammar to tokenize with; without one the text stays as it is. -/
  grammar : Option GrammarId := none
  language : String := ""
  tokens : List Fragment := []
  /-- The result, once it is rendered. -/
  html : String := ""

/-- What a token is about to be written as. -/
structure WrapEnv where
  /-- The type of the token. -/
  kind : String := ""
  /-- The rendered content. -/
  content : String := ""
  /-- The source text of the token. -/
  text : String := ""
  tag : String := ""
  classes : List String := []
  /-- Attributes, sorted by name. -/
  attributes : List (String × String) := []
  language : String := ""

/-- Sets a named value in a list that is sorted by name. -/
def setSorted (name value : String) : List (String × String) → List (String × String)
  | [] => [(name, value)]
  | (n, old) :: entries =>
      if name < n then (name, value) :: (n, old) :: entries
      else if name = n then (name, value) :: entries
      else (n, old) :: setSorted name value entries

/-- Gives the token an attribute. -/
def WrapEnv.setAttribute (env : WrapEnv) (name value : String) : WrapEnv :=
  { env with attributes := setSorted name value env.attributes }

/-- The hooks of a registry, in the order in which they were added. -/
structure Hooks where
  highlight : List (HookName × (HighlightEnv → HighlightEnv)) := []
  wrap : List (WrapEnv → WrapEnv) := []

namespace Hooks

/-- Adds a hook at a point. -/
def add (hooks : Hooks) (name : HookName) (f : HighlightEnv → HighlightEnv) : Hooks :=
  { hooks with highlight := hooks.highlight ++ [(name, f)] }

/-- Adds a hook at the point of a name. -/
def addNamed (hooks : Hooks) (name : String) (f : HighlightEnv → HighlightEnv) :
    Except Error Hooks := do
  .ok (hooks.add (← HookName.ofString name) f)

/-- Adds a hook for tokens. -/
def addWrap (hooks : Hooks) (f : WrapEnv → WrapEnv) : Hooks :=
  { hooks with wrap := hooks.wrap ++ [f] }

/-- The hooks at a point. -/
def at? (hooks : Hooks) (name : HookName) : List (HighlightEnv → HighlightEnv) :=
  hooks.highlight.filterMap fun h => if h.1 = name then some h.2 else none

/-- Runs the hooks at a point. -/
def run (hooks : Hooks) (name : HookName) (env : HighlightEnv) : HighlightEnv :=
  (hooks.at? name).foldl (fun env f => f env) env

/-- Runs the hooks for tokens. -/
def runWrap (hooks : Hooks) (env : WrapEnv) : WrapEnv :=
  hooks.wrap.foldl (fun env f => f env) env

/-- The number of hooks at a point. -/
def count (hooks : Hooks) (name : HookName) : Nat := (hooks.at? name).length

/-- The points that have hooks with their number, sorted by name. -/
def counts (hooks : Hooks) : List (String × Nat) :=
  ((HookName.all.filter fun name => 0 < hooks.count name).map
    fun name => (name.toString, hooks.count name)).mergeSort fun a b => !decide (b.1 < a.1)

/-- What hooks there are, as a text. -/
def summary (hooks : Hooks) : String :=
  let points := hooks.counts.map fun c => Text.quoted c.1 ++ ": " ++ toString c.2
  "Hooks \x7b highlight: \x7b" ++ ", ".intercalate points ++ "\x7d, wrap: " ++
    toString hooks.wrap.length ++ " \x7d"

end Hooks

end Highlighter
