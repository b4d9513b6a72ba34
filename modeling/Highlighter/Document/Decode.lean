import Highlighter.Document.Basic
import Highlighter.Grammar.Basic
import Highlighter.Json.Value

/-! # Patterns and references as JSON values

    What a JSON value says as a reference or as patterns.  The forms of a
    type are tried in order: a list is a list of alternatives if each of
    them is a pattern, and otherwise the fields of one descriptor; a
    string is a source, or the name of a language.  Fields without a
    meaning are passed over, fields that are repeated or of a wrong type
    are refused. -/

namespace Highlighter.Document

/-- The text of a string. -/
def text? : Json → Option String
  | .string s => some s
  | _ => none

/-- The texts of a list of strings. -/
def texts? : List Json → Option (List String)
  | [] => some []
  | v :: vs => do
      let s ← text? v
      let ss ← texts? vs
      some (s :: ss)

/-- The truth value of a boolean. -/
def flag? : Json → Option Bool
  | .bool b => some b
  | _ => none

/-- Labels, one or many. -/
def aliases? : Json → Option Aliases
  | .string s => some (.one s)
  | .array vs => (texts? vs).map .many
  | _ => none

/-- The fields of a descriptor read so far. -/
structure Fields where
  pattern : Option String := none
  flags : Option String := none
  lookbehind : Option Bool := none
  greedy : Option Bool := none
  aliases : Option Aliases := none
  inside : Option (Option Reference) := none

/-- The descriptor of the fields; only the pattern must be there. -/
def Fields.descriptor? (f : Fields) : Option (Descriptor Reference) :=
  f.pattern.map fun pattern =>
    { pattern
      flags := f.flags.getD ""
      lookbehind := f.lookbehind.getD false
      greedy := f.greedy.getD false
      aliases := f.aliases.getD (.many [])
      inside := f.inside.getD none }

/-- Fills a field that must not have a value yet. -/
def fill? {α : Type} (old : Option α) (new : Option α) : Option (Option α) :=
  match old, new with
  | none, some a => some (some a)
  | _, _ => none

mutual

/-- The reference a value stands for. -/
def reference? : Json → Option Reference
  | .string name => some (.language name)
  | .object ms => (tokens? ms {}).map .ofTokens
  | _ => none

/-- The tokens that members add to those there are. -/
def tokens? : List (String × Json) → Tokens → Option Tokens
  | [], t => some t
  | (name, v) :: ms, t =>
      if name = restName then
        match reference? v with
        | some r => tokens? ms { t with rest := some r }
        | none => none
      else
        match patterns? v with
        | some ps => tokens? ms { t with entries := OrderedMap.set name ps t.entries }
        | none => none

/-- The patterns a value stands for. -/
def patterns? : Json → Option (PatternsForm Reference)
  | .array vs =>
      match alternatives? vs with
      | some ps => some (.alternatives ps)
      | none => (positional? vs).map fun d => .single (.descriptor d)
  | .string s => some (.single (.source s))
  | .object ms => (fields? ms {}).map fun d => .single (.descriptor d)
  | _ => none

/-- The pattern a value stands for. -/
def pattern? : Json → Option (PatternForm Reference)
  | .string s => some (.source s)
  | .array vs => (positional? vs).map .descriptor
  | .object ms => (fields? ms {}).map .descriptor
  | _ => none

/-- The patterns of a list of values. -/
def alternatives? : List Json → Option (List (PatternForm Reference))
  | [] => some []
  | v :: vs =>
      match pattern? v, alternatives? vs with
      | some p, some ps => some (p :: ps)
      | _, _ => none

/-- The descriptor with the fields of an object, beside those read so far. -/
def fields? : List (String × Json) → Fields → Option (Descriptor Reference)
  | [], f => f.descriptor?
  | (name, v) :: ms, f =>
      match name with
      | "pattern" =>
          match fill? f.pattern (text? v) with
          | some p => fields? ms { f with pattern := p }
          | none => none
      | "flags" =>
          match fill? f.flags (text? v) with
          | some s => fields? ms { f with flags := s }
          | none => none
      | "lookbehind" =>
          match fill? f.lookbehind (flag? v) with
          | some b => fields? ms { f with lookbehind := b }
          | none => none
      | "greedy" =>
          match fill? f.greedy (flag? v) with
          | some b => fields? ms { f with greedy := b }
          | none => none
      | "alias" =>
          match fill? f.aliases (aliases? v) with
          | some a => fields? ms { f with aliases := a }
          | none => none
      | "inside" =>
          match fill? f.inside (inside? v) with
          | some r => fields? ms { f with inside := r }
          | none => none
      | _ => fields? ms f

/-- The grammar for the text of a token: a reference, or none. -/
def inside? : Json → Option (Option Reference)
  | .null => some none
  | .string name => some (some (.language name))
  | .object ms => (tokens? ms {}).map fun t => some (.ofTokens t)
  | _ => none

/-- The descriptor with the fields of a list, in their order; those at the
    end may be missing. -/
def positional? : List Json → Option (Descriptor Reference)
  | [] => none
  | p :: vs =>
      match text? p, afterPattern? vs with
      | some pattern, some (f : Fields) => { f with pattern := some pattern : Fields }.descriptor?
      | _, _ => none

/-- The fields behind the pattern. -/
def afterPattern? : List Json → Option Fields
  | [] => some {}
  | [s] => do some { flags := some (← text? s) }
  | [s, l] => do some { flags := some (← text? s), lookbehind := some (← flag? l) }
  | [s, l, g] => do
      some { flags := some (← text? s), lookbehind := some (← flag? l), greedy := some (← flag? g) }
  | [s, l, g, a] => do
      some
        { flags := some (← text? s), lookbehind := some (← flag? l), greedy := some (← flag? g)
          aliases := some (← aliases? a) }
  | [s, l, g, a, i] => do
      some
        { flags := some (← text? s), lookbehind := some (← flag? l), greedy := some (← flag? g)
          aliases := some (← aliases? a), inside := some (← inside? i) }
  | _ => none

end

end Highlighter.Document
