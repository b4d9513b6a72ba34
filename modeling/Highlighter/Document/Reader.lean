import Highlighter.Document.Decode
import Highlighter.Json.Reader

/-! # Reading grammar documents

    A document is an object with the fields `name`, `aliases` and `tokens`,
    or the list of these three.  Unknown fields are passed over.  Reading
    stops at the first fault of the text, be it one of form or of content;
    a value of the token map is read whole before anything is made of it,
    so there faults of form come first. -/

namespace Highlighter.Document

open Json (Cause Failure Reader Medium)

/-- How deep the values of a document may nest. -/
def depth : Nat := 127

/-- A fault of content within an object.  Its end counts as read when it
    comes next. -/
def inObject (cause : Cause) (cs : List Char) : Failure :=
  match Json.trim cs with
  | '}' :: rest => { cause, rest }
  | rest => { cause, rest, ahead := true }

/-- Reads the members of a token map and its end, beside the tokens there
    are. -/
def readTokenMembers (depth : Nat) : (fuel : Nat) → (first : Bool) → Tokens → Reader Tokens
  | 0, _, _, cs => .error { cause := .endOfObject, rest := cs }
  | fuel + 1, first, t, cs => do
      match ← Json.nextName first cs with
      | (none, cs) => .ok (t, cs.drop 1)
      | (some name, cs) => do
          let (v, cs) ← Json.readValue depth (← Json.colon cs)
          if name = restName then
            match reference? v with
            | some r => readTokenMembers depth fuel false { t with rest := some r } cs
            | none => .error (inObject (.noVariant "RawGrammarRef") cs)
          else
            match patterns? v with
            | some ps =>
                let t := { t with entries := OrderedMap.set name ps t.entries }
                readTokenMembers depth fuel false t cs
            | none => .error (inObject (.noVariant "RawPatternSpec") cs)

/-- Reads a token map. -/
def readTokens : Reader Tokens := fun cs =>
  match Json.trim cs with
  | '{' :: cs => readTokenMembers (depth - 2) (cs.length + 1) true {} cs
  | cs => .error (Json.mismatch "a map of token names to patterns" cs)

/-- The fields of a document read so far. -/
structure Parts where
  name : Option String := none
  aliases : Option (List String) := none
  tokens : Option Tokens := none

/-- The document of the fields, of which the aliases may be missing. -/
def Parts.document (p : Parts) : Except Cause Document :=
  match p.name, p.tokens with
  | none, _ => .error (.missingField "name")
  | _, none => .error (.missingField "tokens")
  | some name, some tokens => .ok { name, aliases := p.aliases.getD [], tokens }

/-- Reads a field that must not have a value yet. -/
def readField {α : Type} (name : String) (old : Option α) (item : Reader α) (cs : List Char) :
    Except Failure (Option α × List Char) :=
  if old.isSome then .error (inObject (.duplicateField name) cs)
  else do
    let (v, cs) ← item (← Json.colon cs)
    .ok (some v, cs)

/-- Reads the members of a document and its end, beside the fields read so
    far. -/
def readMembers : (fuel : Nat) → (first : Bool) → Parts → Reader Document
  | 0, _, _, cs => .error { cause := .endOfObject, rest := cs }
  | fuel + 1, first, p, cs => do
      match ← Json.nextName first cs with
      | (none, cs) =>
          match p.document with
          | .ok d => .ok (d, cs.drop 1)
          | .error cause => .error (inObject cause cs)
      | (some "name", cs) => do
          let (name, cs) ← readField "name" p.name Json.stringValue cs
          readMembers fuel false { p with name } cs
      | (some "aliases", cs) => do
          let (aliases, cs) ← readField "aliases" p.aliases Json.stringValues cs
          readMembers fuel false { p with aliases } cs
      | (some "tokens", cs) => do
          let (tokens, cs) ← readField "tokens" p.tokens readTokens cs
          readMembers fuel false { p with tokens } cs
      | (some _, cs) => do
          let cs ← Json.skipValue (← Json.colon cs)
          readMembers fuel false p cs

/-- What a list must have to be a document. -/
def listForm : String := "struct RawGrammar with 3 elements"

/-- Reads the end of a list that has all it should have. -/
def readListEnd (cs : List Char) : Except Failure (List Char) :=
  match Json.trim cs with
  | ']' :: cs => .ok cs
  | ',' :: cs =>
      match Json.trim cs with
      | ']' :: cs => .error (.peek .trailingComma (']' :: cs))
      | cs => .error (.peek .trailingCharacters cs)
  | [] => .error { cause := .endOfList, rest := [] }
  | cs => .error (.peek .trailingCharacters cs)

/-- Reads a document that is a list, behind its bracket. -/
def readElements : Reader Document := fun cs => do
  match ← Json.nextElement true cs with
  | (false, cs) => .error { cause := .invalidLength 0 listForm, rest := cs.drop 1 }
  | (true, cs) => do
      let (name, cs) ← Json.stringValue cs
      match ← Json.nextElement false cs with
      | (false, cs) => .error { cause := .invalidLength 2 listForm, rest := cs.drop 1 }
      | (true, cs) => do
          let (aliases, cs) ← Json.stringValues cs
          match ← Json.nextElement false cs with
          | (false, cs) => .error { cause := .invalidLength 2 listForm, rest := cs.drop 1 }
          | (true, cs) => do
              let (tokens, cs) ← readTokens cs
              let cs ← readListEnd cs
              .ok ({ name, aliases, tokens }, cs)

/-- Reads a document and the end of the text. -/
def readDocument (cs : List Char) : Except Failure Document := do
  let (d, cs) ←
    match Json.trim cs with
    | '{' :: cs => readMembers (cs.length + 1) true {} cs
    | '[' :: cs => readElements cs
    | cs => .error (Json.mismatch "struct RawGrammar" cs)
  Json.finish cs
  .ok d

/-- The document that a text holds. -/
def read (medium : Medium) (text : String) : Except Json.Error Document :=
  match readDocument text.toList with
  | .ok d => .ok d
  | .error e => .error (e.toError medium text.toList)

end Highlighter.Document
