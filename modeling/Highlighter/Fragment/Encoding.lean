import Highlighter.Fragment
import Highlighter.Json.Writer

/-! # Fragments as JSON

    Raw text is a string.  A token is an object with its type, its content,
    its further labels if it has any, and its length; the content is a
    string or a list of fragments.  Whether a pattern was greedy is left
    out. -/

namespace Highlighter.Fragment

/-- A token with its content as JSON. -/
def encodeToken (label : Label) (content : Json) : Json :=
  .object <|
    [("type", .string label.kind), ("content", content)] ++
      (if label.aliases.isEmpty then [] else [("alias", .array (label.aliases.map .string))]) ++
      [("length", .ofNat label.length)]

mutual

/-- A fragment as JSON. -/
def encode : Fragment → Json
  | .raw text => .string text
  | .leaf label text => encodeToken label (.string text)
  | .node label inner => encodeToken label (.array (encodeList inner))

/-- Fragments one after the other. -/
def encodeList : List Fragment → List Json
  | [] => []
  | f :: fs => encode f :: encodeList fs

end

/-- Fragments in a row as JSON. -/
def encodeAll (fs : List Fragment) : Json := .array (encodeList fs)

end Highlighter.Fragment
