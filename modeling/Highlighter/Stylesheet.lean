/-! # A stylesheet

    Colours for the classes that tokens are written with. -/

namespace Highlighter.Stylesheet

/-- A rule: token types, a property and its value. -/
structure Rule where
  kinds : List String
  property : String
  value : String

/-- The rules of the light stylesheet. -/
def light : List Rule :=
  [⟨["comment", "prolog", "doctype", "cdata"], "color", "slategray"⟩,
    ⟨["punctuation"], "color", "#999"⟩,
    ⟨["property", "boolean", "number", "null"], "color", "#905"⟩,
    ⟨["attr-name", "string"], "color", "#690"⟩,
    ⟨["entity", "operator"], "color", "#9a6e3a"⟩,
    ⟨["entity"], "cursor", "help"⟩,
    ⟨["attr-value", "keyword"], "color", "#07a"⟩,
    ⟨["namespace"], "opacity", "0.7"⟩]

/-- A rule as text. -/
def Rule.text (r : Rule) : String :=
  ",\n".intercalate (r.kinds.map (".token." ++ ·)) ++
    " \x7b\n  " ++ r.property ++ ": " ++ r.value ++ ";\n\x7d\n"

/-- The stylesheet for the default way of writing tokens. -/
def css : String := String.join (light.map Rule.text)

end Highlighter.Stylesheet
