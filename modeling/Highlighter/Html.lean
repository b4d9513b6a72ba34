import Highlighter.Hooks

/-! # HTML

    Fragments as HTML: raw text is escaped, a token becomes an element with
    its type and its further labels as classes.  Wrap hooks see every token
    before it is written and may change all of it. -/

namespace Highlighter.Html

/-- A character of text content. -/
def escapeChar (c : Char) : List Char :=
  match c with
  | '&' => ['&', 'a', 'm', 'p', ';']
  | '<' => ['&', 'l', 't', ';']
  | '\xa0' => [' ']
  | c => [c]

/-- A text as content. -/
def escape (s : String) : String := String.ofList (s.toList.flatMap escapeChar)

/-- A character of an attribute value. -/
def escapeAttributeChar (c : Char) : List Char :=
  match c with
  | '"' => ['&', 'q', 'u', 'o', 't', ';']
  | c => [c]

/-- A text as the value of an attribute. -/
def escapeAttribute (s : String) : String :=
  String.ofList (s.toList.flatMap escapeAttributeChar)

/-- How tokens are written. -/
structure Renderer where
  /-- The element of each token. -/
  tag : String := "span"
  /-- The first class of each token. -/
  tokenClass : String := "token"
deriving DecidableEq, Repr

/-- Attributes as they are written. -/
def attributes : List (String × String) → String
  | [] => ""
  | (name, value) :: rest =>
      " " ++ name ++ "=\"" ++ escapeAttribute value ++ "\"" ++ attributes rest

/-- The element for what a token is to be written as. -/
def element (env : WrapEnv) : String :=
  "<" ++ env.tag ++ " class=\"" ++ " ".intercalate env.classes ++ "\"" ++
    attributes env.attributes ++ ">" ++ env.content ++ "</" ++ env.tag ++ ">"

namespace Renderer

/-- What a token is to be written as, before the hooks have their say. -/
def wrapEnv (r : Renderer) (language : String) (label : Label) (content text : String) : WrapEnv :=
  { kind := label.kind
    content
    text
    tag := r.tag
    classes := r.tokenClass :: label.kind :: label.aliases
    language }

mutual

/-- A fragment as HTML. -/
def renderOne (r : Renderer) (hooks : Hooks) (language : String) : Fragment → String
  | .raw text => escape text
  | .leaf label text =>
      element (hooks.runWrap (r.wrapEnv language label (escape text) text))
  | .node label inner =>
      element (hooks.runWrap
        (r.wrapEnv language label (render r hooks language inner) (Fragment.texts inner)))

/-- Fragments as HTML. -/
def render (r : Renderer) (hooks : Hooks) (language : String) : List Fragment → String
  | [] => ""
  | f :: fs => renderOne r hooks language f ++ render r hooks language fs

end

end Renderer

end Highlighter.Html
