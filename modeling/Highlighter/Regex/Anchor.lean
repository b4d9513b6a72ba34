/-! # Anchors

    The conditions on a position that a pattern can state without looking
    at more than the two ends of the text and one line end. -/

namespace Highlighter.Regex

/-- A text to search in, by characters. -/
abbrev Haystack := Array Char

/-- A condition on a position. -/
inductive Anchor where
  /-- The very start of the text. -/
  | start
  /-- The very end of the text. -/
  | finish
  /-- The end of the text, or in front of a line end that ends it. -/
  | beforeLastNewline
  /-- The start of the text, or after a line end that does not end it. -/
  | lineStart
  /-- The end of the text, or in front of a line end. -/
  | lineEnd
deriving DecidableEq, Repr

/-- Whether the condition holds at a position. -/
def Anchor.holds (text : Haystack) (pos : Nat) : Anchor → Bool
  | .start => pos == 0
  | .finish => pos == text.size
  | .beforeLastNewline =>
      pos == text.size || (pos + 1 == text.size && text[pos]? == some '\n')
  | .lineStart =>
      pos == 0 || (pos != text.size && text[pos - 1]? == some '\n')
  | .lineEnd => pos == text.size || text[pos]? == some '\n'

/-- Whether the condition looks ahead, at what has not been matched yet. -/
def Anchor.looksAhead : Anchor → Bool
  | .finish => true
  | .beforeLastNewline => true
  | _ => false

end Highlighter.Regex
