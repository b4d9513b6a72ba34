import Highlighter.Text.Bytes

/-! # Why a pattern is refused

    One constructor per cause.  Each cause has the number and the wording
    under which the regex engine reports it. -/

namespace Highlighter.Regex

/-- What is wrong with a pattern. -/
inductive SyntaxError where
  /-- Groups nest deeper than the reader follows. -/
  | tooDeep
  /-- A class is still open at the end. -/
  | unclosedClass
  /-- A backslash is the last character. -/
  | danglingEscape
  /-- A set of characters stands where a range should end. -/
  | setEndsRange
  /-- A dash follows a set of characters. -/
  | setStartsRange
  /-- A quantifier has nothing in front of it. -/
  | nothingToRepeat
  /-- A quantifier follows an assertion. -/
  | unrepeatable
  /-- A closing parenthesis has no partner. -/
  | unmatchedClose
  /-- An opening parenthesis has no partner. -/
  | unmatchedOpen
  /-- The head of a group breaks off. -/
  | unfinishedGroup
  /-- A group option does not exist. -/
  | unknownOption
  /-- A lookbehind holds what cannot be matched backwards. -/
  | invalidLookbehind
  /-- A lookbehind holds nothing but parts that are not needed. -/
  | nothingBehind
  /-- A number does not fit. -/
  | numberTooBig
  /-- A repeat count is over the limit. -/
  | repeatTooBig
  /-- A range ends before it starts. -/
  | emptyRange
  /-- The bytes written by escapes break off inside a character. -/
  | truncatedCharacter
  /-- A back-reference points at no group. -/
  | invalidBackreference
  /-- A group name is empty. -/
  | emptyGroupName
  /-- A group name has a wrong form. -/
  | invalidGroupName (name : String)
  /-- A group name holds a character that no name may hold. -/
  | invalidNameCharacter (name : String)
  /-- A back-reference uses a name that no group has. -/
  | undefinedName (name : String)
  /-- An escape stands for no character. -/
  | invalidCodePoint
  /-- A code point is beyond the last character. -/
  | codePointTooBig
  /-- A code point has too many digits. -/
  | codePointTooLong
  /-- An option for the whole pattern stands somewhere else. -/
  | misplacedOption
  /-- An option contradicts what all patterns are read with. -/
  | contradictoryOption
  /-- The escape for a meta character breaks off. -/
  | unfinishedMeta
  /-- The escape for a control character breaks off. -/
  | unfinishedControl
  /-- The escape for a meta character has a wrong form. -/
  | invalidMeta
  /-- The escape for a control character has a wrong form. -/
  | invalidControl
  /-- A construct is none of those that are read. -/
  | unsupported
deriving DecidableEq, Repr, Inhabited

namespace SyntaxError

/-- The number of the cause. -/
def code : SyntaxError → Int
  | .tooDeep => -16
  | .unclosedClass => -103
  | .danglingEscape => -104
  | .setEndsRange => -110
  | .setStartsRange => -112
  | .nothingToRepeat => -113
  | .unrepeatable => -114
  | .unmatchedClose => -116
  | .unmatchedOpen => -117
  | .unfinishedGroup => -118
  | .unknownOption => -119
  | .invalidLookbehind => -122
  | .nothingBehind => 1
  | .numberTooBig => -200
  | .repeatTooBig => -201
  | .emptyRange => -203
  | .truncatedCharacter => -206
  | .invalidBackreference => -208
  | .emptyGroupName => -214
  | .invalidGroupName _ => -215
  | .invalidNameCharacter _ => -216
  | .undefinedName _ => -217
  | .invalidCodePoint => -400
  | .codePointTooBig => -401
  | .codePointTooLong => -402
  | .misplacedOption => -120
  | .contradictoryOption => -403
  | .unfinishedMeta => -105
  | .unfinishedControl => -106
  | .invalidMeta => -108
  | .invalidControl => -109
  | .unsupported => -2

/-- The number of bytes up to which a name is quoted. -/
def quotedBytes : Nat := 27

/-- A name as it is quoted: with dots for what is over the limit, and not
    at all if the limit is inside of a character. -/
def quotedName? (name : String) : Option String :=
  if name.utf8ByteSize ≤ quotedBytes then some name
  else (Text.takeBytes? quotedBytes name.toList).map fun cs => String.ofList cs ++ "..."

/-- The wording of the cause, unless a name in it cannot be quoted. -/
def message? : SyntaxError → Option String
  | .tooDeep => some "parse depth limit over"
  | .unclosedClass => some "premature end of char-class"
  | .danglingEscape => some "end pattern at escape"
  | .setEndsRange => some "char-class value at end of range"
  | .setStartsRange => some "unmatched range specifier in char-class"
  | .nothingToRepeat => some "target of repeat operator is not specified"
  | .unrepeatable => some "target of repeat operator is invalid"
  | .unmatchedClose => some "unmatched close parenthesis"
  | .unmatchedOpen => some "end pattern with unmatched parenthesis"
  | .unfinishedGroup => some "end pattern in group"
  | .unknownOption => some "undefined group option"
  | .invalidLookbehind => some "invalid pattern in look-behind"
  | .nothingBehind => some "undefined error code"
  | .numberTooBig => some "too big number"
  | .repeatTooBig => some "too big number for repeat range"
  | .emptyRange => some "empty range in char class"
  | .truncatedCharacter => some "too short multibyte code string"
  | .invalidBackreference => some "invalid backref number/name"
  | .emptyGroupName => some "group name is empty"
  | .invalidGroupName name => (quotedName? name).map ("invalid group name <" ++ · ++ ">")
  | .invalidNameCharacter name =>
      (quotedName? name).map ("invalid char in group name <" ++ · ++ ">")
  | .undefinedName name => (quotedName? name).map ("undefined name <" ++ · ++ "> reference")
  | .invalidCodePoint => some "invalid code point value"
  | .codePointTooBig => some "too big wide-char value"
  | .codePointTooLong => some "too long wide-char value"
  | .misplacedOption => some "invalid group option"
  | .contradictoryOption => some "invalid combination of options"
  | .unfinishedMeta => some "end pattern at meta"
  | .unfinishedControl => some "end pattern at control"
  | .invalidMeta => some "invalid meta-code syntax"
  | .invalidControl => some "invalid control-code syntax"
  | .unsupported => some "no support in this configuration"

/-- Number and wording together, as they are shown to a user. -/
def describe (e : SyntaxError) : String :=
  match e.message? with
  | some message => "Error(OnigError(" ++ toString e.code ++ "), " ++ message ++ ")"
  | none => "Error(Custom, Onig error string was invalid UTF-8)"

end SyntaxError

end Highlighter.Regex
