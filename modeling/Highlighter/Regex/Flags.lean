/-! # Regex flags

    The letters after the closing slash of a regex literal.  Reading keeps
    a set of letters, showing lists it in one fixed order; so a flags value
    is read back from its own text. -/

namespace Highlighter.Regex

/-- The flags of a regex literal. -/
structure Flags where
  /-- `g`, accepted without effect. -/
  «global» : Bool := false
  /-- `i`, letters match in either case. -/
  ignoreCase : Bool := false
  /-- `m`, the line anchors also hold at line ends inside the text. -/
  multiline : Bool := false
  /-- `s`, a dot also matches a line end. -/
  dotAll : Bool := false
  /-- `u`, accepted without effect. -/
  unicode : Bool := false
  /-- `y`, a match has to start where the search starts. -/
  sticky : Bool := false
deriving DecidableEq, Repr, Inhabited

/-- Adds the flag of a letter; letters that name no flag are passed over. -/
def Flags.insert (flags : Flags) (c : Char) : Flags :=
  match c with
  | 'g' => { flags with «global» := true }
  | 'i' => { flags with ignoreCase := true }
  | 'm' => { flags with multiline := true }
  | 's' => { flags with dotAll := true }
  | 'u' => { flags with unicode := true }
  | 'y' => { flags with sticky := true }
  | _ => flags

/-- The flags named by the letters of a text. -/
def Flags.ofString (s : String) : Flags :=
  s.toList.foldl Flags.insert {}

/-- The letters of the flags that are set, in the order `g i m s u y`. -/
def Flags.letters (flags : Flags) : List Char :=
  [(flags.global, 'g'), (flags.ignoreCase, 'i'), (flags.multiline, 'm'),
    (flags.dotAll, 's'), (flags.unicode, 'u'), (flags.sticky, 'y')].filterMap
    fun (isSet, c) => if isSet then some c else none

/-- The letters as a text. -/
def Flags.toString (flags : Flags) : String :=
  String.ofList flags.letters

instance : ToString Flags := ⟨Flags.toString⟩

/-- Reading the text of a flags value gives the value back. -/
theorem Flags.ofString_toString (flags : Flags) : Flags.ofString flags.toString = flags := by
  obtain ⟨g, i, m, s, u, y⟩ := flags
  cases g <;> cases i <;> cases m <;> cases s <;> cases u <;> cases y <;>
    simp [Flags.ofString, Flags.toString, Flags.letters, Flags.insert]

/-- No flag is written as a slash. -/
theorem Flags.slash_not_mem_letters (flags : Flags) : '/' ∉ flags.letters := by
  obtain ⟨g, i, m, s, u, y⟩ := flags
  cases g <;> cases i <;> cases m <;> cases s <;> cases u <;> cases y <;>
    simp [Flags.letters]

end Highlighter.Regex
