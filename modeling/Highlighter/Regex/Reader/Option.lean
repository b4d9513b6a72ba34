import Highlighter.Regex.Reader.Basic

/-! # Options in a pattern

    The letters between `(?` and a colon or the closing parenthesis.  Most
    of them change how the pattern is read from there on; three are for the
    whole pattern and have to stand in front of it. -/

namespace Highlighter.Regex.Reader

/-- What the letters have asked for so far. -/
structure Options where
  modes : Modes
  /-- A dash has been read, so that letters switch off. -/
  off : Bool := false
  /-- There was a letter for the whole pattern. -/
  whole : Bool := false
  asciiCase : Bool := false
  longest : Bool := false
  /-- Plain parentheses are to capture nothing. -/
  uncaptured : Bool := false

/-- Adds a letter that stands for an option, if it does. -/
def Options.add? (o : Options) (c : Char) : Option Options :=
  match c with
  | '-' => some { o with off := true }
  | 'i' => some { o with modes := { o.modes with ignoreCase := !o.off } }
  | 'm' => some { o with modes := { o.modes with dotAll := !o.off } }
  | 'x' => some { o with modes := { o.modes with extended := !o.off } }
  | 'S' => some { o with modes := { o.modes with asciiSpace := !o.off } }
  | 'W' => some o
  | 'D' => some o
  | 'P' => some o
  | 'I' => some { o with whole := true, asciiCase := !o.off }
  | 'L' => some { o with whole := true, longest := !o.off }
  | 'C' => some { o with whole := true, uncaptured := !o.off }
  | _ => none

/-- Reads the unit of text segmentation, which nothing here depends on. -/
def segmentUnit (o : Options) (cs : List Char) : Except SyntaxError (List Char) :=
  if o.off then .error .unknownOption
  else match cs with
    | [] => .error .unfinishedGroup
    | ['{'] => .error .unfinishedGroup
    | '{' :: c :: cs =>
        if c ≠ 'g' ∧ c ≠ 'w' then .error .unknownOption
        else match cs with
          | [] => .error .unfinishedGroup
          | '}' :: cs => .ok cs
          | _ => .error .unknownOption
    | _ => .error .unknownOption

/-- Reads letters up to a colon or the closing parenthesis; the Boolean
    result says whether it was the parenthesis.  Every round takes a
    character, so the length of the text suffices as fuel. -/
def options : (fuel : Nat) → Options → List Char →
    Except SyntaxError (Options × Bool × List Char)
  | _, _, [] => .error .unfinishedGroup
  | 0, _, _ => .error .unfinishedGroup
  | _ + 1, o, ')' :: cs => .ok (o, true, cs)
  | _ + 1, o, ':' :: cs => .ok (o, false, cs)
  | fuel + 1, o, 'y' :: cs => do options fuel o (← segmentUnit o cs)
  | fuel + 1, o, c :: cs =>
      match o.add? c with
      | some o => options fuel o cs
      | none => .error .unknownOption

/-- Takes over the options for the whole pattern. -/
def withWhole (r : Reader) (o : Options) : Except SyntaxError Reader :=
  if !o.whole then .ok r
  else if r.wholeFirst.isSome then .error .misplacedOption
  else if o.uncaptured then .error .contradictoryOption
  else .ok { r with
    asciiCase := o.asciiCase, longest := o.longest, wholeFirst := some r.atHead }

/-- Opens a group under options, or the rest of the group around. -/
def enterOptions (r : Reader) (cs : List Char) : Except SyntaxError (Reader × List Char) := do
  let (o, alone, rest) ← options (cs.length + 1) { modes := r.modes } cs
  if alone then do
    let r ← r.withWhole o
    .ok (← r.enter .modes o.modes, rest)
  else if o.whole then .error .misplacedOption
  else .ok (← r.enter .scoped o.modes, rest)

/-- Refuses options for the whole pattern that are not its head. -/
def checkWhole (r : Reader) (t : Tree) : Except SyntaxError Unit :=
  match r.wholeFirst, t with
  | none, _ => .ok ()
  | some true, .scope _ => .ok ()
  | _, _ => .error .misplacedOption

end Highlighter.Regex.Reader
