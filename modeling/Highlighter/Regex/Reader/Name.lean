import Highlighter.Regex.Reader.Basic
import Highlighter.Text.Word

/-! # Names of groups

    A group is named where it opens and where a back-reference points at
    it.  A new name begins with a word character and goes on with anything
    up to its closing sign.  A reference is stricter: it is a number, a
    distance or a word, and may end in a nesting level.

    A name that is refused is quoted, and how much of it depends on where
    reading it broke off. -/

namespace Highlighter.Regex.Reader

/-- Whether a character ends a name that is read to be quoted. -/
def endsQuote (close c : Char) : Bool := c == close || c == ')'

/-- The end of a new name that is refused for its first character: it is
    quoted up to its closing sign, which belongs to it at the end of the
    pattern. -/
def refusedName (close first : Char) (cs : List Char) : String :=
  match cs.dropWhile (!endsQuote close ·) with
  | [] => String.ofList (first :: cs)
  | [_] => String.ofList (first :: cs)
  | _ => String.ofList (first :: cs.takeWhile (!endsQuote close ·))

/-- The rest of a new name behind its first character. -/
def newNameFrom (close first : Char) (cs : List Char) : Except SyntaxError (String × List Char) :=
  let name := String.ofList (first :: cs.takeWhile (!endsQuote close ·))
  match cs.dropWhile (!endsQuote close ·) with
  | [] =>
      let quoted := if cs.isEmpty then [first] else first :: cs.dropLast
      .error (.invalidGroupName (String.ofList quoted))
  | c :: rest => if c = close then .ok (name, rest) else .error (.invalidGroupName name)

/-- Reads the name of a new group. -/
def newName (close : Char) : List Char → Except SyntaxError (String × List Char)
  | [] => .error .emptyGroupName
  | c :: cs =>
      if c = close then .error .emptyGroupName
      else if (Escape.decimal? c).isSome || c = '-' || c = '+' then
        .error (.invalidGroupName (refusedName close c cs))
      else if Text.isWord c then newNameFrom close c cs
      else .error (.invalidNameCharacter (refusedName close c cs))

-- ── References ───────────────────────────────────────────────────────────

/-- What is wrong with the form of a reference. -/
inductive NameFault where
  | form
  | character
deriving DecidableEq, Repr

/-- A reference under the name that is quoted with it. -/
def NameFault.error (fault : NameFault) (name : List Char) : SyntaxError :=
  match fault with
  | .form => .invalidGroupName (String.ofList name)
  | .character => .invalidNameCharacter (String.ofList name)

/-- How far the name in a reference has been read. -/
structure NameScan where
  /-- The characters of the name, the last one first. -/
  read : List Char
  fault : Option NameFault := none
  /-- It is a number or a distance so far. -/
  numeric : Bool
  /-- There has been a digit. -/
  digits : Bool

namespace NameScan

/-- Begins with a first character. -/
def start (c : Char) : NameScan :=
  if (Escape.decimal? c).isSome then { read := [c], numeric := true, digits := true }
  else if c = '-' ∨ c = '+' then { read := [c], numeric := true, digits := false }
  else
    { read := [c]
      fault := if Text.isWord c then none else some .character
      numeric := false
      digits := false }

/-- Goes on with a character that ends no name. -/
def add (s : NameScan) (c : Char) : NameScan :=
  let s := { s with read := c :: s.read }
  if s.numeric then
    if (Escape.decimal? c).isSome then { s with digits := true }
    else { s with numeric := false, fault := some .form }
  else if Text.isWord c then s
  else { s with fault := some .character }

/-- Whether it is a bare sign so far. -/
def isSign (s : NameScan) : Bool := s.numeric && !s.digits

/-- At a character that ends the name. -/
def finish (s : NameScan) : NameScan :=
  if s.isSign then { s with fault := some .form } else s

/-- The name. -/
def name (s : NameScan) : List Char := s.read.reverse

/-- The name as it is quoted when the pattern ends behind it. -/
def cutName (s : NameScan) : List Char :=
  if s.read.length ≤ 1 then s.name else s.name.dropLast

/-- Reads on up to a character that ends the name, and returns that
    character and what follows it. -/
def run (close : Char) (s : NameScan) : List Char → NameScan × Option (Char × List Char)
  | [] => (s, none)
  | c :: cs =>
      if endsQuote close c || c == '+' || c == '-' then (s.finish, some (c, cs))
      else (s.add c).run close cs

end NameScan

/-- The highest number that a reference can hold. -/
def maxNumber : Nat := 0x7FFFFFFF

/-- A number, unless it is too big. -/
def smallNumber (n : Nat) : Except SyntaxError Nat :=
  if n ≤ maxNumber then .ok n else .error .numberTooBig

/-- Reads a reference into its name, its nesting level and what follows. -/
def referenceName (close : Char) (cs : List Char) :
    Except SyntaxError (NameScan × Option Int × List Char) :=
  match cs with
  | [] => .error .emptyGroupName
  | c :: rest =>
      if c = close then .error .emptyGroupName
      else
        let whole := SyntaxError.invalidGroupName (String.ofList cs)
        match (NameScan.start c).run close rest with
        | (s, none) =>
            .error (match s.fault with
              | some fault => fault.error s.cutName
              | none => if s.isSign then NameFault.character.error s.name else whole)
        | (s, some (last, after)) =>
            match s.fault with
            | some fault => .error (fault.error s.name)
            | none =>
                if last = close then .ok (s, none, after)
                else if last = ')' then .error whole
                else if after.isEmpty then .error (NameFault.character.error s.name)
                else match Escape.number? after with
                  | (some n, after) => do
                      let n ← smallNumber n
                      match after with
                      | d :: after =>
                          if d = close then
                            .ok (s, some (if last = '-' then -(n : Int) else n), after)
                          else .error whole
                      | [] => .error whole
                  | (none, _) => .error whole

/-- The groups that a number, a distance or a name stands for.  A distance
    counts from the groups that have been opened so far. -/
def groupsOf (r : Reader) (name : List Char) (numeric : Bool) (cs : List Char) :
    Except SyntaxError (List Nat) :=
  if !numeric then
    match (r.names.filter (·.1 == String.ofList name)).map (·.2) with
    | [] => .error (.undefinedName (String.ofList name))
    | groups => .ok groups
  else do
    let sign := name.head?.filter fun c => c == '-' || c == '+'
    let digits := if sign.isSome then name.drop 1 else name
    let n ← smallNumber ((Escape.number? digits).1.getD 0)
    let group : Int := match sign with
      | some '-' => (r.groups : Int) + 1 - n
      | some _ => (r.groups : Int) + n
      | none => n
    if sign.isSome ∧ n = 0 then .error (.invalidGroupName (String.ofList cs))
    else if group ≤ 0 then .error .invalidBackreference
    else .ok [group.toNat]

/-- Adds the back-reference to a name, from behind its opening sign. -/
def pushReference (r : Reader) (close : Char) (cs : List Char) :
    Except SyntaxError (Reader × List Char) := do
  let (s, level, rest) ← referenceName close cs
  let groups ← r.groupsOf s.name s.numeric cs
  .ok (r.pushAgain groups level, rest)

end Highlighter.Regex.Reader
