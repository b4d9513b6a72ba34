import Highlighter.Json.Text

/-! # Reading JSON

    A reader takes something off the front of a text.  `elements` and
    `members` read lists and objects with a reader for what is in them, so
    `readValue` recurs on the number of levels that values may nest.  `skip`
    passes over a value without making anything of it: it checks the form
    alone, and at any depth. -/

namespace Highlighter.Json

/-- Takes a value off the front of a text. -/
abbrev Reader (α : Type) := List Char → Except Failure (α × List Char)

/-- The characters that may stand between others. -/
def isBlank (c : Char) : Bool := c == ' ' || c == '\n' || c == '\t' || c == '\r'

/-- The text without the blanks in front. -/
def trim (cs : List Char) : List Char := cs.dropWhile isBlank

/-- Reads the letters of a word. -/
def word : List Char → List Char → Except Failure (List Char)
  | [], cs => .ok cs
  | _ :: _, [] => .error { cause := .endOfValue, rest := [] }
  | e :: es, c :: cs => if c = e then word es cs else .error (.peek .expectedIdent (c :: cs))

-- ── Numbers ──────────────────────────────────────────────────────────────

/-- Whether a character is a digit. -/
def isDigit (c : Char) : Bool := '0' ≤ c && c ≤ '9'

/-- The value of a digit. -/
def digit (c : Char) : Nat := c.toNat - '0'.toNat

/-- Appends digits to a number while it stays below a bound; the number,
    how many digits fit, and how many did not. -/
def absorb (bound : Nat) : (n : Nat) → List Char → Nat × Nat × Nat
  | n, [] => (n, 0, 0)
  | n, d :: ds =>
      if n * 10 + digit d < bound then
        let (m, fit, rest) := absorb bound (n * 10 + digit d) ds
        (m, fit + 1, rest)
      else (n, 0, ds.length + 1)

/-- The numbers that fit a word of 64 bits are below this. -/
def wordBound : Nat := 0x10000000000000000

/-- The exponents that are told apart are below this. -/
def exponentBound : Nat := 0x80000000

/-- The power of ten nearest to the exact one. -/
def tenTo (n : Nat) : Float := Float.ofScientific 1 false n

/-- A number divided by a power of ten, in steps that are powers
    themselves. -/
def scaleDown (x : Float) (n : Nat) : Float :=
  if n ≤ 308 then x / tenTo n
  else if x == 0 then x
  else scaleDown (x / tenTo 308) (n - 308)
termination_by n

/-- A number times a power of ten, if it is finite. -/
def scale? (significand : Nat) (exponent : Int) : Option Float :=
  let x := Float.ofNat significand
  match exponent with
  | .ofNat n =>
      if n ≤ 308 then
        let y := x * tenTo n
        if y.isInf then none else some y
      else if x == 0 then some x
      else none
  | .negSucc n => some (scaleDown x (n + 1))

/-- The number of a significand and an exponent, at the end of its text. -/
def real (negative : Bool) (significand : Nat) (exponent : Int) : Reader Number := fun rest =>
  match scale? significand exponent with
  | some x => .ok (.real (if negative then -x else x), rest)
  | none => .error { cause := .numberOutOfRange, rest, ahead := true }

/-- Reads the exponent of a number, behind the letter. -/
def exponent (negative : Bool) (significand : Nat) (shift : Int) : Reader Number := fun cs =>
  let (down, cs) := match cs with
    | '+' :: cs => (false, cs)
    | '-' :: cs => (true, cs)
    | cs => (false, cs)
  match cs with
  | [] => .error { cause := .endOfValue, rest := [] }
  | c :: after =>
      if isDigit c then
        let (n, fit, dropped) := absorb exponentBound 0 (cs.takeWhile isDigit)
        let rest := cs.dropWhile isDigit
        if dropped = 0 then real negative significand (if down then shift - n else shift + n) rest
        else if significand ≠ 0 ∧ ¬ down then
          .error { cause := .numberOutOfRange, rest := cs.drop (fit + 1) }
        else .ok (.real (if negative then -0.0 else 0.0), rest)
      else .error (.peek .invalidNumber (c :: after))

/-- Reads an exponent, if there is one. -/
def optionalExponent (negative : Bool) (significand : Nat) (shift : Int) : Reader Number :=
  fun cs => match cs with
  | 'e' :: cs => exponent negative significand shift cs
  | 'E' :: cs => exponent negative significand shift cs
  | cs => real negative significand shift cs

/-- Reads the digits behind the point. -/
def fraction (negative : Bool) (significand : Nat) (shift : Int) : Reader Number := fun cs =>
  match cs.takeWhile isDigit with
  | [] => .error (.peek (if cs.isEmpty then .endOfValue else .invalidNumber) cs)
  | ds =>
      let (n, fit, _) := absorb wordBound significand ds
      optionalExponent negative n (shift - fit) (cs.dropWhile isDigit)

/-- Reads what follows the whole part of a number, of which `dropped`
    digits did not fit. -/
def afterWhole (negative : Bool) (significand dropped : Nat) : Reader Number := fun cs =>
  match cs with
  | '.' :: cs => fraction negative significand dropped cs
  | 'e' :: cs => exponent negative significand dropped cs
  | 'E' :: cs => exponent negative significand dropped cs
  | cs =>
      if dropped ≠ 0 then real negative significand dropped cs
      else if ¬ negative then .ok (.integer significand, cs)
      else if 0 < significand ∧ significand ≤ wordBound / 2 then .ok (.integer (-significand), cs)
      else .ok (.real (-(Float.ofNat significand)), cs)

/-- Reads a number behind its sign. -/
def readNumber (negative : Bool) : Reader Number := fun cs =>
  match cs with
  | [] => .error { cause := .endOfValue, rest := [] }
  | '0' :: cs =>
      match cs with
      | c :: _ =>
          if isDigit c then .error (.peek .invalidNumber cs) else afterWhole negative 0 0 cs
      | [] => afterWhole negative 0 0 cs
  | c :: after =>
      if isDigit c then
        let (n, _, dropped) := absorb wordBound 0 (cs.takeWhile isDigit)
        afterWhole negative n dropped (cs.dropWhile isDigit)
      else .error (.peek .invalidNumber (c :: after))

-- ── Lists and objects ────────────────────────────────────────────────────

/-- Goes on to the next element of a list, or stops in front of its end. -/
def nextElement (first : Bool) : Reader Bool := fun cs =>
  match trim cs with
  | [] => .error { cause := .endOfList, rest := [] }
  | ']' :: cs => .ok (false, ']' :: cs)
  | c :: cs =>
      if first then .ok (true, c :: cs)
      else if c = ',' then
        match trim cs with
        | [] => .error { cause := .endOfValue, rest := [] }
        | ']' :: cs => .error (.peek .trailingComma (']' :: cs))
        | cs => .ok (true, cs)
      else .error (.peek .expectedListCommaOrEnd (c :: cs))

/-- Reads the elements of a list and its end. -/
def elements {α : Type} (item : Reader α) : (fuel : Nat) → (first : Bool) → Reader (List α)
  | 0, _, cs => .error { cause := .endOfList, rest := cs }
  | fuel + 1, first, cs => do
      match ← nextElement first cs with
      | (false, cs) => .ok ([], cs.drop 1)
      | (true, cs) => do
          let (v, cs) ← item cs
          let (vs, cs) ← elements item fuel false cs
          .ok (v :: vs, cs)

/-- Reads the name of the next member of an object, or stops in front of
    its end. -/
def nextName (first : Bool) : Reader (Option String) := fun cs =>
  match trim cs with
  | [] => .error { cause := .endOfObject, rest := [] }
  | '}' :: cs => .ok (none, '}' :: cs)
  | c :: cs =>
      if first then name (c :: cs)
      else if c = ',' then
        match trim cs with
        | [] => .error { cause := .endOfValue, rest := [] }
        | '}' :: cs => .error (.peek .trailingComma ('}' :: cs))
        | cs => name cs
      else .error (.peek .expectedObjectCommaOrEnd (c :: cs))
where
  /-- Reads a name, which has to be a string. -/
  name : Reader (Option String)
    | '"' :: cs => do
        let (s, cs) ← readString cs
        .ok (some s, cs)
    | cs => .error (.peek .keyMustBeString cs)

/-- Reads the colon behind a name. -/
def colon (cs : List Char) : Except Failure (List Char) :=
  match trim cs with
  | [] => .error { cause := .endOfObject, rest := [] }
  | ':' :: cs => .ok cs
  | cs => .error (.peek .expectedColon cs)

/-- Reads the members of an object and its end. -/
def members {α : Type} (item : Reader α) :
    (fuel : Nat) → (first : Bool) → Reader (List (String × α))
  | 0, _, cs => .error { cause := .endOfObject, rest := cs }
  | fuel + 1, first, cs => do
      match ← nextName first cs with
      | (none, cs) => .ok ([], cs.drop 1)
      | (some name, cs) => do
          let (v, cs) ← item (← colon cs)
          let (vs, cs) ← members item fuel false cs
          .ok ((name, v) :: vs, cs)

-- ── Values ───────────────────────────────────────────────────────────────

/-- Reads a value in which others nest `depth` deep at most. -/
def readValue (depth : Nat) : Reader Json := fun cs =>
  match trim cs with
  | [] => .error { cause := .endOfValue, rest := [] }
  | 'n' :: cs => do
      let cs ← word ['u', 'l', 'l'] cs
      .ok (.null, cs)
  | 't' :: cs => do
      let cs ← word ['r', 'u', 'e'] cs
      .ok (.bool true, cs)
  | 'f' :: cs => do
      let cs ← word ['a', 'l', 's', 'e'] cs
      .ok (.bool false, cs)
  | '-' :: cs => do
      let (n, cs) ← readNumber true cs
      .ok (.number n, cs)
  | '"' :: cs => do
      let (s, cs) ← readString cs
      .ok (.string s, cs)
  | '[' :: cs =>
      match depth with
      | 0 => .error (.peek .tooDeep ('[' :: cs))
      | depth + 1 => do
          let (vs, cs) ← elements (readValue depth) (cs.length + 1) true cs
          .ok (.array vs, cs)
  | '{' :: cs =>
      match depth with
      | 0 => .error (.peek .tooDeep ('{' :: cs))
      | depth + 1 => do
          let (ms, cs) ← members (readValue depth) (cs.length + 1) true cs
          .ok (.object ms, cs)
  | c :: cs =>
      if isDigit c then do
        let (n, cs) ← readNumber false (c :: cs)
        .ok (.number n, cs)
      else .error (.peek .expectedValue (c :: cs))

-- ── Passing over values ──────────────────────────────────────────────────

/-- Passes over an exponent, behind the letter. -/
def skipExponent (cs : List Char) : Except Failure (List Char) :=
  let cs := match cs with
    | '+' :: cs => cs
    | '-' :: cs => cs
    | cs => cs
  match cs with
  | [] => .error { cause := .invalidNumber, rest := [] }
  | c :: after =>
      if isDigit c then .ok (after.dropWhile isDigit)
      else .error (.peek .invalidNumber (c :: after))

/-- Passes over an exponent, if there is one. -/
def skipOptionalExponent : List Char → Except Failure (List Char)
  | 'e' :: cs => skipExponent cs
  | 'E' :: cs => skipExponent cs
  | cs => .ok cs

/-- Passes over what follows the whole part of a number. -/
def skipAfterWhole : List Char → Except Failure (List Char)
  | '.' :: cs =>
      if (cs.takeWhile isDigit).isEmpty then .error (.peek .invalidNumber cs)
      else skipOptionalExponent (cs.dropWhile isDigit)
  | cs => skipOptionalExponent cs

/-- Passes over a number behind its sign. -/
def skipNumber (cs : List Char) : Except Failure (List Char) :=
  match cs with
  | '0' :: cs =>
      match cs with
      | c :: _ => if isDigit c then .error (.peek .invalidNumber cs) else skipAfterWhole cs
      | [] => .ok []
  | c :: after =>
      if isDigit c then skipAfterWhole (cs.dropWhile isDigit)
      else .error (.peek .invalidNumber (c :: after))
  | [] => .error { cause := .invalidNumber, rest := [] }

mutual

/-- Passes over a value. -/
def skip : (fuel : Nat) → List Char → Except Failure (List Char)
  | 0, cs => .error { cause := .endOfValue, rest := cs }
  | fuel + 1, cs =>
      match trim cs with
      | [] => .error { cause := .endOfValue, rest := [] }
      | 'n' :: cs => word ['u', 'l', 'l'] cs
      | 't' :: cs => word ['r', 'u', 'e'] cs
      | 'f' :: cs => word ['a', 'l', 's', 'e'] cs
      | '-' :: cs => skipNumber cs
      | '"' :: cs => skipString cs
      | '[' :: cs =>
          match trim cs with
          | [] => .error { cause := .endOfList, rest := [] }
          | ']' :: cs => .ok cs
          | cs => skipElements fuel cs
      | '{' :: cs =>
          match trim cs with
          | [] => .error { cause := .endOfObject, rest := [] }
          | '}' :: cs => .ok cs
          | cs => skipMembers fuel cs
      | c :: cs =>
          if isDigit c then skipNumber (c :: cs) else .error (.peek .expectedValue (c :: cs))

/-- Passes over the elements of a list and its end. -/
def skipElements : (fuel : Nat) → List Char → Except Failure (List Char)
  | 0, cs => .error { cause := .endOfList, rest := cs }
  | fuel + 1, cs => do
      let cs ← skip fuel cs
      match trim cs with
      | [] => .error { cause := .endOfList, rest := [] }
      | ']' :: cs => .ok cs
      | ',' :: cs => skipElements fuel cs
      | cs => .error (.peek .expectedListCommaOrEnd cs)

/-- Passes over the members of an object and its end. -/
def skipMembers : (fuel : Nat) → List Char → Except Failure (List Char)
  | 0, cs => .error { cause := .endOfObject, rest := cs }
  | fuel + 1, cs => do
      match trim cs with
      | [] => .error { cause := .endOfObject, rest := [] }
      | '"' :: cs => do
          let cs ← skip fuel (← colon (← skipString cs))
          match trim cs with
          | [] => .error { cause := .endOfObject, rest := [] }
          | '}' :: cs => .ok cs
          | ',' :: cs => skipMembers fuel cs
          | cs => .error (.peek .expectedObjectCommaOrEnd cs)
      | cs => .error (.peek .keyMustBeString cs)

end

/-- Passes over a value, however deep it nests. -/
def skipValue (cs : List Char) : Except Failure (List Char) := skip (2 * cs.length + 2) cs

-- ── Values of a given type ───────────────────────────────────────────────

/-- The failure over a value of a wrong type, in front of which reading
    stands. -/
def mismatch (expected : String) (cs : List Char) : Failure :=
  let atEnd (found : Found) : Except Failure (List Char) → Failure
    | .ok rest => { cause := .invalidType found expected, rest }
    | .error e => e
  let atNumber : Except Failure (Number × List Char) → Failure
    | .ok (n, rest) => { cause := .invalidType (.number n) expected, rest, ahead := true }
    | .error e => e
  match cs with
  | 'n' :: cs => atEnd .null (word ['u', 'l', 'l'] cs)
  | 't' :: cs => atEnd (.bool true) (word ['r', 'u', 'e'] cs)
  | 'f' :: cs => atEnd (.bool false) (word ['a', 'l', 's', 'e'] cs)
  | '-' :: cs => atNumber (readNumber true cs)
  | '"' :: cs =>
      match readString cs with
      | .ok (s, rest) => { cause := .invalidType (.string s) expected, rest }
      | .error e => e
  | '[' :: _ => { cause := .invalidType .sequence expected, rest := cs, ahead := true }
  | '{' :: _ => { cause := .invalidType .map expected, rest := cs, ahead := true }
  | c :: _ => if isDigit c then atNumber (readNumber false cs) else .peek .expectedValue cs
  | [] => { cause := .endOfValue, rest := [] }

/-- Reads a string. -/
def stringValue : Reader String := fun cs =>
  match trim cs with
  | '"' :: cs => readString cs
  | cs => .error (mismatch "a string" cs)

/-- Reads a list of strings. -/
def stringValues : Reader (List String) := fun cs =>
  match trim cs with
  | '[' :: cs => elements stringValue (cs.length + 1) true cs
  | cs => .error (mismatch "a sequence" cs)

/-- Checks that nothing follows a value. -/
def finish (cs : List Char) : Except Failure Unit :=
  match trim cs with
  | [] => .ok ()
  | cs => .error (.peek .trailingCharacters cs)

end Highlighter.Json
