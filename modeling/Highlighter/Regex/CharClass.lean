import Highlighter.Regex.Escape

/-! # Character classes

    What stands between brackets: characters, ranges, sets, classes within
    the class, and `&&` between parts that are intersected.  A dash is a
    range between two characters and a plain dash everywhere else.

    The reader keeps one `Part` per class that is still open, so a class
    within a class costs no recursion: it reads token by token. -/

namespace Highlighter.Regex

/-- A class as it is written: its members, or everything but them. -/
structure CharClass where
  negated : Bool
  members : CharSet
deriving DecidableEq, Repr

/-- The characters the class stands for. -/
def CharClass.toSet (c : CharClass) : CharSet :=
  if c.negated then .compl c.members else c.members

namespace CharClass

/-- One end of a range: the code of a character, or a single byte that may
    be part of one. -/
structure Bound where
  code : Nat
  isByte : Bool
deriving DecidableEq, Repr

/-- The end of a range that a character is. -/
def Bound.ofCode (n : Nat) : Bound := ⟨n, n < 0x80⟩

/-- What a class is made of. -/
inductive Token where
  | bound (b : Bound)
  | set (s : CharSet)
  | dash
  | enter (negated : Bool)
  | leave
  | meet
deriving DecidableEq, Repr

/-- A character as a token. -/
def Token.code (n : Nat) : Token := .bound (.ofCode n)

/-- The token of one of the code points between braces. -/
def itemToken : Radix.CodeItem → Token
  | .dash => .dash
  | .code n => .code n

/-- The tokens of code points between braces; without any, the letter in
    front of the brace stands for itself. -/
def bracedTokens (radix : Radix) (inRange : Bool) (letter : Char) (cs : List Char) :
    Except SyntaxError (List Token × List Char) := do
  match ← radix.codes? true inRange cs with
  | none => .ok ([.code letter.toNat], '{' :: cs)
  | some (items, rest) => .ok (items.map itemToken, rest)

/-- The token of a character written by bytes; a byte that is a character
    of its own in no text still bounds a range. -/
def byteToken (radix : Radix) (cs : List Char) : Except SyntaxError (List Token × List Char) := do
  let (b, rest) ← radix.byte cs
  if Escape.byteCount b = 1 then .ok ([.bound ⟨b, true⟩], rest)
  else do
    let (n?, rest) ← Escape.characterOfBytes radix.escapedByte? b rest
    .ok ([n?.elim (.set .none) .code], rest)

/-- The tokens behind a backslash.  `inRange` says that a range waits for
    its end. -/
def escaped (asciiSpace inRange : Bool) : List Char → Except SyntaxError (List Token × List Char)
  | [] => .error .danglingEscape
  | ['x'] => .ok ([.code 'x'.toNat], [])
  | 'x' :: '{' :: cs => bracedTokens .hexadecimal inRange 'x' cs
  | 'x' :: cs => byteToken .hexadecimal cs
  | 'o' :: '{' :: cs => bracedTokens .octal inRange 'o' cs
  | ['u'] => .ok ([.code 'u'.toNat], [])
  | 'u' :: cs => do
      let (n, rest) ← Escape.fourDigits cs
      .ok ([.code n], rest)
  | 'p' :: '{' :: _ => .error .unsupported
  | 'P' :: '{' :: _ => .error .unsupported
  | c :: cs =>
      if (Escape.octal? c).isSome then byteToken .octal (c :: cs)
      else match Escape.set? asciiSpace c with
        | some s => .ok ([.set s], cs)
        | none => do
            let (n, rest) ← Escape.value (c :: cs)
            .ok ([.code n], rest)

/-- The first tokens, at least one; a class that ends before it is
    unclosed. -/
def tokens (asciiSpace inRange : Bool) : List Char → Except SyntaxError (List Token × List Char)
  | [] => .error .unclosedClass
  | ']' :: cs => .ok ([.leave], cs)
  | '-' :: cs => .ok ([.dash], cs)
  | '\\' :: cs => escaped asciiSpace inRange cs
  | '[' :: '^' :: cs => .ok ([.enter true], cs)
  | '[' :: cs => .ok ([.enter false], cs)
  | '&' :: '&' :: cs => .ok ([.meet], cs)
  | c :: cs => .ok ([.code c.toNat], cs)

/-- What was read last in a class. -/
inductive Item where
  /-- Nothing since the start or the last `&&`. -/
  | none
  /-- A character that may begin a range. -/
  | bound (b : Bound)
  /-- A set of characters. -/
  | set
  /-- A character and a dash. -/
  | range (lo : Bound)
  /-- A whole range or class. -/
  | whole
deriving DecidableEq, Repr

/-- Whether a range waits for its end. -/
def Item.isRange : Item → Bool
  | .range _ => true
  | _ => false

/-- A class that is being read. -/
structure Part where
  negated : Bool
  /-- The intersection of what stands before the last `&&`. -/
  met : Option CharSet := .none
  /-- The members since then. -/
  members : CharSet := .none
  item : Item := .none
deriving Repr

/-- The characters from one bound to another.  Between two bytes there are
    only the characters of one byte. -/
def between (lo hi : Bound) : CharSet :=
  if lo.isByte ∧ hi.isByte then .range lo.code (Nat.min hi.code 0x7F) else .range lo.code hi.code

namespace Part

/-- Takes a waiting character into the members. -/
def settled (p : Part) : CharSet :=
  match p.item with
  | .bound b => if b.isByte ∧ 0x80 ≤ b.code then p.members else p.members.insert b.code
  | _ => p.members

/-- The members met with what stands before the last `&&`. -/
def total (p : Part) : CharSet :=
  match p.met with
  | some s => .inter s p.settled
  | .none => p.settled

/-- The class, at its closing bracket. -/
def close (p : Part) : CharClass :=
  ⟨p.negated, p.total⟩

/-- Refuses numbers that are no code points.  The end of a range may lie
    beyond the last one, unless it is taken for a byte and the range is one
    of bytes. -/
def checkBound (p : Part) (b : Bound) : Except SyntaxError Unit :=
  if b.code ≤ 0x10FFFF then .ok ()
  else match p.item with
  | .range lo =>
      if Radix.standsForByte b.code ∧ lo.isByte then .error .invalidCodePoint else .ok ()
  | _ => do
      Radix.checkCode b.code
      .error .invalidCodePoint

/-- Adds a character: the end of a range, or one that waits for a dash. -/
def putBound (p : Part) (b : Bound) : Except SyntaxError Part := do
  p.checkBound b
  match p.item with
  | .range lo =>
      if lo.code ≤ b.code then
        .ok { p with members := .union p.members (between lo b), item := .whole }
      else .error .emptyRange
  | _ => .ok { p with members := p.settled, item := .bound b }

/-- Adds a set of characters, which can end no range. -/
def putSet (p : Part) (s : CharSet) : Except SyntaxError Part :=
  match p.item with
  | .range _ => .error .setEndsRange
  | _ => .ok { p with members := .union p.settled s, item := .set }

/-- Adds a class that was closed. -/
def putClass (p : Part) (c : CharClass) : Part :=
  { p with members := .union p.members c.toSet, item := .whole }

/-- Makes room for a class inside this one. -/
def pause (p : Part) : Part :=
  { p with members := p.settled, item := .whole }

/-- Starts over after `&&`. -/
def meet (p : Part) : Part :=
  { p with met := some p.total, members := .none, item := .none }

/-- Adds a dash, given whether the class or the part ends behind it. -/
def putDash (p : Part) (atEnd : Bool) : Except SyntaxError Part :=
  let plain := p.putBound (.ofCode '-'.toNat)
  match p.item with
  | .bound b => if atEnd then plain else .ok { p with item := .range b }
  | .set => if atEnd then plain else .error .setStartsRange
  | _ => plain

end Part

/-- Whether a token ends a part of a class. -/
def Token.endsPart : Token → Bool
  | .leave => true
  | .meet => true
  | _ => false

/-- How deep classes may nest, at a given depth of the class around, and
    how white space is understood. -/
structure Setting where
  asciiSpace : Bool := false
  /-- The number of classes that may be open together. -/
  room : Nat
deriving Repr

/-- The next token: one that is waiting, or the first one in the text. -/
def next (setting : Setting) (part : Part) (waiting : List Token) (cs : List Char) :
    Except SyntaxError (Option (Token × List Token × List Char)) :=
  match waiting with
  | t :: ts => .ok (some (t, ts, cs))
  | [] => do
      match ← tokens setting.asciiSpace part.item.isRange cs with
      | (t :: ts, rest) => .ok (some (t, ts, rest))
      | ([], _) => .ok none

/-- Reads on in the class `part`, which stands in the classes `outer`.
    Every token takes a character, so the length of the text suffices as
    fuel. -/
def readOn (setting : Setting) : (fuel : Nat) → (part : Part) → (outer : List Part) →
    (waiting : List Token) → List Char → Except SyntaxError (CharClass × List Char)
  | 0, _, _, _, _ => .error .unclosedClass
  | fuel + 1, part, outer, waiting, cs => do
      match ← next setting part waiting cs with
      | none => readOn setting fuel part outer [] cs
      | some (t, waiting, rest) =>
          match t with
          | .bound b => readOn setting fuel (← part.putBound b) outer waiting rest
          | .set s => readOn setting fuel (← part.putSet s) outer waiting rest
          | .dash =>
              let following ← next setting part waiting rest
              let atEnd := following.any fun f => f.1.endsPart
              readOn setting fuel (← part.putDash atEnd) outer waiting rest
          | .enter negated =>
              if setting.room ≤ outer.length + 1 then .error .tooDeep
              else readOn setting fuel { negated } (part.pause :: outer) waiting rest
          | .meet => readOn setting fuel part.meet outer waiting rest
          | .leave =>
              match outer with
              | [] => .ok (part.close, rest)
              | p :: ps => readOn setting fuel (p.putClass part.close) ps waiting rest

/-- Reads a class, from behind its opening bracket. -/
def read (setting : Setting) (cs : List Char) : Except SyntaxError (CharClass × List Char) :=
  if setting.room = 0 then .error .tooDeep
  else match cs with
  | '^' :: cs => readOn setting (cs.length + 1) { negated := true } [] [] cs
  | cs => readOn setting (cs.length + 1) { negated := false } [] [] cs

end CharClass

end Highlighter.Regex
