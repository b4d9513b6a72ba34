import Highlighter.Text.Decimal

/-! # JSON values

    A value as a tree.  The members of an object keep their order, and a
    name may stand there more than once.  Whole numbers are kept apart from
    the others, for they are shown differently. -/

namespace Highlighter

/-- A number of a JSON text. -/
inductive Json.Number where
  /-- A whole number of at most 64 bits. -/
  | integer (n : Int)
  /-- Any other number. -/
  | real (x : Float)

/-- A JSON value. -/
inductive Json where
  | null
  | bool (b : Bool)
  | number (n : Json.Number)
  | string (s : String)
  | array (elements : List Json)
  | object (members : List (String × Json))

namespace Json

/-- A natural number as a value. -/
def ofNat (n : Nat) : Json := .number (.integer n)

-- ── Numbers as texts ─────────────────────────────────────────────────────

/-- How the digits of a number are laid out: positionally when the first
    digit has a power of ten from `leastPower` to `greatestPower`, with a
    signed exponent otherwise. -/
structure Layout where
  leastPower : Int
  greatestPower : Int

/-- The layout of numbers in messages. -/
def layout : Layout := ⟨-5, 15⟩

/-- An exponent with its sign. -/
def exponentText (power : Int) : List Char :=
  'e' :: (if power < 0 then '-' else '+') :: Nat.toDigits 10 power.natAbs

/-- Digits whose first one has the given power of ten. -/
def Layout.text (l : Layout) (digits : List Char) (power : Int) : List Char :=
  if l.leastPower ≤ power && power ≤ l.greatestPower then
    match power with
    | .ofNat n =>
        let whole := digits.take (n + 1)
        let fraction := digits.drop (n + 1)
        whole ++ List.replicate (n + 1 - whole.length) '0' ++
          '.' :: (if fraction.isEmpty then ['0'] else fraction)
    | .negSucc n => '0' :: '.' :: List.replicate n '0' ++ digits
  else
    match digits with
    | [] => []
    | first :: others =>
        first :: (if others.isEmpty then [] else '.' :: others) ++ exponentText power

/-- A number that is not whole, as a text. -/
def realText (x : Float) : String :=
  let sign := if x.toBits.toNat < 0x8000000000000000 then [] else ['-']
  let size := x.abs
  if size == 0 then String.ofList (sign ++ "0.0".toList)
  else
    let d := Text.Decimal.shortest size
    let digits := Nat.toDigits 10 d.digits
    String.ofList (sign ++ layout.text digits (d.exponent + digits.length - 1))

/-- A number as a text. -/
def Number.text : Number → String
  | .integer n => toString n
  | .real x => realText x

end Json

end Highlighter
