/-! # Shortest decimals

    The decimal that stands for a floating point number: of the decimals
    that read back as the number one with the fewest digits, of those the
    nearest, and of two as near the even one.  If some decimal of a length
    reads back, one of the two next to the number on the grid of that length
    does, so only these are tried. -/

namespace Highlighter.Text

/-- Digits times a power of ten. -/
structure Decimal where
  digits : Nat
  exponent : Int
deriving DecidableEq, Repr

namespace Decimal

/-- A nonnegative fraction. -/
structure Ratio where
  num : Nat
  den : Nat

/-- The absolute value of a finite number. -/
def Ratio.ofFloat (x : Float) : Ratio :=
  let bits := x.toBits.toNat
  let hidden := Nat.pow 2 52
  let fraction := bits % hidden
  let field := bits / hidden % 2048
  if field = 0 then ⟨fraction, Nat.pow 2 1074⟩
  else if field ≤ 1075 then ⟨hidden + fraction, Nat.pow 2 (1075 - field)⟩
  else ⟨(hidden + fraction) * Nat.pow 2 (field - 1075), 1⟩

/-- The fraction divided by a power of ten. -/
def Ratio.shift (r : Ratio) (exponent : Int) : Ratio :=
  match exponent with
  | .ofNat n => ⟨r.num, r.den * Nat.pow 10 n⟩
  | .negSucc n => ⟨r.num * Nat.pow 10 (n + 1), r.den⟩

/-- The number of decimal digits. -/
def width (n : Nat) : Nat := (Nat.toDigits 10 n).length

/-- The power of ten of the first digit of a fraction; a power large enough
    for the least positive number is taken out first. -/
def Ratio.magnitude (r : Ratio) : Int :=
  (width (r.num * Nat.pow 10 344 / r.den) : Int) - 345

/-- The number nearest to a decimal. -/
def toFloat (d : Decimal) : Float :=
  match d.exponent with
  | .ofNat n => Float.ofScientific d.digits false n
  | .negSucc n => Float.ofScientific d.digits true (n + 1)

/-- Whether a decimal reads back as a number without sign. -/
def readsBack (x : Float) (d : Decimal) : Bool := d.toFloat.toBits == x.toBits

/-- The same decimal without a zero at the end; the digits above a number
    that begins with a nine may have one. -/
def withoutZero (d : Decimal) : Decimal :=
  if d.digits % 10 = 0 then ⟨d.digits / 10, d.exponent + 1⟩ else d

/-- The decimal of a length that stands for a number, if there is one. -/
def ofLength? (x : Float) (r : Ratio) (length : Nat) : Option Decimal :=
  let exponent := r.magnitude + 1 - length
  let scaled := r.shift exponent
  let below : Decimal := ⟨scaled.num / scaled.den, exponent⟩
  let above : Decimal := ⟨scaled.num / scaled.den + 1, exponent⟩
  let twice := 2 * (scaled.num % scaled.den)
  let isBelow := twice < scaled.den || (twice == scaled.den && below.digits % 2 == 0)
  let (near, far) := if isBelow then (below, above) else (above, below)
  if readsBack x near then some near
  else if readsBack x far then some far
  else none

/-- The shortest decimal of a positive number. -/
def shortest (x : Float) : Decimal :=
  let r := Ratio.ofFloat x
  (((List.range 17).findSome? fun n => ofLength? x r (n + 1)).getD ⟨0, 0⟩).withoutZero

end Decimal

end Highlighter.Text
