import Oscilloscope.Double

/-!
# Oscilloscope.Text.Decimal

The text of a double: the fewest digits that read back.

* `Binary` is the exact value of a positive double with its neighbours; `Binary.reads` says which
  decimals round to it.
* `shortest` finds the shortest decimal that reads back, and of those the nearest to the value. Two
  can be equally near; `Tie` says which of them is taken.
* `Style` says how digits and exponent are laid out, `Style.render` does it.
* `fixed` rounds to a fixed number of places instead.
-/

namespace Oscilloscope
namespace Text

structure Binary where
  mantissa : Nat
  exponent : Int
  /-- Whether the double below is only half as far as the one above. -/
  atBoundary : Bool

/-- The leading bit of a mantissa, which is not stored: there are 52 bits below it. -/
def hiddenBit : Nat := 0x10000000000000

/-- The parts of a finite double that is not zero, from its bits without the sign. -/
def Binary.ofBits (bits : UInt64) : Binary :=
  let fraction := bits.toNat % hiddenBit
  let exponent := bits.toNat / hiddenBit
  if exponent = 0 then ⟨fraction, -1074, false⟩
  else ⟨hiddenBit + fraction, (exponent : Int) - 1075, fraction = 0 ∧ 1 < exponent⟩

/-- A decimal: its value is `digits * 10 ^ exponent`. -/
structure Decimal where
  digits : Nat
  exponent : Int
deriving DecidableEq, Repr

/-- Which of two neighbouring numbers is taken for a value half way between them. -/
inductive Tie where
  | even
  | upper
deriving DecidableEq, Repr

/-- Bring `a * 2 ^ p` and `b * 10 ^ q` to whole numbers over one denominator. -/
def align (a : Nat) (p : Int) (b : Nat) (q : Int) : Nat × Nat :=
  (a * Nat.pow 2 p.toNat * Nat.pow 10 (-q).toNat, b * Nat.pow 10 q.toNat * Nat.pow 2 (-p).toNat)

namespace Binary

/-- Whether a decimal lies in the interval that rounds to the double. The ends belong to it if the
mantissa is even. -/
def reads (b : Binary) (d : Decimal) : Bool :=
  -- quarters of a unit in the last place: the value is `4m`, the upper end `4m + 2`
  let lower := 4 * b.mantissa - (if b.atBoundary then 1 else 2)
  let upper := 4 * b.mantissa + 2
  let (low, x) := align lower (b.exponent - 2) d.digits d.exponent
  let (high, y) := align upper (b.exponent - 2) d.digits d.exponent
  if b.mantissa % 2 = 0 then decide (low ≤ x) && decide (y ≤ high)
  else decide (low < x) && decide (y < high)

/-- The largest decimal with exponent `q` that is not above the value. -/
def below (b : Binary) (q : Int) : Decimal :=
  let (value, unit) := align b.mantissa b.exponent 1 q
  ⟨value / unit, q⟩

/-- Whether the value goes to `n` units of `10 ^ q` rather than to `n + 1`. -/
def nearerBelow (b : Binary) (tie : Tie) (n : Nat) (q : Int) : Bool :=
  let (value, unit) := align (2 * b.mantissa) b.exponent 1 q
  let middle := (2 * n + 1) * unit
  if value = middle then tie = .even ∧ n % 2 = 0 else decide (value < middle)

/-- A decimal with exponent `q` that reads back, if there is one: the nearer of the two that
enclose the value, if both do. -/
def readable? (b : Binary) (tie : Tie) (q : Int) : Option Decimal :=
  let d := b.below q
  let e : Decimal := ⟨d.digits + 1, q⟩
  match b.reads d, b.reads e with
  | true, true => some (if b.nearerBelow tie d.digits q then d else e)
  | true, false => some d
  | false, true => some e
  | false, false => none

/-- The decimal exponent of the leading digit: the largest `k` with `10 ^ k` not above the value.
`k` runs down from `start`. -/
def leading (b : Binary) : Nat → Int → Int
  | 0, k => k
  | fuel + 1, k => if 0 < (b.below k).digits then k else leading b fuel (k - 1)

/-- Try one digit, then two, up to `fuel` digits. -/
def search (b : Binary) (tie : Tie) (lead : Int) : Nat → Nat → Decimal
  | 0, count => b.below (lead - count)
  | fuel + 1, count =>
    match b.readable? tie (lead - count) with
    | some d => d
    | none => search b tie lead fuel (count + 1)

end Binary

/-- Drop the zeros at the end of the digits. -/
def stripZeros : Nat → Decimal → Decimal
  | 0, d => d
  | fuel + 1, d =>
    if d.digits % 10 = 0 ∧ d.digits ≠ 0 then stripZeros fuel ⟨d.digits / 10, d.exponent + 1⟩ else d

def shortest (b : Binary) (tie : Tie) : Decimal :=
  stripZeros 20 (b.search tie (b.leading 700 310) 17 0)

structure Style where
  tie : Tie
  /-- The smallest and the largest exponent of the leading digit that are written without an
  exponent part. -/
  lowest : Int
  highest : Int
  /-- Whether a whole number ends in `.0`. -/
  point : Bool
  /-- Whether a positive exponent has a sign. -/
  plus : Bool
  infinity : String
  nan : String

/-- Digits with a point after the first `whole` of them; zeros fill up on both sides. -/
def positional (digits : List Char) (whole : Int) (point : Bool) : String :=
  let n := digits.length
  if whole ≤ 0 then
    "0." ++ String.ofList (List.replicate (-whole).toNat '0' ++ digits)
  else if n ≤ whole.toNat then
    String.ofList (digits ++ List.replicate (whole.toNat - n) '0') ++ (if point then ".0" else "")
  else
    String.ofList (digits.take whole.toNat) ++ "." ++ String.ofList (digits.drop whole.toNat)

/-- Digits with an exponent part. -/
def scientific (digits : List Char) (lead : Int) (plus : Bool) : String :=
  let head := String.ofList (digits.take 1)
  let tail := digits.drop 1
  let fraction := if tail.isEmpty then "" else "." ++ String.ofList tail
  head ++ fraction ++ "e" ++ (if plus ∧ 0 ≤ lead then "+" else "") ++ toString lead

namespace Style

/-- The text of a positive finite number. -/
def magnitude (s : Style) (b : Binary) : String :=
  let d := shortest b s.tie
  let digits := Nat.toDigits 10 d.digits
  let lead := d.exponent + digits.length - 1
  if s.lowest ≤ lead ∧ lead ≤ s.highest then positional digits (lead + 1) s.point
  else scientific digits lead s.plus

def render (s : Style) (d : Double) : String :=
  if d.isNaN then s.nan
  else
    let sign := if d.isNegative then "-" else ""
    if d.magnitude = 0 then sign ++ (if s.point then "0.0" else "0")
    else if d.isInfinite then sign ++ s.infinity
    else sign ++ s.magnitude (.ofBits d.magnitude)

end Style

/-- Numbers in descriptions of values: an exponent from 16 digits on, and below one
ten-thousandth. -/
def described : Style := ⟨.upper, -4, 15, true, false, "inf", "NaN"⟩

/-- Numbers in messages: never an exponent, and no point in a whole number. -/
def plain : Style := ⟨.upper, -400, 400, false, false, "inf", "NaN"⟩

/-- The value in units of `10 ^ -places`, rounded to the nearest; half a unit goes to the even
number. -/
def Binary.rounded (b : Binary) (places : Nat) : Nat :=
  let (value, unit) := align b.mantissa b.exponent 1 (-places)
  let n := value / unit
  let twice := 2 * (value % unit)
  if twice < unit ∨ (twice = unit ∧ n % 2 = 0) then n else n + 1

/-- A finite number with exactly `places` digits behind the point, at least one. -/
def fixed (places : Nat) (v : Float) : String :=
  let d := Double.ofFloat v
  let sign := if d.isNegative then "-" else ""
  let digits := Nat.toDigits 10 ((Binary.ofBits d.magnitude).rounded places)
  let padded := List.replicate (places + 1 - digits.length) '0' ++ digits
  let whole := padded.length - places
  sign ++ String.ofList (padded.take whole) ++ "." ++ String.ofList (padded.drop whole)

end Text
end Oscilloscope
