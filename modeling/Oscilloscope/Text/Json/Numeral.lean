import Oscilloscope.Text.Document

/-!
# Oscilloscope.Text.Json.Numeral

What a number in a JSON text stands for.

A number without a fraction and an exponent is an integer if it fits a 64-bit word. Every other
number is read into a double in two steps: its digits are collected into a word, and the word is
then multiplied with or divided by a power of ten. Each step rounds, so the result can miss the
nearest double by a little.

* `Collected` is the word with its power of ten. Digits of the whole part that do not fit count
  into the power; digits of the fraction are left out from the first that does not fit.
* `Numeral.document` is the value: an integer, a double, or spoiled if it is out of range.
-/

namespace Oscilloscope
namespace Text
namespace Json

/-- A number as it is written. -/
structure Numeral where
  negative : Bool
  whole : List Nat
  /-- Empty if there is no fraction. -/
  fraction : List Nat := []
  /-- The digits of the exponent, and whether it is negative. -/
  exponent : Option (Bool × List Nat) := none
deriving DecidableEq, Repr

structure Collected where
  word : Nat := 0
  exponent : Int := 0
  /-- A digit of the whole part did not fit. -/
  full : Bool := false
deriving DecidableEq, Repr

/-- Words are smaller than this. -/
def wordLimit : Nat := UInt64.size

namespace Collected

def addWhole (c : Collected) : List Nat → Collected
  | [] => c
  | d :: rest =>
    if c.full ∨ wordLimit ≤ c.word * 10 + d then
      addWhole { c with exponent := c.exponent + 1, full := true } rest
    else addWhole { c with word := c.word * 10 + d } rest

def addFraction (c : Collected) : List Nat → Collected
  | [] => c
  | d :: rest =>
    if wordLimit ≤ c.word * 10 + d then c
    else addFraction { c with word := c.word * 10 + d, exponent := c.exponent - 1 } rest

end Collected

/-- The largest power of ten that is a double. -/
def largestPower : Nat := 308

def powerOfTen (n : Nat) : Float := Float.ofScientific 1 false n

/-- `v * 10 ^ e`, or `none` if it is too large. A power below the smallest is divided by in steps;
after three of them nothing is left of a word. -/
def scale (v : Float) (e : Int) : Nat → Option Float
  | 0 => some 0.0
  | fuel + 1 =>
    if e.natAbs ≤ largestPower then
      if 0 ≤ e then
        let scaled := v * powerOfTen e.natAbs
        if scaled.isInf then none else some scaled
      else some (v / powerOfTen e.natAbs)
    else if v == 0.0 then some v
    else if 0 ≤ e then none
    else scale (v / powerOfTen largestPower) (e + largestPower) fuel

/-- The value of a run of digits. -/
def valueOf (digits : List Nat) : Nat := digits.foldl (fun n d => n * 10 + d) 0

namespace Numeral

def collected (n : Numeral) : Collected :=
  (({} : Collected).addWhole n.whole).addFraction n.fraction

/-- An exponent from here on is not looked at: only its sign and the zero word matter. -/
def exponentLimit : Nat := 0x80000000

/-- The number without its sign as a double. -/
def magnitude? (n : Numeral) : Option Float :=
  let c := n.collected
  let v := Float.ofNat c.word
  match n.exponent with
  | none => scale v c.exponent 3
  | some (negative, digits) =>
    if valueOf digits < exponentLimit then
      scale v (if negative then c.exponent - valueOf digits else c.exponent + valueOf digits) 3
    else if negative ∨ c.word = 0 then some 0.0
    else none

def real (n : Numeral) : Document :=
  match n.magnitude? with
  | none => .spoiled
  | some v => .real (if n.negative then (Double.ofFloat v).negate else Double.ofFloat v)

def document (n : Numeral) : Document :=
  let c := n.collected
  if n.fraction.isEmpty ∧ n.exponent.isNone ∧ c.full = false then
    if n.negative = false then .integer c.word
    else if 0 < c.word ∧ c.word ≤ 0x8000000000000000 then .integer (-c.word)
    else n.real
  else n.real

end Numeral

end Json
end Text
end Oscilloscope
