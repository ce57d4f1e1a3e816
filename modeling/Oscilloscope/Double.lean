/-!
# Oscilloscope.Double

Doubles that are kept, passed on and written out again, as their bits.

Two doubles are equal here when their bits are: a zero keeps its sign, and a value that is no number
keeps all of its bits. `Double.agrees` compares numbers instead, where the two zeros agree and what
is no number agrees with nothing. Arithmetic is done on `Double.toFloat`, and `Double.ofResult`
brings its result back.
-/

namespace Oscilloscope

structure Double where
  bits : UInt64
deriving DecidableEq, Repr

namespace Double

def ofFloat (v : Float) : Double := ⟨v.toBits⟩

def toFloat (d : Double) : Float := Float.ofBits d.bits

/-- The bit that holds the sign. -/
def signBit : UInt64 := 0x8000000000000000

def isNegative (d : Double) : Bool := d.bits &&& signBit != 0

/-- The same magnitude with the other sign. -/
def negate (d : Double) : Double := ⟨d.bits ^^^ signBit⟩

def zero : Double := ⟨0⟩

def nan : Double := ⟨0x7ff8000000000000⟩

def infinity : Double := ⟨0x7ff0000000000000⟩

/-- The bits without the sign. -/
def magnitude (d : Double) : UInt64 := d.bits &&& ~~~signBit

def isNaN (d : Double) : Bool := decide (infinity.bits < d.magnitude)

def isInfinite (d : Double) : Bool := d.magnitude == infinity.bits

/-- The result of an operation on numbers. Where there is none, the sign bit is set. -/
def ofResult (v : Float) : Double := if v.isNaN then nan.negate else ofFloat v

def isPositive (d : Double) : Bool := decide (0.0 < d.toFloat)

def agrees (a b : Double) : Bool := a.toFloat == b.toFloat

/-- The double nearest to `digits * 10 ^ exponent`, infinite if that is out of range. -/
def ofDecimal (digits : Nat) (exponent : Int) : Double :=
  let lead := exponent + (Nat.toDigits 10 digits).length
  if digits = 0 ∨ lead < -400 then ofFloat 0.0
  else if 400 < lead then infinity
  else ofFloat (Float.ofScientific digits (decide (exponent < 0)) exponent.natAbs)

end Double

end Oscilloscope
