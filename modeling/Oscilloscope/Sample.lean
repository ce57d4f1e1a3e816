/-!
# Oscilloscope.Sample

The sample: one signed 16-bit reading of one channel.

* `Sample` is the machine word. It has the order of the signed integers and ranges from
  `Sample.lowest` to `Sample.highest`.
* `Sample.toFloat` is its exact value as a double.
* `Sample.ofInt?` is the sample with a given integer value, if there is one.
* `Sample.bytes` and `Sample.ofBytes` are the two-byte form, least significant byte first.
-/

namespace Oscilloscope

abbrev Sample := Int16

namespace Sample

def lowest : Sample := Int16.minValue

def highest : Sample := Int16.maxValue

def toFloat (s : Sample) : Float := Float.ofInt s.toInt

def ofInt? (v : Int) : Option Sample :=
  if lowest.toInt ≤ v ∧ v ≤ highest.toInt then some (Int16.ofInt v) else none

def bytes (s : Sample) : List UInt8 :=
  [s.toUInt16.toUInt8, (s.toUInt16 >>> 8).toUInt8]

def ofBytes (low high : UInt8) : Sample :=
  (low.toUInt16 ||| (high.toUInt16 <<< 8)).toInt16

end Sample

end Oscilloscope
