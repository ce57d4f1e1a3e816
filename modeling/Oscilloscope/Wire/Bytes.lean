/-!
# Oscilloscope.Wire.Bytes

Words as bytes, least significant byte first.

* `littleEndian width n` are the lowest `width` bytes of `n`.
* `ofLittleEndian` is the number with the given bytes.
* `wordAt` reads a number out of a longer byte string.
-/

namespace Oscilloscope
namespace Wire

def littleEndian : Nat → Nat → List UInt8
  | 0, _ => []
  | width + 1, n => UInt8.ofNat n :: littleEndian width (n / 256)

def ofLittleEndian : List UInt8 → Nat
  | [] => 0
  | b :: rest => b.toNat + 256 * ofLittleEndian rest

def wordAt (bytes : List UInt8) (offset width : Nat) : Nat :=
  ofLittleEndian ((bytes.drop offset).take width)

end Wire
end Oscilloscope
