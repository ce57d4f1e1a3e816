import Oscilloscope.Frame
import Oscilloscope.Index
import Oscilloscope.Outcome
import Oscilloscope.Wire.Bytes

/-!
# Oscilloscope.Wire.Header

The header of a frame on a byte stream: 64 bytes, every number least significant byte first.

| offset | size | field |
|--------|------|-------|
| 0  | 4 | magic, the letters `GFH2` |
| 4  | 4 | header size, 64 |
| 8  | 8 | sequence number |
| 16 | 8 | capture time |
| 24 | 4 | channels |
| 28 | 4 | samples per channel |
| 32 | 4 | payload size: channels times samples per channel times two |
| 36 | 4 | reserved, written as zero |
| 40 | 8 | sample rate, the bits of a double |
| 48 | 8 | stream position of the first sample |
| 56 | 8 | samples dropped by the producer so far |

* `Header.bytes` writes a header, `Header.decode` reads and checks one. It aborts where the size that
  the payload should have does not fit a 64-bit word.
* `WireError` says why bytes are no header or no frame.
-/

namespace Oscilloscope
namespace Wire

def magic : UInt32 := 0x32484647

def headerLength : Nat := 64

/-- The largest payload, 64 MiB: a longer one is taken for a corrupt length. -/
def maxPayload : Nat := 64 * 1024 * 1024

inductive WireError where
  | badMagic (found : UInt32)
  | truncated (needed available : Nat)
  | headerSize (found : UInt32)
  | payloadMismatch (payload channels block : UInt32)
  /-- The transport failed. -/
  | transport (reason : String)
deriving DecidableEq

/-- A word in hexadecimal, eight digits. -/
def hexWord (w : UInt32) : String :=
  let digits := Nat.toDigits 16 w.toNat
  String.ofList (List.replicate (8 - digits.length) '0' ++ digits)

def WireError.message : WireError → String
  | badMagic found => "bad frame magic 0x" ++ hexWord found
  | truncated needed available => s!"truncated frame: need {needed} bytes, have {available}"
  | headerSize found => "unsupported header size " ++ toString found.toNat
  | payloadMismatch payload channels block =>
    "payload size " ++ toString payload.toNat ++ " does not match " ++
      toString channels.toNat ++ " x " ++ toString block.toNat ++ " samples"
  | transport reason => "IO error: " ++ reason

/-- The header of a frame. -/
structure Header where
  sequence : UInt64
  timestamp : UInt64
  channels : UInt32
  /-- Samples per channel. -/
  block : UInt32
  /-- Bytes that follow the header. -/
  payload : UInt32
  rate : Double
  firstIndex : UInt64
  drops : UInt64

namespace Header

/-- The header of `f`, with the producer's drops so far. -/
def ofFrame (f : Frame) (drops : UInt64) : Header where
  sequence := f.sequence
  timestamp := f.timestamp
  channels := f.channels
  block := f.samplesPerChannel
  payload := UInt32.ofNat (f.samples.length * 2)
  rate := f.rate
  firstIndex := f.firstIndex
  drops

def bytes (h : Header) : List UInt8 :=
  littleEndian 4 magic.toNat ++ littleEndian 4 headerLength ++
  littleEndian 8 h.sequence.toNat ++ littleEndian 8 h.timestamp.toNat ++
  littleEndian 4 h.channels.toNat ++ littleEndian 4 h.block.toNat ++
  littleEndian 4 h.payload.toNat ++ littleEndian 4 0 ++
  littleEndian 8 h.rate.bits.toNat ++ littleEndian 8 h.firstIndex.toNat ++
  littleEndian 8 h.drops.toNat

/-- The size of a payload of `channels` times `block` samples. The number of the samples always
fits its word; twice the number may not. -/
def payloadSize? (channels block : UInt32) : Option UInt64 :=
  word? (channels.toNat * block.toNat * 2)

/-- Whether a payload of `payload` bytes has the size `size` of its shape and is not too long. -/
def payloadFits (payload : UInt32) (size : UInt64) : Bool :=
  size == payload.toUInt64 && decide (size.toNat ≤ maxPayload)

/-- Read and check the header at the start of `bytes`. The first check that fails names the
error. -/
def decode (bytes : List UInt8) : Outcome WireError Header :=
  if bytes.length < headerLength then .error (.truncated headerLength bytes.length)
  else
    let word32 offset := UInt32.ofNat (wordAt bytes offset 4)
    let word64 offset := UInt64.ofNat (wordAt bytes offset 8)
    if word32 0 ≠ magic then .error (.badMagic (word32 0))
    else if (word32 4).toNat ≠ headerLength then .error (.headerSize (word32 4))
    else
      match payloadSize? (word32 24) (word32 28) with
      | none => .overflow
      | some size =>
        if payloadFits (word32 32) size then
          .ok { sequence := word64 8, timestamp := word64 16, channels := word32 24,
                block := word32 28, payload := word32 32, rate := ⟨word64 40⟩,
                firstIndex := word64 48, drops := word64 56 }
        else .error (.payloadMismatch (word32 32) (word32 24) (word32 28))

end Header

end Wire
end Oscilloscope
