import Oscilloscope.Wire.Header

/-!
# Oscilloscope.Wire.Codec

A frame as one run of bytes: its header and then its samples.

* `encodeFrame` writes a frame, `decodeFrame` reads one from the start of a byte string.
* `encodeSamples` and `decodeSamples` are the payload.
-/

namespace Oscilloscope
namespace Wire

def encodeSamples (samples : List Sample) : List UInt8 := samples.flatMap Sample.bytes

def decodeSamples : List UInt8 → List Sample
  | low :: high :: rest => Sample.ofBytes low high :: decodeSamples rest
  | _ => []

def encodeFrame (f : Frame) (drops : UInt64) : List UInt8 :=
  (Header.ofFrame f drops).bytes ++ encodeSamples f.samples

def decodeFrame (bytes : List UInt8) : Outcome WireError (Header × Frame) :=
  match Header.decode bytes with
  | .overflow => .overflow
  | .error e => .error e
  | .ok h =>
    let needed := headerLength + h.payload.toNat
    if bytes.length < needed then .error (.truncated needed bytes.length)
    else
      let samples := decodeSamples ((bytes.drop headerLength).take h.payload.toNat)
      match Frame.ofSamples? h.channels h.block samples with
      | .error _ => .error (.payloadMismatch h.payload h.channels h.block)
      | .ok f =>
        .ok (h, { f with sequence := h.sequence, timestamp := h.timestamp, rate := h.rate,
                         firstIndex := h.firstIndex })

end Wire
end Oscilloscope
