import Oscilloscope.Source
import Oscilloscope.Wire.Codec
import Oscilloscope.Wire.Transport

/-!
# Oscilloscope.Wire.StreamSource

A block source over a byte stream of frames.

The stream may stall anywhere: what has been read of a header or of a payload is kept, and the next
read goes on there. Bytes that are no header are skipped up to the next place where the magic may
begin; one such search counts once per read, however far it goes. A read aborts at a header whose
size does not fit its word, and the header stays.

* `skipToMagic` drops the bytes before the next possible magic.
* `scan` finds the next header.
* `StreamSource.read` is the next block.
-/

namespace Oscilloscope
namespace Wire

/-- The letters that a header begins with. -/
def magicBytes : List UInt8 := littleEndian 4 magic.toNat

/-- Drop bytes until the rest may be the start of a magic: it begins with the magic, or it is
shorter and the magic begins with it. -/
def dropToMagic : List UInt8 → List UInt8
  | [] => []
  | b :: rest =>
    if ((b :: rest).take 4).isPrefixOf magicBytes then b :: rest else dropToMagic rest

/-- Drop the first byte, and then the bytes before the next possible magic. -/
def skipToMagic (bytes : List UInt8) : List UInt8 := dropToMagic bytes.tail

theorem length_dropToMagic_le (bytes : List UInt8) : (dropToMagic bytes).length ≤ bytes.length := by
  induction bytes with
  | nil => exact Nat.le_refl _
  | cons b rest ih =>
    simp only [dropToMagic]
    split
    · exact Nat.le_refl _
    · exact Nat.le_trans ih (Nat.le_succ _)

theorem length_skipToMagic_lt {bytes : List UInt8} (h : 0 < bytes.length) :
    (skipToMagic bytes).length < bytes.length := by
  have := length_dropToMagic_le bytes.tail
  simp only [skipToMagic, List.length_tail] at this ⊢
  omega

/-- How the search for a header ends: the header or why there is none, the bytes of a header that is
incomplete or at which the search aborted, the reader after it, and whether bytes had to be
skipped. -/
structure Scan where
  outcome : Outcome ReadError Header
  buffered : List UInt8
  reader : Reader
  skipped : Bool

def scan (buffered : List UInt8) (reader : Reader) (skipped : Bool) : Scan :=
  match _filled : reader.fill headerLength buffered with
  | (.ended, buffered, reader) => ⟨.error .endOfStream, buffered, reader, skipped⟩
  | (.fault .wouldBlock _, buffered, reader) => ⟨.error .noData, buffered, reader, skipped⟩
  | (.fault _ reason, buffered, reader) => ⟨.error (.failed reason), buffered, reader, skipped⟩
  | (.complete, buffered, reader) =>
    match Header.decode buffered with
    | .ok header => ⟨.ok header, [], reader, skipped⟩
    | .overflow => ⟨.overflow, buffered, reader, skipped⟩
    | .error _ => scan (skipToMagic buffered) reader true
termination_by buffered.length + reader.remaining.length
decreasing_by
  rename_i before source
  have kept := congrArg List.length (Reader.fill_remaining headerLength before source)
  have full := @Reader.le_length_of_fill headerLength before source (by rw [_filled])
  rw [_filled] at kept full
  simp only [List.length_append, headerLength] at kept full
  have := length_skipToMagic_lt (show 0 < buffered.length by omega)
  omega

/-- A source of blocks from a byte stream. -/
structure StreamSource where
  reader : Reader
  /-- Describes the stream: as announced, then as the last block said. -/
  info : SourceInfo
  /-- The bytes of an incomplete header, or of one at which a read aborted. -/
  buffered : List UInt8 := []
  /-- A header whose payload is still arriving, with the bytes of it that are there. -/
  pending : Option (Header × List UInt8) := none
  lastHeader : Option Header := none
  /-- How many reads had to skip bytes. -/
  resyncs : UInt64 := 0

namespace StreamSource

/-- A source over `reader`; channels and rate describe it until the first block arrives. -/
def new (reader : Reader) (channels : UInt32) (rate : Double) : StreamSource where
  reader
  info := ⟨channels, rate, true⟩

/-- The block of a header and its payload. -/
def block (h : Header) (payload : List UInt8) : Buffer :=
  ⟨h.sequence, h.timestamp, h.channels, h.block, decodeSamples payload⟩

/-- Read the payload of `h`, of which `got` is there. The end of the stream drops it. -/
def readPayload (s : StreamSource) (h : Header) (got : List UInt8) :
    Outcome ReadError Buffer × StreamSource :=
  match s.reader.fill h.payload.toNat got with
  | (.complete, payload, reader) =>
    (.ok (block h payload),
     { s with reader, pending := none, lastHeader := some h,
              info := { s.info with channels := h.channels, rate := h.rate } })
  | (.ended, _, reader) => (.error .endOfStream, { s with reader, pending := none })
  | (.fault .wouldBlock _, got, reader) =>
    (.error .noData, { s with reader, pending := some (h, got) })
  | (.fault _ reason, _, reader) =>
    (.error (.failed reason), { s with reader, pending := none })

def read (s : StreamSource) : Outcome ReadError Buffer × StreamSource :=
  match s.pending with
  | some (h, got) => s.readPayload h got
  | none =>
    let found := scan s.buffered s.reader false
    let s := { s with reader := found.reader, buffered := found.buffered,
                      resyncs := if found.skipped then s.resyncs + 1 else s.resyncs }
    match found.outcome with
    | .error e => (.error e, s)
    | .overflow => (.overflow, s)
    | .ok h => s.readPayload h []

end StreamSource

end Wire
end Oscilloscope
