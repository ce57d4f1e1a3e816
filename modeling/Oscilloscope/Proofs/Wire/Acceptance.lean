import Oscilloscope.Proofs.Wire.Codec
import Oscilloscope.Proofs.Wire.Resync

/-!
# Oscilloscope.Proofs.Wire.Acceptance

Which bytes are accepted as a header, and how many samples the blocks of a stream hold.

A header is valid if it begins with the magic and gives the exact size of its payload. `decode`
computes that size in a 64-bit word, which the shapes of two 32-bit words can exceed by one bit.

* `Header.Valid`: what the layout asks for, in exact numbers.
* `Header.Excessive`: bytes that begin as a header whose size does not fit the word.
* `Header.decode_isOk_iff`, `Header.decode_overflow_iff`: `decode` accepts the valid headers, and
  aborts at the excessive ones.
* `StreamSource.read_measured`: what a read preserves, over any transport.
* `header_checks`: both for headers, and what it comes to for the blocks of a stream.
* `header_overflows`: a header at which `decode` aborts.
-/

namespace Oscilloscope
namespace Wire

namespace Header

/-- The size that the payload should have for the shape in a header. -/
def shapeBytes (bytes : List UInt8) : Nat := 2 * wordAt bytes 24 4 * wordAt bytes 28 4

/-- Bytes that begin as a header: the magic and the header size are there. -/
structure Announced (bytes : List UInt8) : Prop where
  length : headerLength ≤ bytes.length
  magic : bytes.take 4 = magicBytes
  size : wordAt bytes 4 4 = headerLength

/-- Bytes that begin with a header, as the layout has it. -/
structure Valid (bytes : List UInt8) : Prop extends Announced bytes where
  payload : wordAt bytes 32 4 = shapeBytes bytes
  short : wordAt bytes 32 4 ≤ maxPayload

/-- Bytes that begin as a header with a shape that is too large. -/
structure Excessive (bytes : List UInt8) : Prop extends Announced bytes where
  shape : UInt64.size ≤ shapeBytes bytes

section Decode

variable {bytes : List UInt8}

theorem toNat_word32 (bytes : List UInt8) (offset : Nat) :
    (UInt32.ofNat (wordAt bytes offset 4)).toNat = wordAt bytes offset 4 :=
  UInt32.toNat_ofNat_of_lt' (wordAt_lt bytes offset 4)

theorem wordAt_of_magic (hmagic : bytes.take 4 = magicBytes) :
    UInt32.ofNat (wordAt bytes 0 4) = magic := by
  have hword : wordAt bytes 0 4 = ofLittleEndian (bytes.take 4) := rfl
  rw [hword, hmagic]
  rfl

theorem announced_of_decode (hlen : headerLength ≤ bytes.length)
    (hmagic : UInt32.ofNat (wordAt bytes 0 4) = Wire.magic)
    (hsize : (UInt32.ofNat (wordAt bytes 4 4)).toNat = headerLength) : Announced bytes :=
  ⟨hlen, take_of_magic hlen hmagic, by rwa [toNat_word32] at hsize⟩

/-- Behind the magic and the header size, the payload decides. -/
theorem Announced.decode (h : Announced bytes) : decode bytes =
    match payloadSize? (UInt32.ofNat (wordAt bytes 24 4)) (UInt32.ofNat (wordAt bytes 28 4)) with
    | none => .overflow
    | some size =>
      let payload := UInt32.ofNat (wordAt bytes 32 4)
      let channels := UInt32.ofNat (wordAt bytes 24 4)
      let block := UInt32.ofNat (wordAt bytes 28 4)
      if payloadFits payload size then
        .ok { sequence := UInt64.ofNat (wordAt bytes 8 8)
              timestamp := UInt64.ofNat (wordAt bytes 16 8), channels, block, payload
              rate := ⟨UInt64.ofNat (wordAt bytes 40 8)⟩
              firstIndex := UInt64.ofNat (wordAt bytes 48 8)
              drops := UInt64.ofNat (wordAt bytes 56 8) }
      else .error (.payloadMismatch payload channels block) := by
  have hsize : (UInt32.ofNat (wordAt bytes 4 4)).toNat = headerLength := by
    rw [toNat_word32, h.size]
  cases hpayload : payloadSize? (UInt32.ofNat (wordAt bytes 24 4))
      (UInt32.ofNat (wordAt bytes 28 4)) with
  | none =>
    simp only [Header.decode, if_neg (Nat.not_lt.mpr h.length), wordAt_of_magic h.magic, hsize,
      ne_eq, not_true_eq_false, if_false, hpayload]
  | some size =>
    simp only [Header.decode, if_neg (Nat.not_lt.mpr h.length), wordAt_of_magic h.magic, hsize,
      ne_eq, not_true_eq_false, if_false, hpayload]

theorem decode_overflow_iff : decode bytes = .overflow ↔ Excessive bytes := by
  have hshape := @payloadSize?_eq_none (UInt32.ofNat (wordAt bytes 24 4))
    (UInt32.ofNat (wordAt bytes 28 4))
  simp only [toNat_word32] at hshape
  constructor
  · intro hover
    obtain ⟨hlen, hmagic, hsize, hnone⟩ := decode_overflow hover
    exact ⟨announced_of_decode hlen hmagic hsize, hshape.mp hnone⟩
  · intro h
    rw [h.toAnnounced.decode, hshape.mpr h.shape]

theorem decode_isOk_iff : (∃ h, decode bytes = .ok h) ↔ Valid bytes := by
  have hshape (size : UInt64) := @payloadSize?_eq_some (UInt32.ofNat (wordAt bytes 24 4))
    (UInt32.ofNat (wordAt bytes 28 4)) size
  simp only [toNat_word32] at hshape
  constructor
  · rintro ⟨h, hok⟩
    obtain ⟨hlen, hmagic, hsize, ⟨hpayload, hshort⟩, rfl⟩ := decode_ok hok
    simp only [toNat_word32] at hpayload hshort
    exact ⟨announced_of_decode hlen hmagic hsize, hpayload, hshort⟩
  · intro h
    have hsize : (UInt32.ofNat (wordAt bytes 32 4)).toUInt64.toNat = shapeBytes bytes := by
      rw [UInt32.toNat_toUInt64, toNat_word32, h.payload]
    have hfits : payloadFits (UInt32.ofNat (wordAt bytes 32 4))
        (UInt32.ofNat (wordAt bytes 32 4)).toUInt64 = true := by
      rw [payloadFits_iff, UInt32.toNat_toUInt64, toNat_word32]
      exact ⟨rfl, h.short⟩
    rw [h.toAnnounced.decode, (hshape _).mpr hsize]
    exact ⟨_, if_pos hfits⟩

end Decode

end Header

/-! ## Blocks of a stream -/

/-- The samples are exactly those of the shape. -/
def Measured (b : Buffer) : Prop :=
  b.samples.length = b.channels.toNat * b.samplesPerChannel.toNat

/-- Reading on never takes more than it needs. -/
theorem Reader.length_fill_le {need : Nat} {got : List UInt8} (r : Reader)
    (hgot : got.length ≤ need) : (r.fill need got).2.1.length ≤ need := by
  induction r generalizing got with
  | nil =>
    simp only [fill]
    split
    · exact hgot
    · exact hgot
  | cons event rest ih =>
    simp only [fill]
    split
    · exact hgot
    · cases event with
      | data bytes =>
        dsimp only
        split
        · simp only [List.length_append, List.length_take]
          omega
        · apply ih
          rw [List.length_append]
          omega
      | endOfFile => exact hgot
      | fault kind reason =>
        cases kind with
        | interrupted => exact ih hgot
        | wouldBlock => exact hgot
        | failed => exact hgot

theorem fits_of_scan (buffered : List UInt8) (reader : Reader) (skipped : Bool) {h : Header}
    (hfound : (scan buffered reader skipped).outcome = .ok h) : h.Fits := by
  fun_induction scan buffered reader skipped with
  | case1 => cases hfound
  | case2 => cases hfound
  | case3 => cases hfound
  | case4 before source skipped buffered reader hfill header hdecode =>
    cases hfound
    exact (Header.decode_ok hdecode).2.2.2.1
  | case5 => cases hfound
  | case6 before source skipped buffered reader hfill e hdecode ih => exact ih hfound

theorem measured_block {h : Header} {payload : List UInt8} (hfits : h.Fits)
    (hlen : payload.length = h.payload.toNat) : Measured (StreamSource.block h payload) := by
  have hcount : (StreamSource.block h payload).samples.length = payload.length / 2 :=
    length_decodeSamples payload
  rw [Measured, hcount, hlen, hfits.1, Nat.mul_assoc, Nat.mul_div_cancel_left _ Nat.two_pos]
  rfl

namespace StreamSource

/-- The payload that is still arriving belongs to an accepted header, and it is not too long. -/
def Promised (s : StreamSource) : Prop :=
  ∀ h got, s.pending = some (h, got) → h.Fits ∧ got.length ≤ h.payload.toNat

section Read

variable {s : StreamSource} {h : Header} {got : List UInt8}

theorem readPayload_measured (hfits : h.Fits) (hgot : got.length ≤ h.payload.toNat) :
    (s.readPayload h got).2.Promised ∧ ∀ b, (s.readPayload h got).1 = .ok b → Measured b := by
  have hle := Reader.length_fill_le s.reader hgot
  unfold readPayload
  split
  · rename_i payload reader hfill
    rw [hfill] at hle
    have hfull := Reader.length_of_complete hfill
    refine ⟨fun h' got' hp => (by cases hp), fun b hb => ?_⟩
    cases hb
    exact measured_block hfits (Nat.le_antisymm hle hfull)
  · exact ⟨fun h' got' hp => (by cases hp), fun b hb => (by cases hb)⟩
  · rename_i got' reader hfill
    rw [hfill] at hle
    refine ⟨fun h' got'' hp => ?_, fun b hb => (by cases hb)⟩
    cases hp
    exact ⟨hfits, hle⟩
  · exact ⟨fun h' got' hp => (by cases hp), fun b hb => (by cases hb)⟩

theorem read_measured (hs : s.Promised) :
    s.read.2.Promised ∧ ∀ b, s.read.1 = .ok b → Measured b := by
  cases hp : s.pending with
  | some p =>
    obtain ⟨h, got⟩ := p
    obtain ⟨hfits, hgot⟩ := hs h got hp
    rw [read_of_pending hp]
    exact readPayload_measured hfits hgot
  | none =>
    have hidle : s.searched.Promised := by
      intro h got hp'
      have hnone : s.searched.pending = none := hp
      rw [hnone] at hp'
      cases hp'
    cases hout : (scan s.buffered s.reader false).outcome with
    | error e =>
      rw [read_of_broken hp hout]
      exact ⟨hidle, fun b hb => (by cases hb)⟩
    | overflow =>
      rw [read_of_overflow hp hout]
      exact ⟨hidle, fun b hb => (by cases hb)⟩
    | ok h =>
      rw [read_of_found hp hout]
      exact readPayload_measured (fits_of_scan _ _ _ hout) (Nat.zero_le _)

end Read

/-- The source after `n` reads. -/
def after (s : StreamSource) : Nat → StreamSource
  | 0 => s
  | n + 1 => (s.after n).read.2

theorem after_promised {s : StreamSource} (hs : s.Promised) (n : Nat) : (s.after n).Promised := by
  induction n with
  | zero => exact hs
  | succ n ih => exact (read_measured ih).1

end StreamSource

/-- **What is accepted.** For all bytes and every stream:

* bytes are accepted exactly if there are at least 64 of them, they begin with the magic, the header
  size is 64, and the payload is at most 64 MiB and the exact size of the shape;
* `decode` aborts exactly if there are 64 bytes, the magic and the header size, and the exact size
  of the shape is `2 ^ 64` or more; in every other case bytes that are not accepted are refused;
* every block that is read, after any number of reads, holds exactly the samples of its shape. -/
theorem header_checks (bytes : List UInt8) (reader : Reader) (channels : UInt32) (rate : Double)
    (n : Nat) :
    ((∃ h, Header.decode bytes = .ok h) ↔
      headerLength ≤ bytes.length ∧ bytes.take 4 = magicBytes ∧
        wordAt bytes 4 4 = headerLength ∧
        wordAt bytes 32 4 = 2 * wordAt bytes 24 4 * wordAt bytes 28 4 ∧
        wordAt bytes 32 4 ≤ maxPayload) ∧
    (Header.decode bytes = .overflow ↔
      headerLength ≤ bytes.length ∧ bytes.take 4 = magicBytes ∧
        wordAt bytes 4 4 = headerLength ∧
        2 ^ 64 ≤ 2 * wordAt bytes 24 4 * wordAt bytes 28 4) ∧
    (∀ b : Buffer, ((StreamSource.new reader channels rate).after n).read.1 = .ok b →
      b.samples.length = b.channels.toNat * b.samplesPerChannel.toNat) := by
  refine ⟨?_, ?_, ?_⟩
  · rw [Header.decode_isOk_iff]
    constructor
    · rintro ⟨⟨hlen, hmagic, hsize⟩, hpayload, hshort⟩
      exact ⟨hlen, hmagic, hsize, hpayload, hshort⟩
    · rintro ⟨hlen, hmagic, hsize, hpayload, hshort⟩
      exact ⟨⟨hlen, hmagic, hsize⟩, hpayload, hshort⟩
  · rw [Header.decode_overflow_iff]
    constructor
    · rintro ⟨⟨hlen, hmagic, hsize⟩, hshape⟩
      exact ⟨hlen, hmagic, hsize, hshape⟩
    · rintro ⟨hlen, hmagic, hsize, hshape⟩
      exact ⟨⟨hlen, hmagic, hsize⟩, hshape⟩
  · intro b hread
    have hnew : (StreamSource.new reader channels rate).Promised := fun h got hp => by cases hp
    exact (StreamSource.read_measured (StreamSource.after_promised hnew n)).2 b hread

/-- One channel with two samples: the header is accepted, and the block has two samples. -/
theorem header_checks_pair :
    let f : Frame := { channels := 1, samplesPerChannel := 2, storage := .owned [-2, 300], fits := rfl }
    (∃ h, Header.decode (encodeFrame f 0) = .ok h) ∧ Header.decode (encodeFrame f 0) ≠ .overflow ∧
    ∃ b, ((StreamSource.new [.data (encodeFrame f 0)] 1 .zero).after 0).read.1 = .ok b ∧
      b.samples.length = 1 * 2 := by
  intro f
  obtain ⟨haccepts, haborts, hmeasures⟩ :=
    header_checks (encodeFrame f 0) [.data (encodeFrame f 0)] 1 .zero 0
  have hok := haccepts.mpr ⟨by decide, by decide, by decide, by decide, by decide⟩
  refine ⟨hok, ?_, ?_⟩
  · intro hover
    obtain ⟨-, -, -, hshape⟩ := haborts.mp hover
    exact absurd hshape (by decide)
  · have hdecode : Header.decode (encodeFrame f 0 ++ []) = .ok (Header.ofFrame f 0) :=
      decode_encodeFrame (by decide) 0 []
    rw [List.append_nil] at hdecode
    obtain ⟨s', hread, -⟩ := StreamSource.read_of_located
      (s := .new [.data (encodeFrame f 0)] 1 .zero) rfl rfl (.whole _) (locate_of_ok hdecode)
      (by decide)
    exact ⟨_, congrArg Prod.fst hread, hmeasures _ (congrArg Prod.fst hread)⟩

/-- The size of this shape is `2 ^ 64 + 4`. -/
def wrapping : Header where
  sequence := 0
  timestamp := 0
  channels := 2147549185
  block := 4294836226
  payload := 4
  rate := .zero
  firstIndex := 0
  drops := 0

/-- **A size that overflows.** The header announces four bytes, which are not the size of its shape
of more than `2 ^ 63` samples. It is not refused: `decode` aborts, and so does a read of the
stream. -/
theorem header_overflows :
    ¬ Header.Valid wrapping.bytes ∧ Header.decode wrapping.bytes = .overflow ∧
      (StreamSource.new [.data wrapping.bytes] 1 .zero).read.1 = .overflow := by
  have hshape : 2 * wordAt wrapping.bytes 24 4 * wordAt wrapping.bytes 28 4 = 2 ^ 64 + 4 := by
    decide
  have hover : Header.decode wrapping.bytes = .overflow := by
    rw [Header.decode_overflow_iff]
    exact ⟨⟨by decide, by decide, by decide⟩, by rw [Header.shapeBytes, hshape]; decide⟩
  refine ⟨?_, hover, ?_⟩
  · rw [← Header.decode_isOk_iff, hover]
    rintro ⟨h, hok⟩
    cases hok
  · obtain ⟨s', hread⟩ := StreamSource.read_of_overflowing
      (s := .new [.data wrapping.bytes] 1 .zero) rfl rfl (.whole _) (locate_of_overflow hover)
    exact congrArg Prod.fst hread

end Wire
end Oscilloscope
