import Oscilloscope.Proofs.Wire.Words
import Oscilloscope.Wire.StreamSource

/-!
# Oscilloscope.Proofs.Wire.Headers

What `Header.decode` looks at, and that it reads what was written.

* `Fits`: the payload of a header has the exact size of its shape and is not too long.
* `decode_append`: bytes behind the first 64 do not matter.
* `decode_ok`, `decode_overflow`: what it takes for bytes to be accepted, and for `decode` to abort.
* `take_of_decode`: what is not refused begins with the magic.
* `decode_bytes`: a header that fits is read back from its bytes.
* `fits_ofFrame`: the header of a frame fits.
-/

namespace Oscilloscope
namespace Wire

namespace Header

variable {bytes : List UInt8} {h : Header}

@[simp] theorem length_bytes (h : Header) : h.bytes.length = headerLength := by
  simp [Header.bytes, headerLength]

/-! ## The size of the payload -/

/-- The payload has the size of its shape, in exact numbers, and it is not too long. -/
def Fits (h : Header) : Prop :=
  h.payload.toNat = 2 * h.channels.toNat * h.block.toNat ∧ h.payload.toNat ≤ maxPayload

theorem payloadSize?_eq_some {channels block : UInt32} {size : UInt64} :
    payloadSize? channels block = some size ↔
      size.toNat = 2 * channels.toNat * block.toNat := by
  rw [payloadSize?, word?_eq_some, Nat.mul_comm, Nat.mul_assoc]

theorem payloadSize?_eq_none {channels block : UInt32} :
    payloadSize? channels block = none ↔
      UInt64.size ≤ 2 * channels.toNat * block.toNat := by
  rw [payloadSize?, word?_eq_none, Nat.mul_comm, Nat.mul_assoc]

theorem payloadFits_iff {payload : UInt32} {size : UInt64} :
    payloadFits payload size = true ↔
      payload.toNat = size.toNat ∧ payload.toNat ≤ maxPayload := by
  rw [payloadFits, Bool.and_eq_true, beq_iff_eq, decide_eq_true_iff, ← UInt64.toNat_inj,
    UInt32.toNat_toUInt64, eq_comm]
  exact and_congr_right fun heq => by rw [heq]

/-- A header fits if the check of its payload succeeds, and then the size has not overflowed. -/
theorem fits_iff : h.Fits ↔
    ∃ size, payloadSize? h.channels h.block = some size ∧ payloadFits h.payload size = true := by
  simp only [payloadSize?_eq_some, payloadFits_iff]
  constructor
  · rintro ⟨heq, hle⟩
    refine ⟨h.payload.toUInt64, ?_, ?_, hle⟩
    · rw [UInt32.toNat_toUInt64, heq]
    · rw [UInt32.toNat_toUInt64]
  · rintro ⟨size, hsize, heq, hle⟩
    exact ⟨heq.trans hsize, hle⟩

theorem fits_ofFrame {f : Frame} (hmax : f.samples.length * 2 ≤ maxPayload) (drops : UInt64) :
    (ofFrame f drops).Fits := by
  have hshape : f.samples.length = f.channels.toNat * f.samplesPerChannel.toNat := f.fits
  have hpayload : (ofFrame f drops).payload.toNat = f.samples.length * 2 := by
    apply UInt32.toNat_ofNat_of_lt'
    unfold maxPayload at hmax
    show _ < 4294967296
    omega
  rw [Fits, hpayload]
  refine ⟨?_, hmax⟩
  rw [hshape, Nat.mul_comm, ← Nat.mul_assoc]
  rfl

/-! ## Reading -/

/-- What it takes for bytes to be accepted. -/
theorem decode_ok (hok : decode bytes = .ok h) :
    headerLength ≤ bytes.length ∧ UInt32.ofNat (wordAt bytes 0 4) = magic ∧
      (UInt32.ofNat (wordAt bytes 4 4)).toNat = headerLength ∧ h.Fits ∧
      h = { sequence := UInt64.ofNat (wordAt bytes 8 8)
            timestamp := UInt64.ofNat (wordAt bytes 16 8)
            channels := UInt32.ofNat (wordAt bytes 24 4)
            block := UInt32.ofNat (wordAt bytes 28 4)
            payload := UInt32.ofNat (wordAt bytes 32 4)
            rate := ⟨UInt64.ofNat (wordAt bytes 40 8)⟩
            firstIndex := UInt64.ofNat (wordAt bytes 48 8)
            drops := UInt64.ofNat (wordAt bytes 56 8) } := by
  simp only [decode] at hok
  split at hok
  · cases hok
  · rename_i hlen
    split at hok
    · cases hok
    · rename_i hmagic
      split at hok
      · cases hok
      · rename_i hsize
        split at hok
        · cases hok
        · rename_i size hshape
          split at hok
          · rename_i hfits
            cases hok
            exact ⟨by omega, Decidable.of_not_not hmagic, Decidable.of_not_not hsize,
              fits_iff.mpr ⟨size, hshape, hfits⟩, rfl⟩
          · cases hok

/-- What it takes for `decode` to abort. -/
theorem decode_overflow (hover : decode bytes = .overflow) :
    headerLength ≤ bytes.length ∧ UInt32.ofNat (wordAt bytes 0 4) = magic ∧
      (UInt32.ofNat (wordAt bytes 4 4)).toNat = headerLength ∧
      payloadSize? (UInt32.ofNat (wordAt bytes 24 4)) (UInt32.ofNat (wordAt bytes 28 4)) =
        none := by
  simp only [decode] at hover
  split at hover
  · cases hover
  · rename_i hlen
    split at hover
    · cases hover
    · rename_i hmagic
      split at hover
      · cases hover
      · rename_i hsize
        split at hover
        · rename_i hshape
          exact ⟨by omega, Decidable.of_not_not hmagic, Decidable.of_not_not hsize, hshape⟩
        · split at hover
          · cases hover
          · cases hover

/-- Bytes that are too few for a header are refused. -/
theorem decode_of_length_lt (hlen : bytes.length < headerLength) :
    ∃ e, decode bytes = .error e := ⟨_, if_pos hlen⟩

theorem decode_append (hlen : headerLength ≤ bytes.length) (rest : List UInt8) :
    decode (bytes ++ rest) = decode bytes := by
  -- Every word that is read lies within the first 64 bytes.
  have hword : ∀ offset width, offset + width ≤ 64 →
      wordAt (bytes ++ rest) offset width = wordAt bytes offset width := by
    intro offset width hle
    exact wordAt_append_left (Nat.le_trans hle hlen) rest
  have hlen' : ¬ (bytes ++ rest).length < headerLength := by
    rw [List.length_append]
    omega
  simp only [decode, if_neg hlen', if_neg (Nat.not_lt.mpr hlen)]
  rw [hword 0 4 (by omega), hword 4 4 (by omega), hword 8 8 (by omega), hword 16 8 (by omega),
    hword 24 4 (by omega), hword 28 4 (by omega), hword 32 4 (by omega), hword 40 8 (by omega),
    hword 48 8 (by omega), hword 56 8 (by omega)]

theorem decode_take (bytes : List UInt8) : decode (bytes.take headerLength) = decode bytes := by
  by_cases hlen : headerLength ≤ bytes.length
  · have htake : headerLength ≤ (bytes.take headerLength).length := by
      rw [List.length_take]
      omega
    rw [← decode_append htake (bytes.drop headerLength), List.take_append_drop]
  · rw [List.take_of_length_le (by omega)]

theorem take_of_magic (hlen : headerLength ≤ bytes.length)
    (hmagic : UInt32.ofNat (wordAt bytes 0 4) = magic) : bytes.take 4 = magicBytes := by
  have hlen4 : (bytes.take 4).length = 4 := by
    rw [List.length_take]
    unfold headerLength at hlen
    omega
  have hword : wordAt bytes 0 4 = ofLittleEndian (bytes.take 4) := rfl
  have hlt : ofLittleEndian (bytes.take 4) < 2 ^ 32 := by
    have hbound := ofLittleEndian_lt (bytes.take 4)
    rw [hlen4] at hbound
    exact hbound
  have hnat : ofLittleEndian (bytes.take 4) = magic.toNat := by
    rw [← hmagic, hword, UInt32.toNat_ofNat_of_lt' hlt]
  calc bytes.take 4 = littleEndian (bytes.take 4).length (ofLittleEndian (bytes.take 4)) :=
        (littleEndian_ofLittleEndian _).symm
    _ = magicBytes := by rw [hlen4, hnat]; rfl

/-- What is not refused has the length of a header and begins with the magic. -/
theorem take_of_decode (hnot : ∀ e, decode bytes ≠ .error e) :
    headerLength ≤ bytes.length ∧ bytes.take 4 = magicBytes := by
  cases hdecode : decode bytes with
  | error e => exact absurd hdecode (hnot e)
  | ok h =>
    obtain ⟨hlen, hmagic, -⟩ := decode_ok hdecode
    exact ⟨hlen, take_of_magic hlen hmagic⟩
  | overflow =>
    obtain ⟨hlen, hmagic, -⟩ := decode_overflow hdecode
    exact ⟨hlen, take_of_magic hlen hmagic⟩

/-- The words of a header that is written. -/
theorem words_bytes (h : Header) (rest : List UInt8) :
    wordAt (h.bytes ++ rest) 0 4 = magic.toNat ∧ wordAt (h.bytes ++ rest) 4 4 = headerLength ∧
    wordAt (h.bytes ++ rest) 8 8 = h.sequence.toNat ∧
    wordAt (h.bytes ++ rest) 16 8 = h.timestamp.toNat ∧
    wordAt (h.bytes ++ rest) 24 4 = h.channels.toNat ∧
    wordAt (h.bytes ++ rest) 28 4 = h.block.toNat ∧
    wordAt (h.bytes ++ rest) 32 4 = h.payload.toNat ∧
    wordAt (h.bytes ++ rest) 40 8 = h.rate.bits.toNat ∧
    wordAt (h.bytes ++ rest) 48 8 = h.firstIndex.toNat ∧
    wordAt (h.bytes ++ rest) 56 8 = h.drops.toNat := by
  have h32 : ∀ w : UInt32, w.toNat < 256 ^ 4 := fun w => w.toNat_lt
  have h64 : ∀ w : UInt64, w.toNat < 256 ^ 8 := fun w => w.toNat_lt
  have hlen : headerLength < 256 ^ 4 := by decide
  simp only [Header.bytes, List.append_assoc]
  refine ⟨wordAt_littleEndian (h32 magic) _, ?_, ?_, ?_, ?_, ?_, ?_, ?_, ?_, ?_⟩ <;>
    simp (disch := simp) only [wordAt_append_right, length_littleEndian, Nat.reduceSub]
  · exact wordAt_littleEndian hlen _
  · exact wordAt_littleEndian (h64 h.sequence) _
  · exact wordAt_littleEndian (h64 h.timestamp) _
  · exact wordAt_littleEndian (h32 h.channels) _
  · exact wordAt_littleEndian (h32 h.block) _
  · exact wordAt_littleEndian (h32 h.payload) _
  · exact wordAt_littleEndian (h64 h.rate.bits) _
  · exact wordAt_littleEndian (h64 h.firstIndex) _
  · exact wordAt_littleEndian (h64 h.drops) _

theorem decode_bytes (hfits : h.Fits) (rest : List UInt8) : decode (h.bytes ++ rest) = .ok h := by
  obtain ⟨size, hshape, hpayload⟩ := fits_iff.mp hfits
  obtain ⟨h0, h4, h8, h16, h24, h28, h32, h40, h48, h56⟩ := words_bytes h rest
  have hlen : ¬ (h.bytes ++ rest).length < headerLength := by
    rw [List.length_append, length_bytes]
    omega
  have hsize : (UInt32.ofNat headerLength).toNat = headerLength := rfl
  simp only [decode, if_neg hlen, h0, h4, h8, h16, h24, h28, h32, h40, h48, h56, UInt32.ofNat_toNat,
    UInt64.ofNat_toNat, hsize, ne_eq, not_true_eq_false, if_false, hshape, hpayload,
    if_true]

end Header

end Wire
end Oscilloscope
