import Oscilloscope.Proofs.Frame.Channels
import Oscilloscope.Proofs.Wire.Headers

/-!
# Oscilloscope.Proofs.Wire.Codec

`decodeFrame` and `encodeFrame` are inverse to each other.

* `decodeFrame_encodeFrame`: a frame is read back from its bytes, whatever follows them.
* `decodeFrame_ok`: what it takes for bytes to be accepted as a frame.
* `codec_round_trip`: both directions. The reserved word of a header is not looked at, so that
  writing an accepted frame again gives its bytes with that word cleared.
-/

namespace Oscilloscope

namespace Wire

/-! ## Writing and reading -/

section Encode

variable {f : Frame} (hmax : f.samples.length * 2 ≤ maxPayload) (drops : UInt64)
include hmax

theorem decode_encodeFrame (rest : List UInt8) :
    Header.decode (encodeFrame f drops ++ rest) = .ok (Header.ofFrame f drops) := by
  rw [encodeFrame, List.append_assoc]
  exact Header.decode_bytes (Header.fits_ofFrame hmax drops) _

omit hmax in
theorem drop_encodeFrame (rest : List UInt8) :
    (encodeFrame f drops ++ rest).drop headerLength = encodeSamples f.samples ++ rest := by
  rw [encodeFrame, List.append_assoc, List.drop_left' (Header.length_bytes _)]

theorem payload_ofFrame :
    (Header.ofFrame f drops).payload.toNat = (encodeSamples f.samples).length := by
  rw [length_encodeSamples]
  apply UInt32.toNat_ofNat_of_lt'
  unfold maxPayload at hmax
  show _ < 4294967296
  omega

/-- The frame that comes back owns its samples, and its flags are not sent. -/
theorem decodeFrame_encodeFrame (rest : List UInt8) :
    decodeFrame (encodeFrame f drops ++ rest) =
      .ok (Header.ofFrame f drops, { f.materialize with flags := 0, fits := f.fits }) := by
  have hpayload := payload_ofFrame hmax drops
  have hdrop := drop_encodeFrame (f := f) drops rest
  have hlen : ¬ (encodeFrame f drops ++ rest).length <
      headerLength + (Header.ofFrame f drops).payload.toNat := by
    rw [hpayload, encodeFrame, List.length_append, List.length_append, Header.length_bytes]
    omega
  have hsamples : decodeSamples (((encodeFrame f drops ++ rest).drop headerLength).take
      (Header.ofFrame f drops).payload.toNat) = f.samples := by
    rw [hdrop, List.take_left' hpayload.symm, decodeSamples_encodeSamples]
  have hframe : Frame.ofSamples? f.channels f.samplesPerChannel f.samples = .ok _ :=
    Frame.ofSamples?_of_fits f.fits
  simp only [decodeFrame, decode_encodeFrame hmax, if_neg hlen, hsamples]
  simp only [Header.ofFrame, hframe]
  rfl

end Encode

/-! ## Reading and writing -/

/-- Some bytes with the reserved word of the header set to zero. -/
def clearReserved (bytes : List UInt8) : List UInt8 :=
  bytes.take 36 ++ (List.replicate 4 0 ++ bytes.drop 40)

theorem clearReserved_append {front : List UInt8} (h : headerLength ≤ front.length)
    (rest : List UInt8) : clearReserved (front ++ rest) = clearReserved front ++ rest := by
  unfold headerLength at h
  unfold clearReserved
  rw [List.take_append_of_le_length (by omega), List.drop_append_of_le_length (by omega)]
  simp only [List.append_assoc]

section Decode

variable {bytes : List UInt8} {h : Header} {g : Frame}

/-- Written again, an accepted header is what was read, apart from the reserved word. -/
theorem bytes_of_decode (hok : Header.decode bytes = .ok h) :
    h.bytes = clearReserved (bytes.take headerLength) := by
  obtain ⟨hlen, hmagic, hsize, -, hh⟩ := Header.decode_ok hok
  unfold headerLength at hlen
  -- Each word that was read is the slice of the bytes at its offset.
  have hword : ∀ offset width, offset + width ≤ 64 →
      littleEndian width (wordAt bytes offset width) = (bytes.drop offset).take width := by
    intro offset width hle
    exact littleEndian_wordAt (Nat.le_trans hle hlen)
  have h32 : ∀ offset, (UInt32.ofNat (wordAt bytes offset 4)).toNat = wordAt bytes offset 4 := by
    intro offset
    exact UInt32.toNat_ofNat_of_lt' (wordAt_lt bytes offset 4)
  have h64 : ∀ offset, (UInt64.ofNat (wordAt bytes offset 8)).toNat = wordAt bytes offset 8 := by
    intro offset
    exact UInt64.toNat_ofNat_of_lt' (wordAt_lt bytes offset 8)
  have hmagic' : littleEndian 4 magic.toNat = (bytes.drop 0).take 4 := by
    rw [← hmagic, h32, hword 0 4 (by omega)]
  have hsize' : littleEndian 4 headerLength = (bytes.drop 4).take 4 := by
    rw [← hsize, h32, hword 4 4 (by omega)]
  have hcleared : clearReserved (bytes.take headerLength) =
      (bytes.drop 0).take 36 ++ (littleEndian 4 0 ++ (bytes.drop 40).take 24) := by
    rw [clearReserved, List.take_take, List.drop_take]
    rfl
  rw [hcleared, hh, Header.bytes, hmagic', hsize']
  simp only [h32, h64]
  rw [hword 8 8 (by omega), hword 16 8 (by omega), hword 24 4 (by omega), hword 28 4 (by omega),
    hword 32 4 (by omega), hword 40 8 (by omega), hword 48 8 (by omega), hword 56 8 (by omega)]
  rw [take_drop_append bytes 0 4 4, take_drop_append bytes 0 8 8, take_drop_append bytes 0 16 8,
    take_drop_append bytes 0 24 4, take_drop_append bytes 0 28 4, take_drop_append bytes 0 32 4]
  simp only [List.append_assoc]
  rw [take_drop_append bytes 48 8 8, take_drop_append bytes 40 8 16]

theorem payload_even (hfits : h.Fits) : h.payload.toNat % 2 = 0 := by
  rw [hfits.1, Nat.mul_assoc, Nat.mul_mod_right]

/-- What it takes for bytes to be accepted as a frame. -/
theorem decodeFrame_ok (hok : decodeFrame bytes = .ok (h, g)) :
    Header.decode bytes = .ok h ∧ headerLength + h.payload.toNat ≤ bytes.length ∧
      encodeSamples g.samples = (bytes.drop headerLength).take h.payload.toNat ∧
      Header.ofFrame g h.drops = h := by
  rw [decodeFrame] at hok
  split at hok
  · cases hok
  · cases hok
  · rename_i h' hheader
    dsimp only at hok
    split at hok
    · cases hok
    · rename_i hlen
      have heven := payload_even (Header.decode_ok hheader).2.2.2.1
      have hpayload : ((bytes.drop headerLength).take h'.payload.toNat).length =
          h'.payload.toNat := by
        rw [List.length_take, List.length_drop]
        omega
      split at hok
      · cases hok
      · rename_i f hframe
        obtain ⟨fits, rfl⟩ := Frame.fits_of_ofSamples? hframe
        cases hok
        refine ⟨hheader, by omega, encodeSamples_decodeSamples (by rw [hpayload, heven]), ?_⟩
        -- The payload is even, so that as many samples were read as it holds.
        have hcount : UInt32.ofNat ((decodeSamples
            ((bytes.drop headerLength).take h.payload.toNat)).length * 2) = h.payload := by
          rw [length_decodeSamples, hpayload, Nat.div_mul_cancel (Nat.dvd_of_mod_eq_zero heven),
            UInt32.ofNat_toNat]
        simp only [Header.ofFrame, Frame.samples, Storage.samples, hcount]

end Decode

/-- **Round trip.** Every frame that is not too long is read back from its bytes, whatever follows
them, with its metadata, its samples and the count of drops that was sent with it. And bytes that
are accepted are, apart from the reserved word, the bytes of the frame that is read. -/
theorem codec_round_trip :
    (∀ (f : Frame) (drops : UInt64) (rest : List UInt8), 2 * f.samples.length ≤ maxPayload →
      ∃ h g, decodeFrame (encodeFrame f drops ++ rest) = .ok (h, g) ∧ h.drops = drops ∧
        g.sequence = f.sequence ∧ g.timestamp = f.timestamp ∧ g.channels = f.channels ∧
        g.samplesPerChannel = f.samplesPerChannel ∧ g.rate.bits = f.rate.bits ∧
        g.firstIndex = f.firstIndex ∧ g.samples = f.samples) ∧
    (∀ (bytes : List UInt8) (h : Header) (g : Frame), decodeFrame bytes = .ok (h, g) →
      encodeFrame g h.drops = clearReserved (bytes.take (headerLength + h.payload.toNat))) := by
  refine ⟨?_, ?_⟩
  · intro f drops rest hmax
    exact ⟨_, _, decodeFrame_encodeFrame (by omega) drops rest, rfl, rfl, rfl, rfl, rfl, rfl, rfl,
      rfl⟩
  · intro bytes h g hok
    obtain ⟨hheader, hlen, hsamples, hagain⟩ := decodeFrame_ok hok
    have hfront : headerLength ≤ (bytes.take headerLength).length := by
      rw [List.length_take]
      omega
    rw [encodeFrame, hagain, hsamples, bytes_of_decode hheader, List.take_add,
      clearReserved_append hfront]

/-- One channel with the samples -2 and 300, read back with two bytes behind it, also when its
reserved word is not zero. -/
theorem codec_round_trip_pair :
    let f : Frame := { channels := 1, samplesPerChannel := 2, sequence := 7, rate := .nan
                       storage := .owned [-2, 300], fits := rfl }
    let sent := (encodeFrame f 5).take 36 ++ ([1, 2, 3, 4] ++ (encodeFrame f 5).drop 40) ++ [9, 9]
    (∃ h g, decodeFrame (encodeFrame f 5 ++ [9, 9]) = .ok (h, g) ∧ h.drops = 5 ∧
      g.sequence = 7 ∧ g.samples = [-2, 300]) ∧
    ∃ h g, decodeFrame sent = .ok (h, g) ∧
      encodeFrame g h.drops = clearReserved (sent.take (headerLength + h.payload.toNat)) := by
  intro f sent
  refine ⟨?_, ?_⟩
  · obtain ⟨h, g, hok, hdrops, hseq, -, -, -, -, -, hsamples⟩ :=
      codec_round_trip.1 f 5 [9, 9] (by decide)
    exact ⟨h, g, hok, hdrops, hseq, hsamples⟩
  · have hok : (decodeFrame sent).isOk = true := by decide +kernel
    cases hsent : decodeFrame sent with
    | error e =>
      rw [hsent] at hok
      cases hok
    | overflow =>
      rw [hsent] at hok
      cases hok
    | ok p => exact ⟨p.1, p.2, rfl, codec_round_trip.2 sent p.1 p.2 hsent⟩

end Wire
end Oscilloscope
