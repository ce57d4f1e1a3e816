import Mathlib.Algebra.Group.Nat.Defs
import Oscilloscope.Wire.Codec

/-!
# Oscilloscope.Proofs.Wire.Words

Words and samples survive the way through their bytes.

* `ofLittleEndian_littleEndian` and `littleEndian_ofLittleEndian`: the bytes of a number and the
  number of some bytes, inverse to each other within a width.
* `wordAt_append_left`, `wordAt_append_right` and `wordAt_littleEndian`: reading a word out of a
  byte string that is put together; `littleEndian_wordAt`: writing it back.
* `decodeSamples_encodeSamples` and `encodeSamples_decodeSamples`: the samples of a payload.
-/

namespace Oscilloscope

namespace Sample

theorem toNat_word (low high : UInt8) :
    (low.toUInt16 ||| (high.toUInt16 <<< 8)).toNat = low.toNat + 256 * high.toNat := by
  have hlow : low.toNat < 2 ^ 8 := low.toNat_lt
  have hhigh : high.toNat < 2 ^ 8 := high.toNat_lt
  rw [UInt16.toNat_or, UInt16.toNat_shiftLeft, UInt8.toNat_toUInt16, UInt8.toNat_toUInt16]
  -- The bytes do not overlap, so that `|||` is a sum.
  have hshift : high.toNat <<< ((8 : UInt16).toNat % 16) % 2 ^ 16 = high.toNat <<< 8 := by
    rw [show (8 : UInt16).toNat % 16 = 8 from rfl, Nat.shiftLeft_eq]
    omega
  rw [hshift, Nat.or_comm, ← Nat.shiftLeft_add_eq_or_of_lt hlow, Nat.shiftLeft_eq]
  omega

theorem ofBytes_bytes (s : Sample) :
    ofBytes s.toUInt16.toUInt8 (s.toUInt16 >>> 8).toUInt8 = s := by
  have hword : s.toUInt16.toUInt8.toUInt16 ||| ((s.toUInt16 >>> 8).toUInt8.toUInt16 <<< 8) =
      s.toUInt16 := by
    apply UInt16.toNat_inj.mp
    rw [toNat_word, UInt16.toNat_toUInt8, UInt16.toNat_toUInt8, UInt16.toNat_shiftRight,
      show (8 : UInt16).toNat % 16 = 8 from rfl, Nat.shiftRight_eq_div_pow]
    have hs : s.toUInt16.toNat < 2 ^ 16 := s.toUInt16.toNat_lt
    omega
  rw [ofBytes, hword]
  rfl

theorem bytes_ofBytes (low high : UInt8) : (ofBytes low high).bytes = [low, high] := by
  have hlow : low.toNat < 2 ^ 8 := low.toNat_lt
  have hhigh : high.toNat < 2 ^ 8 := high.toNat_lt
  have hword : (ofBytes low high).toUInt16 = low.toUInt16 ||| (high.toUInt16 <<< 8) := rfl
  have hfirst : (low.toUInt16 ||| (high.toUInt16 <<< 8)).toUInt8 = low := by
    apply UInt8.toNat_inj.mp
    rw [UInt16.toNat_toUInt8, toNat_word]
    omega
  have hsecond : ((low.toUInt16 ||| (high.toUInt16 <<< 8)) >>> 8).toUInt8 = high := by
    apply UInt8.toNat_inj.mp
    rw [UInt16.toNat_toUInt8, UInt16.toNat_shiftRight, toNat_word,
      show (8 : UInt16).toNat % 16 = 8 from rfl, Nat.shiftRight_eq_div_pow]
    omega
  rw [bytes, hword, hfirst, hsecond]

end Sample

namespace Wire

/-! ## Numbers -/

@[simp] theorem length_littleEndian (width n : Nat) : (littleEndian width n).length = width := by
  induction width generalizing n with
  | zero => rfl
  | succ width ih => simp [littleEndian, ih]

theorem ofLittleEndian_lt (bytes : List UInt8) : ofLittleEndian bytes < 256 ^ bytes.length := by
  induction bytes with
  | nil => exact Nat.one_pos
  | cons b rest ih =>
    have hb : b.toNat < 256 := b.toNat_lt
    rw [ofLittleEndian, List.length_cons, Nat.pow_succ]
    omega

theorem ofLittleEndian_littleEndian {width n : Nat} (h : n < 256 ^ width) :
    ofLittleEndian (littleEndian width n) = n := by
  induction width generalizing n with
  | zero => rw [Nat.pow_zero] at h; simp only [littleEndian, ofLittleEndian]; omega
  | succ width ih =>
    have hdiv : n / 256 < 256 ^ width := by
      rw [Nat.pow_succ] at h
      exact Nat.div_lt_of_lt_mul (by rwa [Nat.mul_comm])
    rw [littleEndian, ofLittleEndian, ih hdiv]
    have hbyte : (UInt8.ofNat n).toNat = n % 256 := by simp
    omega

theorem littleEndian_ofLittleEndian (bytes : List UInt8) :
    littleEndian bytes.length (ofLittleEndian bytes) = bytes := by
  induction bytes with
  | nil => rfl
  | cons b rest ih =>
    have hb : b.toNat < 256 := b.toNat_lt
    rw [List.length_cons, littleEndian, ofLittleEndian]
    have hdiv : (b.toNat + 256 * ofLittleEndian rest) / 256 = ofLittleEndian rest := by omega
    have hbyte : UInt8.ofNat (b.toNat + 256 * ofLittleEndian rest) = b := by
      apply UInt8.toNat_inj.mp
      rw [UInt8.toNat_ofNat']
      omega
    rw [hdiv, hbyte, ih]

/-! ## Words in a byte string -/

theorem wordAt_append_left {bytes : List UInt8} {offset width : Nat}
    (h : offset + width ≤ bytes.length) (rest : List UInt8) :
    wordAt (bytes ++ rest) offset width = wordAt bytes offset width := by
  unfold wordAt
  rw [List.drop_append_of_le_length (by omega),
    List.take_append_of_le_length (by rw [List.length_drop]; omega)]

theorem wordAt_append_right {front : List UInt8} {offset width : Nat} (h : front.length ≤ offset)
    (bytes : List UInt8) :
    wordAt (front ++ bytes) offset width = wordAt bytes (offset - front.length) width := by
  unfold wordAt
  rw [List.drop_append, List.drop_eq_nil_of_le h, List.nil_append]

theorem wordAt_littleEndian {width n : Nat} (h : n < 256 ^ width) (rest : List UInt8) :
    wordAt (littleEndian width n ++ rest) 0 width = n := by
  unfold wordAt
  rw [List.drop_zero, List.take_left' (length_littleEndian width n), ofLittleEndian_littleEndian h]

theorem wordAt_lt (bytes : List UInt8) (offset width : Nat) :
    wordAt bytes offset width < 256 ^ width := by
  have hbound := ofLittleEndian_lt ((bytes.drop offset).take width)
  have hlen : ((bytes.drop offset).take width).length ≤ width := List.length_take_le ..
  exact Nat.lt_of_lt_of_le hbound (Nat.pow_le_pow_right (by omega) hlen)

theorem littleEndian_wordAt {bytes : List UInt8} {offset width : Nat}
    (h : offset + width ≤ bytes.length) :
    littleEndian width (wordAt bytes offset width) = (bytes.drop offset).take width := by
  have hlen : ((bytes.drop offset).take width).length = width := by
    rw [List.length_take, List.length_drop]
    omega
  have hback := littleEndian_ofLittleEndian ((bytes.drop offset).take width)
  rwa [hlen] at hback

theorem take_drop_append (bytes : List UInt8) (offset m n : Nat) :
    (bytes.drop offset).take m ++ (bytes.drop (offset + m)).take n =
      (bytes.drop offset).take (m + n) := by
  rw [List.take_add, List.drop_drop]

/-! ## Payloads -/

theorem decodeSamples_encodeSamples (samples : List Sample) :
    decodeSamples (encodeSamples samples) = samples := by
  induction samples with
  | nil => rfl
  | cons s rest ih =>
    have happ : encodeSamples (s :: rest) =
        s.toUInt16.toUInt8 :: (s.toUInt16 >>> 8).toUInt8 :: encodeSamples rest := rfl
    rw [happ, decodeSamples, ih, Sample.ofBytes_bytes]

@[simp] theorem length_encodeSamples (samples : List Sample) :
    (encodeSamples samples).length = samples.length * 2 := by
  induction samples with
  | nil => rfl
  | cons s rest ih =>
    have happ : encodeSamples (s :: rest) =
        s.toUInt16.toUInt8 :: (s.toUInt16 >>> 8).toUInt8 :: encodeSamples rest := rfl
    simp only [happ, List.length_cons, ih]
    omega

theorem length_decodeSamples (bytes : List UInt8) :
    (decodeSamples bytes).length = bytes.length / 2 := by
  fun_induction decodeSamples bytes with
  | case1 low high rest ih => simp only [List.length_cons, ih]; omega
  | case2 bytes hshort =>
    match bytes with
    | [] => rfl
    | [_] => simp
    | low :: high :: rest => exact absurd rfl (hshort low high rest)

theorem encodeSamples_decodeSamples {bytes : List UInt8} (heven : bytes.length % 2 = 0) :
    encodeSamples (decodeSamples bytes) = bytes := by
  fun_induction decodeSamples bytes with
  | case1 low high rest ih =>
    simp only [List.length_cons] at heven
    have happ : encodeSamples (Sample.ofBytes low high :: decodeSamples rest) =
        (Sample.ofBytes low high).bytes ++ encodeSamples (decodeSamples rest) := rfl
    rw [happ, Sample.bytes_ofBytes, ih (by omega)]
    rfl
  | case2 bytes hshort =>
    match bytes with
    | [] => rfl
    | [_] => cases heven
    | low :: high :: rest => exact absurd rfl (hshort low high rest)

end Wire
end Oscilloscope
