import Mathlib
import Oscilloscope.Decimation.Triangle
import Oscilloscope.Proofs.Double.Arithmetic

/-!
# Oscilloscope.Proofs.Decimation.InnerBuckets

Where the buckets of the triangle method lie.

The borders between the inner buckets are whole parts of rounded products of a rounded quotient.
They still leave no gap: a bucket begins where the one before it ends. The first begins behind the
first sample; the last ends at the last sample or one place earlier.

* `cut_zero`, `le_cut_last`: both ends. `cut_last_of_dvd`: buckets of equal length leave nothing
  out.
* `Considers`: the places from which a bucket chooses.
* `exists_considers`: every place up to the last border is considered by a bucket.
-/

namespace Oscilloscope
namespace Decimation

theorem IndexRange.mem_indices {r : IndexRange} {i : ℕ} :
    i ∈ r.indices ↔ r.start ≤ i ∧ i < r.stop := by
  rw [IndexRange.indices, IndexRange.length, List.mem_range'_1]
  omega

/-- How many of the `m` samples between the first and the last are before bucket `bucket`. -/
def cut (m inner bucket : ℕ) : ℕ :=
  wholePart (Float.ofNat bucket * (Float.ofNat m / Float.ofNat inner))

theorem innerRange_eq (n inner bucket : ℕ) :
    innerRange n inner bucket = ⟨1 + cut (n - 2) inner bucket,
      min (1 + cut (n - 2) inner (bucket + 1)) (n - 1)⟩ :=
  rfl

theorem mem_innerRange {n inner bucket i : ℕ} :
    i ∈ (innerRange n inner bucket).indices ↔
      1 + cut (n - 2) inner bucket ≤ i ∧ i < 1 + cut (n - 2) inner (bucket + 1) ∧ i < n - 1 :=
  IndexRange.mem_indices.trans (and_congr_right' lt_min_iff)

/-! ## Borders -/

section Borders

variable {m inner bucket : ℕ}

/-- The buckets are at least one sample wide, and together they miss the `m` samples by less than
one. -/
theorem width_spec (hpos : 0 < inner) (hle : inner ≤ m) (hm : m < 2 ^ 52) :
    ∃ w, Denotes (Float.ofNat m / Float.ofNat inner) w ∧ Rounds (m / inner) w ∧ 1 ≤ w ∧
      |inner * w - m| ≤ 1 := by
  have hinner : (1 : ℚ) ≤ inner := by exact_mod_cast hpos
  have hcount : (m : ℚ) < 2 ^ 52 := by exact_mod_cast hm
  have hone : (1 : ℚ) ≤ m / inner := (one_le_div (by linarith)).mpr (by exact_mod_cast hle)
  have hmax : (m / inner : ℚ) ≤ m := div_le_self (by positivity) hinner
  have habs : |(m / inner : ℚ)| = m / inner := abs_of_nonneg (by positivity)
  obtain ⟨w, hw, hrounds⟩ := (denotes_ofNat (n := m) (by omega)).div
    (denotes_ofNat (n := inner) (by omega)) (by linarith)
    (.of_le (by rw [habs]; linarith) (by rw [habs]; linarith))
  refine ⟨w, hw, hrounds, ?_, ?_⟩
  · exact_mod_cast hrounds.above 1 (by norm_num) (by exact_mod_cast hone)
  · calc |inner * w - m| = inner * |w - m / inner| := by
          rw [← abs_of_pos (by linarith : (0 : ℚ) < inner), ← abs_mul, mul_sub,
            abs_of_pos (by linarith : (0 : ℚ) < inner), mul_div_cancel₀ _ (by linarith)]
      _ ≤ inner * (m / inner / 2 ^ 53) := by gcongr; exact hrounds.near.trans (by rw [habs])
      _ = m / 2 ^ 53 := by field_simp
      _ ≤ 1 := by rw [div_le_one (by norm_num)]; linarith

theorem cut_spec (hpos : 0 < inner) (hle : inner ≤ m) (hm : m < 2 ^ 52) (hb : bucket ≤ inner) :
    ∃ w c, Rounds (m / inner) w ∧ |inner * w - m| ≤ 1 ∧ Rounds (bucket * w) c ∧
      cut m inner bucket = ⌊c⌋₊ ∧ 0 ≤ c ∧ c ≤ m + 1 := by
  obtain ⟨w, hw, hrounds, hone, hmiss⟩ := width_spec hpos hle hm
  have hcount : (m : ℚ) < 2 ^ 52 := by exact_mod_cast hm
  have hproduct : bucket * w ≤ (m + 1 : ℕ) := by
    have hscaled : bucket * w ≤ inner * w := by gcongr
    push_cast
    linarith [(abs_le.mp hmiss).2]
  have hrange : InRange (bucket * w) := by
    rcases Nat.eq_zero_or_pos bucket with rfl | hbucket
    · exact fun h => absurd (by rw [Nat.cast_zero, zero_mul]) h
    · have hleast : (1 : ℚ) ≤ bucket := by exact_mod_cast hbucket
      have habs : |bucket * w| = bucket * w := abs_of_nonneg (by positivity)
      push_cast at hproduct
      exact .of_le (by rw [habs]; nlinarith) (by rw [habs]; linarith)
  obtain ⟨c, hc, hcut⟩ := (denotes_ofNat (n := bucket) (by omega)).mul hw hrange
  have hnonneg : 0 ≤ c := by
    exact_mod_cast hcut.above 0 (by norm_num) (by rw [Int.cast_zero]; positivity)
  have hmax : c ≤ m + 1 := by
    exact_mod_cast hcut.below (m + 1 : ℕ) (by rw [abs_of_nonneg (by omega)]; omega)
      (by exact_mod_cast hproduct)
  exact ⟨w, c, hrounds, hmiss, hcut, hc.toNat_toUInt64 hnonneg (by linarith), hnonneg, hmax⟩

theorem cut_le (hpos : 0 < inner) (hle : inner ≤ m) (hm : m < 2 ^ 52) (hb : bucket ≤ inner) :
    cut m inner bucket ≤ m + 1 := by
  obtain ⟨w, c, -, -, -, hcut, -, hmax⟩ := cut_spec hpos hle hm hb
  rw [hcut]
  exact Nat.floor_le_of_le (by exact_mod_cast hmax)

theorem cut_zero (hpos : 0 < inner) (hle : inner ≤ m) (hm : m < 2 ^ 52) :
    cut m inner 0 = 0 := by
  obtain ⟨w, c, -, -, hrounds, hcut, -, -⟩ := cut_spec hpos hle hm (Nat.zero_le inner)
  rw [Nat.cast_zero, zero_mul] at hrounds
  rw [hcut, hrounds.eq_zero, Nat.floor_zero]

theorem le_cut_last (hpos : 0 < inner) (hle : inner ≤ m) (hm : m < 2 ^ 52) :
    m ≤ cut m inner inner + 1 := by
  obtain ⟨w, c, -, hmiss, hrounds, hcut, -, -⟩ := cut_spec hpos hle hm (Nat.le_refl inner)
  have hbelow : ((m - 1 : ℤ) : ℚ) ≤ inner * w := by
    push_cast
    linarith [(abs_le.mp hmiss).1]
  have hnat : ((m - 1 : ℕ) : ℚ) ≤ c := by
    have hint := hrounds.above (m - 1) (abs_lt.mpr (by omega)) hbelow
    rw [Nat.cast_sub (by omega)]
    exact_mod_cast hint
  rw [hcut]
  have hfloor := Nat.le_floor hnat
  omega

theorem cut_last_of_dvd (hpos : 0 < inner) (hle : inner ≤ m) (hm : m < 2 ^ 52) (hdvd : inner ∣ m) :
    cut m inner inner = m := by
  obtain ⟨q, rfl⟩ := hdvd
  obtain ⟨w, c, hwidth, -, hrounds, hcut, -, -⟩ := cut_spec hpos hle hm (Nat.le_refl inner)
  have hinner : (inner : ℚ) ≠ 0 := by exact_mod_cast hpos.ne'
  have hq : q ≤ inner * q := Nat.le_mul_of_pos_left q hpos
  rw [Nat.cast_mul, mul_div_cancel_left₀ _ hinner] at hwidth
  have hw : w = q := hwidth.eq_intCast (k := q) (by rw [abs_of_nonneg (by omega)]; omega)
  rw [hw, ← Nat.cast_mul] at hrounds
  have hc : c = (inner * q : ℕ) := hrounds.eq_intCast (k := (inner * q : ℕ))
    (by rw [abs_of_nonneg (by omega)]; omega)
  rw [hcut, hc, Nat.floor_natCast]

end Borders

/-! ## Choices -/

section Choices

variable {n inner bucket p : ℕ}

/-- Bucket `bucket` can choose the sample at `p`: the place is one of its indices, or the bucket
begins there. An empty bucket chooses where it begins. -/
def Considers (n inner bucket p : ℕ) : Prop :=
  p = (innerRange n inner bucket).start ∨ p ∈ (innerRange n inner bucket).indices

theorem Considers.bounds (h : Considers n inner bucket p) : 1 + cut (n - 2) inner bucket ≤ p ∧
    (p = 1 + cut (n - 2) inner bucket ∨ p ≤ cut (n - 2) inner (bucket + 1)) := by
  rcases h with hstart | hmem
  · rw [innerRange_eq] at hstart
    exact ⟨hstart.ge, .inl hstart⟩
  · have hbounds := mem_innerRange.mp hmem
    exact ⟨hbounds.1, .inr (by omega)⟩

theorem exists_considers (hpos : 0 < inner) (hle : inner ≤ n - 2) (hn : n ≤ 2 ^ 52) (hp : 1 ≤ p)
    (hlast : p ≤ n - 2) (hcut : p ≤ cut (n - 2) inner inner) :
    ∃ bucket < inner, Considers n inner bucket p := by
  have hzero : cut (n - 2) inner 0 = 0 := cut_zero hpos hle (by omega)
  -- The first border that is not below `p` ends the bucket of `p`.
  have hex : ∃ b, p ≤ cut (n - 2) inner b := ⟨inner, hcut⟩
  obtain ⟨b, hb⟩ : ∃ b, Nat.find hex = b + 1 := by
    refine Nat.exists_eq_add_one.mpr ((Nat.find_pos hex).mpr ?_)
    omega
  have hreached := Nat.find_spec hex
  have hbefore := Nat.find_min hex (m := b) (by omega)
  have hbound : Nat.find hex ≤ inner := Nat.find_min' hex hcut
  rw [hb] at hreached hbound
  exact ⟨b, by omega, .inr (mem_innerRange.mpr ⟨by omega, by omega, by omega⟩)⟩

end Choices

end Decimation
end Oscilloscope
