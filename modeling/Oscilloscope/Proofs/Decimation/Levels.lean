import Mathlib.Data.List.Basic
import Oscilloscope.Proofs.Decimation.Enclosing
import Oscilloscope.Stage.Display

/-!
# Oscilloscope.Proofs.Decimation.Levels

Bucket extremes of bucket extremes.

A bucket is split exactly by the buckets of a bucketing that is `k` times as fine, whatever the
number of samples. The fine bucketing leaves two samples for each of its buckets, so that the same
coarse bucket over what is left holds the extremes of its fine buckets, and no others.

* `bucketOf_split`: a bucket as the fine buckets in it.
* `bucketOf_minMax`: the same bucket over the output of the fine bucketing.
* `minMax_minMax`: so the second reduction gives what it would have given without the first.
-/

namespace Oscilloscope
namespace Decimation

variable {samples : List Sample} {k buckets bucket : Nat}

/-! ## Rows of buckets -/

theorem flatMap_bucketOf_range' (hn : samples.length < indexLimit) {first count : Nat}
    (hle : first + count ≤ buckets) :
    (List.range' first count).flatMap (bucketOf samples buckets) =
      (samples.drop (first * samples.length / buckets)).take
        ((first + count) * samples.length / buckets - first * samples.length / buckets) := by
  have hbefore := flatMap_bucketOf hn (show first ≤ buckets by omega)
  have hall := flatMap_bucketOf hn hle
  have hsplit : List.range (first + count) = List.range first ++ List.range' first count := by
    rw [List.range_eq_range', List.range_eq_range', ← List.range'_append_1, Nat.zero_add]
  have hstart : first * samples.length / buckets ≤ samples.length := by
    apply Nat.div_le_of_le_mul
    exact Nat.mul_le_mul_right _ (by omega)
  have hlength : (samples.take (first * samples.length / buckets)).length =
      first * samples.length / buckets := by
    rw [List.length_take]
    omega
  -- What stands behind the buckets before `first`.
  rw [hsplit, List.flatMap_append, hbefore] at hall
  rw [← List.drop_take, ← hall, List.drop_left' hlength]

/-- A bucket consists of the finer buckets in it. -/
theorem bucketOf_split (hk : 0 < k) (hb : bucket < buckets) (hn : samples.length < indexLimit) :
    bucketOf samples buckets bucket =
      (List.range' (k * bucket) k).flatMap (bucketOf samples (k * buckets)) := by
  have hborder (b : Nat) : k * b * samples.length / (k * buckets) =
      b * samples.length / buckets := by
    rw [Nat.mul_assoc, Nat.mul_div_mul_left _ _ hk]
  have hnext : k * bucket + k = k * (bucket + 1) := (Nat.mul_succ k bucket).symm
  have hle : k * (bucket + 1) ≤ k * buckets := Nat.mul_le_mul_left k hb
  rw [flatMap_bucketOf_range' hn (by omega), hnext, hborder, hborder, bucketOf_eq hb hn]

/-! ## Rows of pairs -/

section Pairs

variable {α β : Type} (f g : β → α)

theorem drop_flatMap_pair (bs : List β) (i : Nat) :
    (bs.flatMap fun b => [f b, g b]).drop (2 * i) = (bs.drop i).flatMap fun b => [f b, g b] := by
  induction bs generalizing i with
  | nil => simp
  | cons b bs ih =>
    cases i with
    | zero => rfl
    | succ i => exact ih i

theorem take_flatMap_pair (bs : List β) (i : Nat) :
    (bs.flatMap fun b => [f b, g b]).take (2 * i) = (bs.take i).flatMap fun b => [f b, g b] := by
  induction bs generalizing i with
  | nil => simp
  | cons b bs ih =>
    cases i with
    | zero => rfl
    | succ i =>
      have hrest := ih i
      simp only [List.flatMap_cons, List.take_succ_cons]
      rw [← hrest]
      rfl

end Pairs

/-! ## Two levels -/

theorem bucketOf_minMax (hk : 0 < k) (hb : bucket < buckets) (hle : k * buckets ≤ samples.length)
    (hn : 2 * samples.length < indexLimit) :
    bucketOf (minMax samples (k * buckets)) buckets bucket =
      (List.range' (k * bucket) k).flatMap fun b =>
        [(extremes (bucketOf samples (k * buckets) b)).1,
          (extremes (bucketOf samples (k * buckets) b)).2] := by
  have hpos : 0 < k * buckets := Nat.mul_pos hk (by omega)
  have hlength := length_minMax hpos hle
  have hborder (b : Nat) : b * (2 * (k * buckets)) / buckets = 2 * (k * b) := by
    have hfactor : b * (2 * (k * buckets)) = 2 * (k * b) * buckets := by ac_rfl
    rw [hfactor, Nat.mul_div_cancel _ (by omega)]
  have hcount : 2 * (k * (bucket + 1)) - 2 * (k * bucket) = 2 * k := by
    rw [Nat.mul_succ]
    omega
  have hin : k * bucket + k ≤ k * buckets := by
    rw [← Nat.mul_succ]
    exact Nat.mul_le_mul_left k hb
  rw [bucketOf_eq hb (by omega), hlength, hborder, hborder, hcount, minMax_eq hpos hle,
    drop_flatMap_pair, take_flatMap_pair]
  rw [List.range_eq_range', List.drop_range', Nat.zero_add, Nat.mul_one,
    List.take_range'_of_length_ge (by omega)]

/-- The coarse bucket has the same extremes before and after the fine reduction. -/
theorem extremes_bucketOf_minMax (hk : 0 < k) (hb : bucket < buckets)
    (hle : k * buckets ≤ samples.length) (hn : 2 * samples.length < indexLimit) :
    extremes (bucketOf (minMax samples (k * buckets)) buckets bucket) =
      extremes (bucketOf samples buckets bucket) := by
  have hpos : 0 < k * buckets := Nat.mul_pos hk (by omega)
  have hlength := length_minMax hpos hle
  have hfew : buckets ≤ k * buckets := Nat.le_mul_of_pos_left buckets hk
  have hencloses : Encloses (bucketOf (minMax samples (k * buckets)) buckets bucket)
      (bucketOf samples buckets bucket) := by
    rw [bucketOf_minMax hk hb hle hn, bucketOf_split hk hb (by omega)]
    apply encloses_flatMap
    intro b hmem
    have hin : b < k * buckets := by
      have hnext : k * (bucket + 1) ≤ k * buckets := Nat.mul_le_mul_left k hb
      rw [Nat.mul_succ] at hnext
      have := (List.mem_range'_1.mp hmem).2
      omega
    exact bucketOf_ne_nil hin hle (by omega)
  have hsome : bucketOf (minMax samples (k * buckets)) buckets bucket ≠ [] :=
    bucketOf_ne_nil hb (by omega) (by omega)
  exact (hencloses.spans (spans_extremes hsome)).extremes_eq.symm

theorem minMax_minMax (hk : 0 < k) (hpos : 0 < buckets) (hle : k * buckets ≤ samples.length)
    (hn : 2 * samples.length < indexLimit) :
    minMax (minMax samples (k * buckets)) buckets = minMax samples buckets := by
  have hlength := length_minMax (Nat.mul_pos hk hpos) hle
  have hfew : buckets ≤ k * buckets := Nat.le_mul_of_pos_left buckets hk
  rw [minMax_eq hpos (by omega), minMax_eq hpos (by omega)]
  apply List.flatMap_congr
  intro bucket hmem
  rw [extremes_bucketOf_minMax hk (List.mem_range.mp hmem) hle hn]

/-- **Two levels are one.** For every list of samples that fits the address space, at two bytes a
sample, and `k * buckets` buckets with at least one sample each: a second reduction to `buckets`
gives what a single one gives, and so does a display with room for `buckets` pairs. With `k = 1` a
reduction repeated changes nothing. -/
theorem reduction_levels (hk : 1 ≤ k) (hpos : 1 ≤ buckets) (hle : k * buckets ≤ samples.length)
    (hn : 2 * samples.length < indexLimit) :
    minMax (minMax samples (k * buckets)) buckets = minMax samples buckets ∧
      ∀ budget, budget / 2 = buckets →
        Display.reduce budget (minMax samples (k * buckets)) = minMax samples buckets := by
  have hlevels := minMax_minMax hk hpos hle hn
  refine ⟨hlevels, ?_⟩
  intro budget hbudget
  rw [Display.reduce, length_minMax (Nat.mul_pos hk hpos) hle, hbudget]
  split
  · exact hlevels
  · -- All pairs fit the budget, so that there is one for each bucket.
    have hone : k * buckets = buckets := by
      have hfew : buckets ≤ k * buckets := Nat.le_mul_of_pos_left buckets hk
      omega
    rw [hone]

/-- Eleven samples in six buckets, then in three. -/
theorem reduction_levels_eleven :
    minMax (minMax [5, -2, 8, 1, 1, -9, 4, 0, 7, -3, 6] (2 * 3)) 3 =
        minMax [5, -2, 8, 1, 1, -9, 4, 0, 7, -3, 6] 3 ∧
      Display.reduce 7 (minMax [5, -2, 8, 1, 1, -9, 4, 0, 7, -3, 6] (2 * 3)) =
        minMax [5, -2, 8, 1, 1, -9, 4, 0, 7, -3, 6] 3 := by
  obtain ⟨htwice, hshown⟩ := @reduction_levels [5, -2, 8, 1, 1, -9, 4, 0, 7, -3, 6] 2 3
    (by decide) (by decide) (by decide) (by decide)
  exact ⟨htwice, hshown 7 rfl⟩

end Decimation
end Oscilloscope
