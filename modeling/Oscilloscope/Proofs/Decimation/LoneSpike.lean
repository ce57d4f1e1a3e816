import Mathlib
import Oscilloscope.Proofs.Decimation.Corners
import Oscilloscope.Proofs.Decimation.InnerBuckets

/-!
# Oscilloscope.Proofs.Decimation.LoneSpike

What the triangle method does to a single sample that is not zero.

Every triangle without the spike is flat, so a bucket that holds the spike chooses it. What is left
is whether a bucket holds it. The computed borders leave no gap between buckets, but the last one
can end a place early, and then the last interior sample is in no bucket.

* `largestCorner_spike`: one bucket.
* `mem_innerCorners`, `considers_of_mem_innerCorners`: all buckets, one after the other.
* `triangle_keeps_spike`: the whole reduction. `triangle_loses_spike`: a spike that is lost.
-/

namespace Oscilloscope
namespace Decimation

/-- `n` samples, all zero but the one at `p`. -/
def loneSpike (n p : ℕ) (v : Sample) : List Sample := (List.replicate n 0).set p v

/-- The sample at `p` is the only one that is not zero. -/
structure Lone (samples : Array Sample) (p : ℕ) : Prop where
  loud : samples.getD p 0 ≠ 0
  silent : ∀ i, i ≠ p → samples.getD i 0 = 0

theorem size_loneSpike (n p : ℕ) (v : Sample) : (loneSpike n p v).toArray.size = n := by
  rw [loneSpike, List.size_toArray, List.length_set, List.length_replicate]

theorem getD_loneSpike {n p : ℕ} (hp : p < n) (v : Sample) (i : ℕ) :
    (loneSpike n p v).toArray.getD i 0 = if i = p then v else 0 := by
  rw [loneSpike, Array.getD_eq_getD_getElem?, List.getElem?_toArray, List.getElem?_set,
    List.length_replicate, List.getElem?_replicate]
  by_cases hi : p = i
  · rw [if_pos hi, if_pos hp, if_pos hi.symm, Option.getD_some]
  · rw [if_neg hi, if_neg (Ne.symm hi)]
    split
    · rfl
    · rfl

theorem lone_loneSpike {n p : ℕ} (hp : p < n) {v : Sample} (hv : v ≠ 0) :
    Lone (loneSpike n p v).toArray p where
  loud := by rwa [getD_loneSpike hp, if_pos rfl]
  silent i hi := by rw [getD_loneSpike hp, if_neg hi]

/-! ## One bucket -/

theorem toInt_ne_zero {s : Sample} (hs : s ≠ 0) : s.toInt ≠ 0 := by
  rw [← Int16.toInt_zero]
  exact fun heq => hs (Int16.toInt_inj.mp heq)

theorem abs_toInt_le (s : Sample) : |s.toInt| ≤ 2 ^ 15 := by
  have hlow : -2 ^ 15 ≤ s.toInt := Int16.le_toInt s
  have hhigh : s.toInt < 2 ^ 15 := Int16.toInt_lt s
  exact abs_le.mpr ⟨hlow, hhigh.le⟩

section Bucket

variable {samples : Array Sample} {p i inner bucket : ℕ} {before after : Point} {x : ℚ}

/-- A bucket that holds the spike chooses it: no other sample there spans an area. -/
theorem largestCorner_spike (h : Lone samples p) {r : IndexRange} (hp : p ∈ r.indices)
    (hends : r.stop ≤ 2 ^ 52) (hbefore : OnAxis before i) (hi : i < p) (hafter : OnAxis after x)
    (hbehind : p + 1 ≤ x) (hfar : x ≤ 2 ^ 60) : largestCorner samples before after r = p := by
  have hplace {j : ℕ} (hj : j ∈ r.indices) : j < 2 ^ 53 :=
    (IndexRange.mem_indices.mp hj).2.trans_le (hends.trans (by norm_num))
  have hlast := (IndexRange.mem_indices.mp hp).2
  have hapart : (i : ℚ) + 2 ≤ x := by
    have hstep : (i + 1 : ℚ) ≤ p := by exact_mod_cast hi
    linarith
  obtain ⟨a, ha, hpos⟩ := doubledArea_spike (b := pointAt samples p) hbefore
    (denotes_ofNat (hplace hp)) (Sample.denotes_toFloat _) hafter (toInt_ne_zero h.loud)
    (abs_toInt_le _) (by omega) hapart hfar
  have harea : ∀ j ∈ r.indices, Denotes (doubledArea before (pointAt samples j) after)
      (if j = p then a else 0) := by
    intro j hj
    split
    · rename_i heq
      rwa [heq]
    · rename_i hne
      exact doubledArea_silent hbefore (onAxis_pointAt (hplace hj) (h.silent j hne)) hafter
  have hmax := largestCorner_max (by
    intro j hj
    split
    · exact hpos.le
    · exact le_rfl) harea hp
  by_contra hne
  rw [if_pos rfl, if_neg hne] at hmax
  exact absurd hpos hmax.not_gt

theorem anchor_spec (h : Lone samples p) (hinside : p < samples.size - 1)
    (hn : samples.size ≤ 2 ^ 52) (hle : inner ≤ samples.size - 2) (hb : bucket < inner)
    (hnext : p ≤ cut (samples.size - 2) inner (bucket + 1)) :
    ∃ x, OnAxis (anchor samples inner bucket) x ∧ p + 1 ≤ x ∧ x ≤ 2 ^ 60 := by
  have hsilent : ∀ j, p < j → samples.getD j 0 = 0 := fun j hj => h.silent j (by omega)
  unfold anchor
  split
  · have hcut := cut_le (by omega) hle (by omega) (by omega : bucket + 1 ≤ inner)
    have hstart : (innerRange samples.size inner (bucket + 1)).start =
        1 + cut (samples.size - 2) inner (bucket + 1) := rfl
    have hstop : (innerRange samples.size inner (bucket + 1)).stop ≤ samples.size - 1 :=
      min_le_right _ _
    obtain ⟨x, hx, hmin, hmax⟩ := centroid_spec hsilent hinside
      (r := innerRange samples.size inner (bucket + 1)) (by omega) (by omega) (by omega)
    refine ⟨x, hx, le_trans ?_ hmin, hmax⟩
    exact_mod_cast (by omega : p + 1 ≤ (innerRange samples.size inner (bucket + 1)).start)
  · refine ⟨(samples.size - 1 : ℕ), onAxis_pointAt (by omega) (hsilent _ hinside), ?_, ?_⟩
    · exact_mod_cast (by omega : p + 1 ≤ samples.size - 1)
    · exact_mod_cast (by omega : samples.size - 1 ≤ 2 ^ 60)

end Bucket

/-! ## All buckets -/

section Buckets

variable {samples : Array Sample} {p inner : ℕ}

theorem considers_largestCorner (samples : Array Sample) (before after : Point)
    (inner bucket : ℕ) :
    Considers samples.size inner bucket
      (largestCorner samples before after (innerRange samples.size inner bucket)) :=
  largestCorner_mem

/-- A spike is kept by a bucket that considers it. -/
theorem considers_of_mem_innerCorners (h : Lone samples p) {count bucket : ℕ} {before : Point}
    (hmem : samples.getD p 0 ∈ innerCorners samples inner count bucket before) :
    ∃ b < bucket + count, Considers samples.size inner b p := by
  induction count generalizing bucket before with
  | zero => exact absurd hmem List.not_mem_nil
  | succ count ih =>
    rw [innerCorners] at hmem
    rcases List.mem_cons.mp hmem with heq | htail
    · have hconsiders := considers_largestCorner samples before
        (anchor samples inner bucket) inner bucket
      have hchoice : largestCorner samples before (anchor samples inner bucket)
          (innerRange samples.size inner bucket) = p := by
        by_contra hne
        exact h.loud (heq.trans (h.silent _ hne))
      rw [hchoice] at hconsiders
      exact ⟨bucket, by omega, hconsiders⟩
    · obtain ⟨b, hb, hconsiders⟩ := ih htail
      exact ⟨b, by omega, hconsiders⟩

/-- Induction on the number of buckets left. Up to the bucket that keeps the spike, all choices are
before the spike and no bucket begins behind it. -/
theorem mem_innerCorners (h : Lone samples p) (hinside : p < samples.size - 1)
    (hn : samples.size ≤ 2 ^ 52) (hle : inner ≤ samples.size - 2) {count bucket i : ℕ}
    (hcount : bucket + count = inner) (hi : i < p)
    (hbegin : 1 + cut (samples.size - 2) inner bucket ≤ p)
    (hconsiders : ∃ b < inner, bucket ≤ b ∧ Considers samples.size inner b p) :
    samples.getD p 0 ∈ innerCorners samples inner count bucket (pointAt samples i) := by
  induction count generalizing bucket i with
  | zero =>
    obtain ⟨b, hb, hlate, -⟩ := hconsiders
    omega
  | succ count ih =>
    rw [innerCorners]
    by_cases hends : p ≤ cut (samples.size - 2) inner (bucket + 1)
    · -- The bucket holds the spike.
      have hbefore : OnAxis (pointAt samples i) i :=
        onAxis_pointAt (by omega) (h.silent i (by omega))
      obtain ⟨x, hafter, hbehind, hfar⟩ := anchor_spec h hinside hn hle (by omega) hends
      have hstop : (innerRange samples.size inner bucket).stop ≤ samples.size - 1 :=
        min_le_right _ _
      rw [largestCorner_spike h (mem_innerRange.mpr ⟨hbegin, by omega, hinside⟩) (by omega) hbefore
        hi hafter hbehind hfar]
      exact List.mem_cons_self
    · have hcorner := (considers_largestCorner samples (pointAt samples i)
        (anchor samples inner bucket) inner bucket).bounds
      by_cases hchoice : largestCorner samples (pointAt samples i) (anchor samples inner bucket)
          (innerRange samples.size inner bucket) = p
      · rw [hchoice]
        exact List.mem_cons_self
      · -- The bucket ends before the spike, and so does its choice: it is not the one in question.
        refine List.mem_cons_of_mem _ (ih (by omega) (by omega) (by omega) ?_)
        obtain ⟨b, hb, hlate, hconsiders⟩ := hconsiders
        refine ⟨b, hb, Nat.lt_of_le_of_ne hlate ?_, hconsiders⟩
        rintro rfl
        have hplace := hconsiders.bounds
        omega

end Buckets

/-- Both ends of the reduction are silent, so the spike is kept by the inner buckets or not at
all. -/
theorem mem_triangle_iff {samples : List Sample} {inner p : ℕ} (h : Lone samples.toArray p)
    (hpos : 0 < inner) (hlt : inner + 2 < samples.length) (hfirst : p ≠ 0)
    (hlast : p ≠ samples.toArray.size - 1) :
    samples.toArray.getD p 0 ∈ triangle samples (inner + 2) ↔
      samples.toArray.getD p 0 ∈
        innerCorners samples.toArray inner inner 0 (pointAt samples.toArray 0) := by
  obtain ⟨k, rfl⟩ := Nat.exists_eq_add_one.mpr hpos
  rw [triangle, if_neg (by omega)]
  simp only [h.silent 0 hfirst.symm, h.silent _ hlast.symm, List.mem_append, List.mem_cons,
    h.loud, List.not_mem_nil, false_or, or_false]

/-- A spike is kept exactly if a bucket considers its place. All places but the last interior one
are considered, and this one too if the buckets are equally long. The bound on the length keeps the
places and the areas at neighbouring places apart from each other as doubles. -/
theorem triangle_keeps_spike {n target p : ℕ} {v : Sample} (hthree : 3 ≤ target)
    (hlt : target < n) (hn : n ≤ 2 ^ 52) (hfirst : 1 ≤ p) (hlast : p ≤ n - 2) (hv : v ≠ 0) :
    (v ∈ triangle (loneSpike n p v) target ↔
      ∃ bucket < target - 2, Considers n (target - 2) bucket p) ∧
    (p < n - 2 ∨ target - 2 ∣ n - 2 → v ∈ triangle (loneSpike n p v) target) := by
  obtain ⟨inner, rfl⟩ : ∃ inner, target = inner + 2 := ⟨target - 2, by omega⟩
  rw [Nat.add_sub_cancel]
  have hpos : 0 < inner := by omega
  have hle : inner ≤ n - 2 := by omega
  have hplaces : n - 2 < 2 ^ 52 := by omega
  have hsize := size_loneSpike n p v
  have hlone := lone_loneSpike (by omega : p < n) hv
  have hspike : (loneSpike n p v).toArray.getD p 0 = v := by
    rw [getD_loneSpike (by omega), if_pos rfl]
  have hiff : v ∈ triangle (loneSpike n p v) (inner + 2) ↔
      ∃ bucket < inner, Considers n inner bucket p := by
    have hinner := mem_triangle_iff hlone hpos (by rwa [← List.size_toArray, hsize]) (by omega)
      (by omega)
    rw [hspike] at hinner
    refine hinner.trans ⟨fun hmem => ?_, fun ⟨b, hb, hconsiders⟩ => ?_⟩
    · have hconsiders := considers_of_mem_innerCorners hlone (by rwa [hspike])
      rwa [hsize, zero_add] at hconsiders
    · have hmem := mem_innerCorners hlone (by omega) (by omega) (by omega) (zero_add inner)
        (Nat.lt_of_lt_of_le Nat.zero_lt_one hfirst) (by rwa [hsize, cut_zero hpos hle hplaces])
        ⟨b, hb, Nat.zero_le b, by rwa [hsize]⟩
      rwa [hspike] at hmem
  refine ⟨hiff, fun hcase => hiff.mpr (exists_considers hpos hle hn hfirst hlast ?_)⟩
  rcases hcase with hbefore | hdvd
  · have hnear := le_cut_last hpos hle hplaces
    omega
  · rwa [cut_last_of_dvd hpos hle hplaces hdvd]

theorem triangle_keeps_spike_fourteen :
    14 < 17 - 2 ∧ (1000 : Sample) ∈ triangle (loneSpike 17 14 1000) 13 ∧
      ∃ bucket < 11, Considers 17 11 bucket 14 := by
  have hkept := triangle_keeps_spike (by decide : 3 ≤ 13) (by decide : 13 < 17) (by decide)
    (by decide : 1 ≤ 14) (by decide) (by decide : (1000 : Sample) ≠ 0)
  have hmem := hkept.2 (.inl (by decide))
  exact ⟨by decide, hmem, hkept.1.mp hmem⟩

/-- The buckets of length fifteen elevenths end one place early, and the last interior sample is in
none of them. -/
theorem triangle_loses_spike : (1000 : Sample) ∉ triangle (loneSpike 17 15 1000) 13 := by
  decide +kernel

end Decimation
end Oscilloscope
