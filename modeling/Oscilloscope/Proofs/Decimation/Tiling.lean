import Mathlib.Algebra.GroupWithZero.Nat
import Oscilloscope.Proofs.Decimation.Buckets

/-!
# Oscilloscope.Proofs.Decimation.Tiling

Where the buckets lie, how long they are, and which two places of the output stand for each.

* `start_eq_add_longer`: where a bucket begins tells how many of the buckets before it are longer
  than the exact share. At the end of the samples this counts all of them.
* `product_lt`: the products of the borders fit twice an index word.
* `minMax_pair`: the places of one bucket in the output.
* `buckets_tile`: all of it, for every number of samples that an index word can count.
-/

namespace Oscilloscope
namespace Decimation

/-! ## Borders -/

section Borders

variable {bucket n buckets : Nat}

theorem start_bucketRange (hb : bucket < buckets) (hn : n < indexLimit) :
    (bucketRange bucket n buckets).start = bucket * n / buckets := by
  rw [bucketRange_eq hb hn]

theorem stop_bucketRange (hb : bucket < buckets) (hn : n < indexLimit) :
    (bucketRange bucket n buckets).stop = (bucket + 1) * n / buckets := by
  rw [bucketRange_eq hb hn]

theorem start_succ (hb : bucket + 1 < buckets) (hn : n < indexLimit) :
    (bucketRange (bucket + 1) n buckets).start = (bucketRange bucket n buckets).stop := by
  rw [start_bucketRange hb hn, stop_bucketRange (by omega) hn]

theorem stop_last (hpos : 0 < buckets) (hn : n < indexLimit) :
    (bucketRange (buckets - 1) n buckets).stop = n := by
  rw [stop_bucketRange (by omega) hn, Nat.sub_add_cancel hpos, Nat.mul_div_cancel_left n hpos]

theorem stop_eq_add_length (hb : bucket < buckets) (hn : n < indexLimit) :
    (bucketRange bucket n buckets).stop =
      (bucketRange bucket n buckets).start + (bucketRange bucket n buckets).length := by
  have hle : (bucketRange bucket n buckets).start ≤ (bucketRange bucket n buckets).stop := by
    rw [start_bucketRange hb hn, stop_bucketRange hb hn]
    exact start_le_stop bucket n buckets
  rw [IndexRange.length]
  omega

theorem start_eq_add_longer (hn : n < indexLimit) {count : Nat} (hle : count ≤ buckets) :
    count * n / buckets = count * (n / buckets) + (List.range count).countP fun b =>
      decide ((bucketRange b n buckets).length = n / buckets + 1) := by
  induction count with
  | zero => simp
  | succ count ih =>
    have hstop := stop_eq_add_length hle hn
    rw [stop_bucketRange hle hn, start_bucketRange hle hn, ih (by omega)] at hstop
    rw [List.range_succ, List.countP_append, List.countP_singleton, hstop, Nat.succ_mul]
    -- The bucket adds the share to the left sum, and to the right one what it has beyond that.
    rcases length_bucketRange hle hn with hshare | hlonger
    · rw [if_neg (by simp [hshare]), hshare]
      omega
    · rw [if_pos (by simp [hlonger]), hlonger]
      omega

theorem countP_longer (hpos : 0 < buckets) (hn : n < indexLimit) :
    (List.range buckets).countP (fun b =>
      decide ((bucketRange b n buckets).length = n / buckets + 1)) = n % buckets := by
  have hall := start_eq_add_longer hn (Nat.le_refl buckets)
  rw [Nat.mul_div_cancel_left n hpos] at hall
  have hsplit := Nat.div_add_mod n buckets
  omega

theorem product_lt (hb : bucket < buckets) (hle : buckets ≤ n) (hn : n < indexLimit) :
    (bucket + 1) * n < 2 ^ 128 :=
  calc (bucket + 1) * n ≤ n * n := Nat.mul_le_mul_right n (by omega)
    _ < indexLimit * indexLimit := Nat.mul_lt_mul'' hn hn
    _ = 2 ^ 128 := by decide

end Borders

/-! ## Pairs -/

/-- A list of pairs laid out one behind the other has pair `i` at the places `2 * i` and
`2 * i + 1`. -/
theorem getElem?_flatMap_pair {α β : Type} (f g : β → α) (bs : List β) (i : Nat) :
    (bs.flatMap fun b => [f b, g b])[2 * i]? = bs[i]?.map f ∧
      (bs.flatMap fun b => [f b, g b])[2 * i + 1]? = bs[i]?.map g := by
  induction bs generalizing i with
  | nil => simp
  | cons b bs ih =>
    cases i with
    | zero => exact ⟨rfl, rfl⟩
    | succ i => exact ih i

theorem minMax_pair {samples : List Sample} {buckets bucket : Nat} (hle : buckets ≤ samples.length)
    (hb : bucket < buckets) :
    (minMax samples buckets)[2 * bucket]? = some (extremes (bucketOf samples buckets bucket)).1 ∧
      (minMax samples buckets)[2 * bucket + 1]? =
        some (extremes (bucketOf samples buckets bucket)).2 := by
  have hget : (List.range buckets)[bucket]? = some bucket := List.getElem?_range hb
  obtain ⟨hlow, hhigh⟩ := getElem?_flatMap_pair
    (fun b => (extremes (bucketOf samples buckets b)).1)
    (fun b => (extremes (bucketOf samples buckets b)).2) (List.range buckets) bucket
  rw [hget, Option.map_some] at hlow hhigh
  rw [minMax_eq (by omega) hle]
  exact ⟨hlow, hhigh⟩

/-- **Buckets.** For every number of samples below the word size and every number of buckets up to
it:

* the buckets lie one behind the other, from the first sample to the last;
* each has the share of the samples or one more, and as many as the division leaves over are
  longer;
* the products behind their borders fit 128 bits;
* the output has two places for each bucket, which hold its smallest and its largest sample. -/
theorem buckets_tile {n buckets : Nat} (hpos : 1 ≤ buckets) (hle : buckets ≤ n)
    (hn : n < indexLimit) :
    (bucketRange 0 n buckets).start = 0 ∧
    (∀ b, b + 1 < buckets →
      (bucketRange (b + 1) n buckets).start = (bucketRange b n buckets).stop) ∧
    (bucketRange (buckets - 1) n buckets).stop = n ∧
    (∀ b < buckets,
      (bucketRange b n buckets).stop = (bucketRange b n buckets).start + n / buckets ∨
      (bucketRange b n buckets).stop = (bucketRange b n buckets).start + (n / buckets + 1)) ∧
    (List.range buckets).countP (fun b =>
      decide ((bucketRange b n buckets).length = n / buckets + 1)) = n % buckets ∧
    (∀ b < buckets, (b + 1) * n < 2 ^ 128) ∧
    ∀ samples : List Sample, samples.length = n →
      (minMax samples buckets).length = 2 * buckets ∧
      ∀ b < buckets, ∃ lo hi, (minMax samples buckets)[2 * b]? = some lo ∧
        (minMax samples buckets)[2 * b + 1]? = some hi ∧
        Spans ((samples.drop (bucketRange b n buckets).start).take
          (bucketRange b n buckets).length) lo hi := by
  refine ⟨?_, fun b hb => start_succ hb hn, stop_last hpos hn, ?_, countP_longer hpos hn,
    fun b hb => product_lt hb hle hn, ?_⟩
  · simp [start_bucketRange hpos hn]
  · intro b hb
    rw [stop_eq_add_length hb hn]
    rcases length_bucketRange hb hn with hshare | hlonger
    · left
      rw [hshare]
    · right
      rw [hlonger]
  · rintro samples rfl
    refine ⟨length_minMax hpos hle, ?_⟩
    intro b hb
    obtain ⟨hlow, hhigh⟩ := minMax_pair hle hb
    refine ⟨_, _, hlow, hhigh, ?_⟩
    rw [← of_toArray]
    exact spans_extremes (bucketOf_ne_nil hb hle hn)

/-- Seven samples in three buckets, of which the last is the longer one. -/
theorem buckets_tile_seven :
    (List.range 3).countP (fun b => decide ((bucketRange b 7 3).length = 7 / 3 + 1)) = 1 ∧
      ∃ lo hi, (minMax [4, -1, 0, 9, 2, -7, 3] 3)[4]? = some lo ∧
        (minMax [4, -1, 0, 9, 2, -7, 3] 3)[5]? = some hi ∧ Spans [2, -7, 3] lo hi := by
  obtain ⟨-, -, -, -, hlonger, -, houtput⟩ :=
    @buckets_tile 7 3 (by decide) (by decide) (by decide)
  exact ⟨hlonger, (houtput [4, -1, 0, 9, 2, -7, 3] rfl).2 2 (by decide)⟩

end Decimation
end Oscilloscope
