import Oscilloscope.Decimation.Buckets

/-!
# Oscilloscope.Proofs.Decimation.Buckets

What the buckets are and what their extremes are.

* `Spans xs lo hi`: `lo` and `hi` are the smallest and the largest of `xs`. For samples that are
  there at all, `extremes` is the only pair of this kind: its start values do not show.
* `bucketRange_eq`: below the word size nothing is cut off, so that a bucket is given by the exact
  quotients.
* `length_bucketRange`: a bucket has `n / k` samples or one more.
* `flatMap_bucketOf`, `flatMap_buckets`: the buckets tile the samples.
* `minMax_eq`: the output, bucket by bucket.
-/

namespace Oscilloscope
namespace Decimation

/-! ## Extremes -/

/-- `lo` is the smallest and `hi` the largest of `xs`. -/
structure Spans (xs : List Sample) (lo hi : Sample) : Prop where
  low_mem : lo ∈ xs
  high_mem : hi ∈ xs
  low_le : ∀ x ∈ xs, lo ≤ x
  le_high : ∀ x ∈ xs, x ≤ hi

theorem Spans.eq {xs : List Sample} {lo hi lo' hi' : Sample} (h : Spans xs lo hi)
    (h' : Spans xs lo' hi') : lo = lo' ∧ hi = hi' :=
  ⟨Int16.le_antisymm (h.low_le lo' h'.low_mem) (h'.low_le lo h.low_mem),
    Int16.le_antisymm (h'.le_high hi h.high_mem) (h.le_high hi' h'.high_mem)⟩

/-- A fold that picks the better of two each time ends with the best of all, for `better` read as
"at most" or as "at least". -/
theorem foldl_best (pick : Sample → Sample → Sample) (better : Sample → Sample → Prop)
    (htrans : ∀ {a b c}, better a b → better b c → better a c)
    (hpick : ∀ a b, (pick a b = a ∨ pick a b = b) ∧ better (pick a b) a ∧ better (pick a b) b)
    (xs : List Sample) (s : Sample) :
    xs.foldl pick s ∈ s :: xs ∧ ∀ x ∈ s :: xs, better (xs.foldl pick s) x := by
  induction xs generalizing s with
  | nil =>
    refine ⟨List.mem_cons_self, ?_⟩
    intro x hx
    obtain rfl := List.mem_singleton.mp hx
    rcases hpick x x with ⟨he | he, hbetter, -⟩
    · rwa [he] at hbetter
    · rwa [he] at hbetter
  | cons y xs ih =>
    obtain ⟨hmem, hbest⟩ := ih (pick s y)
    obtain ⟨hone, hs, hy⟩ := hpick s y
    rw [List.foldl_cons]
    have hfirst := hbest (pick s y) List.mem_cons_self
    refine ⟨?_, ?_⟩
    · rcases List.mem_cons.mp hmem with he | hmem
      · rcases hone with hone | hone
        · rw [he, hone]
          exact List.mem_cons_self
        · rw [he, hone]
          exact List.mem_cons_of_mem _ List.mem_cons_self
      · exact List.mem_cons_of_mem _ (List.mem_cons_of_mem _ hmem)
    · intro x hx
      rcases List.mem_cons.mp hx with rfl | hx
      · exact htrans hfirst hs
      · rcases List.mem_cons.mp hx with rfl | hx
        · exact htrans hfirst hy
        · exact hbest x (List.mem_cons_of_mem _ hx)

theorem foldl_min (xs : List Sample) (s : Sample) :
    xs.foldl min s ∈ s :: xs ∧ ∀ x ∈ s :: xs, xs.foldl min s ≤ x := by
  refine foldl_best min (fun a b => a ≤ b) Int16.le_trans ?_ xs s
  intro a b
  have hmin : min a b = if a ≤ b then a else b := rfl
  rw [hmin]
  rcases Int16.le_total a b with hab | hba
  · rw [if_pos hab]
    exact ⟨.inl rfl, Int16.le_refl a, hab⟩
  · by_cases hab : a ≤ b
    · rw [if_pos hab]
      exact ⟨.inl rfl, Int16.le_refl a, hab⟩
    · rw [if_neg hab]
      exact ⟨.inr rfl, hba, Int16.le_refl b⟩

theorem foldl_max (xs : List Sample) (s : Sample) :
    xs.foldl max s ∈ s :: xs ∧ ∀ x ∈ s :: xs, x ≤ xs.foldl max s := by
  refine foldl_best max (fun a b => b ≤ a) (fun hab hbc => Int16.le_trans hbc hab) ?_ xs s
  intro a b
  have hmax : max a b = if a ≤ b then b else a := rfl
  rw [hmax]
  by_cases hab : a ≤ b
  · rw [if_pos hab]
    exact ⟨.inr rfl, hab, Int16.le_refl b⟩
  · rw [if_neg hab]
    exact ⟨.inl rfl, Int16.le_refl a, (Int16.le_total a b).resolve_left hab⟩

theorem foldl_extremes (xs : List Sample) (e : Sample × Sample) :
    xs.foldl (fun e s => (min e.1 s, max e.2 s)) e = (xs.foldl min e.1, xs.foldl max e.2) := by
  induction xs generalizing e with
  | nil => rfl
  | cons x xs ih => rw [List.foldl_cons, ih, List.foldl_cons, List.foldl_cons]

theorem spans_extremes {xs : List Sample} (hne : xs ≠ []) :
    Spans xs (extremes xs).1 (extremes xs).2 := by
  obtain ⟨y, ys, rfl⟩ := List.exists_cons_of_ne_nil hne
  obtain ⟨hlow, hleast⟩ := foldl_min (y :: ys) Sample.highest
  obtain ⟨hhigh, hgreatest⟩ := foldl_max (y :: ys) Sample.lowest
  rw [extremes, foldl_extremes]
  refine ⟨?_, ?_, fun x hx => hleast x (List.mem_cons_of_mem _ hx),
    fun x hx => hgreatest x (List.mem_cons_of_mem _ hx)⟩
  · -- The start value stays only if every sample equals it.
    rcases List.mem_cons.mp hlow with he | hmem
    · have hle := hleast y (List.mem_cons_of_mem _ List.mem_cons_self)
      rw [he] at hle ⊢
      have hy : Sample.highest = y := Int16.le_antisymm hle (Int16.le_maxValue y)
      rw [hy]
      exact List.mem_cons_self
    · exact hmem
  · rcases List.mem_cons.mp hhigh with he | hmem
    · have hle := hgreatest y (List.mem_cons_of_mem _ List.mem_cons_self)
      rw [he] at hle ⊢
      have hy : Sample.lowest = y := Int16.le_antisymm (Int16.minValue_le y) hle
      rw [hy]
      exact List.mem_cons_self
    · exact hmem

theorem Spans.extremes_eq {xs : List Sample} {lo hi : Sample} (h : Spans xs lo hi) :
    extremes xs = (lo, hi) := by
  obtain ⟨hlo, hhi⟩ := (spans_extremes (List.ne_nil_of_mem h.low_mem)).eq h
  exact Prod.ext hlo hhi

/-! ## Buckets -/

theorem start_le_stop (bucket n buckets : Nat) :
    bucket * n / buckets ≤ (bucket + 1) * n / buckets :=
  Nat.div_le_div_right (Nat.mul_le_mul_right n (Nat.le_succ bucket))

section Range

variable {bucket n buckets : Nat} (hb : bucket < buckets)
include hb

theorem stop_le : (bucket + 1) * n / buckets ≤ n :=
  calc (bucket + 1) * n / buckets ≤ buckets * n / buckets :=
        Nat.div_le_div_right (Nat.mul_le_mul_right n hb)
    _ = n := Nat.mul_div_cancel_left n (by omega)

theorem bucketRange_eq (hn : n < indexLimit) :
    bucketRange bucket n buckets = ⟨bucket * n / buckets, (bucket + 1) * n / buckets⟩ := by
  have hstop : (bucket + 1) * n / buckets ≤ n := stop_le hb
  have hstart := start_le_stop bucket n buckets
  rw [bucketRange, if_neg (by omega), Nat.mod_eq_of_lt (by omega), Nat.mod_eq_of_lt (by omega)]

theorem length_bucketRange (hn : n < indexLimit) :
    (bucketRange bucket n buckets).length = n / buckets ∨
      (bucketRange bucket n buckets).length = n / buckets + 1 := by
  have hadd : (bucket + 1) * n / buckets = bucket * n / buckets + n / buckets +
      if buckets ≤ bucket * n % buckets + n % buckets then 1 else 0 := by
    rw [Nat.succ_mul, Nat.add_div (by omega)]
  simp only [IndexRange.length, bucketRange_eq hb hn, hadd]
  generalize bucket * n / buckets = start
  generalize n / buckets = share
  split
  · right
    omega
  · left
    omega

end Range

theorem of_toArray (r : IndexRange) (samples : List Sample) :
    r.of samples.toArray = (samples.drop r.start).take r.length := by
  simp [IndexRange.of, IndexRange.length, List.extract_eq_take_drop]

/-- The samples of one bucket. -/
def bucketOf (samples : List Sample) (buckets bucket : Nat) : List Sample :=
  (bucketRange bucket samples.length buckets).of samples.toArray

section Tiling

variable {samples : List Sample} {buckets bucket : Nat}

theorem bucketOf_eq (hb : bucket < buckets) (hn : samples.length < indexLimit) :
    bucketOf samples buckets bucket = (samples.drop (bucket * samples.length / buckets)).take
      ((bucket + 1) * samples.length / buckets - bucket * samples.length / buckets) := by
  rw [bucketOf, of_toArray, bucketRange_eq hb hn]
  rfl

theorem bucketOf_ne_nil (hb : bucket < buckets) (hle : buckets ≤ samples.length)
    (hn : samples.length < indexLimit) : bucketOf samples buckets bucket ≠ [] := by
  have hstop : (bucket + 1) * samples.length / buckets ≤ samples.length := stop_le hb
  have hshare : 0 < samples.length / buckets := Nat.div_pos hle (by omega)
  have hlen := length_bucketRange hb hn
  rw [bucketRange_eq hb hn, IndexRange.length] at hlen
  dsimp only at hlen
  rw [← List.length_pos_iff, bucketOf_eq hb hn, List.length_take, List.length_drop]
  omega

/-- The first buckets, one behind the other, are the first samples. -/
theorem flatMap_bucketOf (hn : samples.length < indexLimit) {count : Nat}
    (hle : count ≤ buckets) :
    (List.range count).flatMap (bucketOf samples buckets) =
      samples.take (count * samples.length / buckets) := by
  induction count with
  | zero => simp
  | succ count ih =>
    have hstart := start_le_stop count samples.length buckets
    rw [List.range_succ, List.flatMap_append, ih (by omega), List.flatMap_singleton,
      bucketOf_eq hle hn, ← List.take_add, Nat.add_sub_cancel' hstart]

/-- The buckets tile the samples. -/
theorem flatMap_buckets (hpos : 0 < buckets) (hn : samples.length < indexLimit) :
    (List.range buckets).flatMap (bucketOf samples buckets) = samples := by
  rw [flatMap_bucketOf hn (Nat.le_refl buckets), Nat.mul_div_cancel_left _ hpos, List.take_length]

end Tiling

theorem minMax_eq {samples : List Sample} {buckets : Nat} (hpos : 0 < buckets)
    (hle : buckets ≤ samples.length) :
    minMax samples buckets = (List.range buckets).flatMap fun b =>
      [(extremes (bucketOf samples buckets b)).1, (extremes (bucketOf samples buckets b)).2] := by
  rw [minMax, if_neg (by omega), if_neg (by omega)]
  rfl

theorem length_minMax {samples : List Sample} {buckets : Nat} (hpos : 0 < buckets)
    (hle : buckets ≤ samples.length) : (minMax samples buckets).length = 2 * buckets := by
  rw [minMax_eq hpos hle, List.length_flatMap]
  simp only [List.length_cons, List.length_nil, List.map_const', List.length_range,
    List.sum_replicate_nat]
  omega

end Decimation
end Oscilloscope
