import Mathlib
import Oscilloscope.Decimation.Triangle
import Oscilloscope.Proofs.Double.Arithmetic

/-!
# Oscilloscope.Proofs.Decimation.Corners

What a bucket of the triangle method chooses.

* `doubledArea_silent`, `doubledArea_spike`: the computed area of a triangle is zero if all corners
  are on the time axis. It stays positive if only the middle one is off.
* `centroid_spec`: silent samples have their average on the time axis, not before the first of them.
* `largestCorner_mem`, `largestCorner_max`: the choice is in the bucket, and no area there is
  larger.
-/

namespace Oscilloscope
namespace Decimation

/-! ## Areas -/

/-- The point stands on the time axis, at `x`. -/
structure OnAxis (p : Point) (x : ℚ) : Prop where
  place : Denotes p.x x
  level : Denotes p.y 0

theorem denotes_silent {s : Sample} (hs : s = 0) : Denotes (Sample.toFloat s) 0 := by
  have hlevel := Sample.denotes_toFloat s
  rwa [hs, Int16.toInt_zero, Int.cast_zero, ← hs] at hlevel

theorem onAxis_pointAt {samples : Array Sample} {i : ℕ} (hi : i < 2 ^ 53)
    (hsilent : samples.getD i 0 = 0) : OnAxis (pointAt samples i) i where
  place := denotes_ofNat hi
  level := denotes_silent hsilent

section Areas

variable {a b c : Point}

theorem denotes_flat {x y : Float} (hx : Denotes x 0) (hy : Denotes y 0) : Denotes (x - y) 0 := by
  exact_mod_cast Denotes.sub_intCast (k := 0) (l := 0) (by exact_mod_cast hx)
    (by exact_mod_cast hy) (by norm_num)

/-- Three points on the time axis span no area. -/
theorem doubledArea_silent {i j x : ℚ} (ha : OnAxis a i) (hb : OnAxis b j) (hc : OnAxis c x) :
    Denotes (doubledArea a b c) 0 := by
  have hall := ((ha.place.mul_zero (denotes_flat hb.level hc.level)).add_zero
    (hb.place.mul_zero (denotes_flat hc.level ha.level))).add_zero
    (hc.place.mul_zero (denotes_flat ha.level hb.level))
  have habs := hall.abs
  rwa [abs_zero] at habs

/-- The product of a place and a level. -/
theorem denotes_product {x y : Float} {q : ℚ} {v : ℤ} (hx : Denotes x q) (hy : Denotes y v)
    (hv : v ≠ 0) (hsmall : |v| ≤ 2 ^ 15) (hq : q = 0 ∨ 1 ≤ q) (hfar : q ≤ 2 ^ 60) :
    ∃ c, Denotes (x * y) c ∧ Rounds (q * v) c ∧ |c| ≤ 2 ^ 80 := by
  have hone : (1 : ℚ) ≤ |(v : ℚ)| := by exact_mod_cast Int.one_le_abs hv
  have hlevel : |(v : ℚ)| ≤ 2 ^ 15 := by exact_mod_cast hsmall
  rcases hq with rfl | hq
  · obtain ⟨c, hc, hrounds⟩ := hx.mul hy (fun h => absurd (zero_mul _) h)
    have hzero := hrounds
    rw [zero_mul] at hzero
    exact ⟨c, hc, hrounds, by rw [hzero.eq_zero, abs_zero]; norm_num⟩
  · have habs : |q * v| = q * |(v : ℚ)| := by rw [abs_mul, abs_of_nonneg (by linarith)]
    have hmin : 1 ≤ |q * v| := by
      rw [habs]
      exact one_le_mul_of_one_le_of_one_le hq hone
    have hmax : |q * v| ≤ 2 ^ 60 * 2 ^ 15 := by
      rw [habs]
      gcongr
    obtain ⟨c, hc, hrounds⟩ := hx.mul hy (.of_le (by linarith) (by linarith))
    exact ⟨c, hc, hrounds, by linarith [hrounds.le_add]⟩

/-- The errors of two products do not reach over the distance of two places. -/
theorem half_le_abs_add {p q : ℚ} {v c d : ℚ} (hv : 1 ≤ |v|) (hp : 0 ≤ p) (hmax : p ≤ 2 ^ 52)
    (hapart : p + 2 ≤ q) (hc : Rounds (p * v) c) (hd : Rounds (q * -v) d) : 1 / 2 ≤ |c + d| := by
  have hnear : |c| ≤ p * |v| + p * |v| / 2 ^ 53 := by
    have hle := hc.le_add
    rwa [abs_mul, abs_of_nonneg hp] at hle
  have hfar : q * |v| - q * |v| / 2 ^ 53 ≤ |d| := by
    have hle := hd.sub_le
    rwa [abs_mul, abs_of_nonneg (by linarith : 0 ≤ q), abs_neg] at hle
  have hlong : (p + 2) * |v| ≤ q * |v| := by gcongr
  have hshort : p * |v| ≤ 2 ^ 52 * |v| := by gcongr
  have hdiff : |d| - |c| ≤ |c + d| := by
    have hle := abs_sub_abs_le_abs_sub d (-c)
    rwa [abs_neg, sub_neg_eq_add, add_comm] at hle
  linarith

/-- A point off the time axis spans an area with two points on it that are two places apart. -/
theorem doubledArea_spike {i : ℕ} {x j : ℚ} {v : ℤ} (ha : OnAxis a i) (hbx : Denotes b.x j)
    (hby : Denotes b.y v) (hc : OnAxis c x) (hv : v ≠ 0) (hsmall : |v| ≤ 2 ^ 15)
    (hi : i ≤ 2 ^ 52) (hapart : i + 2 ≤ x) (hfar : x ≤ 2 ^ 60) :
    ∃ area, Denotes (doubledArea a b c) area ∧ 0 < area := by
  have hplace : (i : ℚ) ≤ 2 ^ 52 := by exact_mod_cast hi
  have hnonneg : (0 : ℚ) ≤ i := i.cast_nonneg
  have hrise : Denotes (b.y - c.y) v := by
    have hdiff := hby.sub_intCast (l := 0) (by exact_mod_cast hc.level) (by rw [sub_zero]; omega)
    rwa [sub_zero] at hdiff
  have hfall : Denotes (a.y - b.y) (-v : ℤ) := by
    have hdiff := Denotes.sub_intCast (k := 0) (by exact_mod_cast ha.level) hby
      (by rw [zero_sub, abs_neg]; omega)
    rwa [zero_sub] at hdiff
  obtain ⟨p, hp, hpr, hpmax⟩ := denotes_product ha.place hrise hv hsmall
    (i.eq_zero_or_pos.imp (by exact_mod_cast id) (by exact_mod_cast id)) (by linarith)
  obtain ⟨q, hq, hqr, hqmax⟩ := denotes_product hc.place hfall (neg_ne_zero.mpr hv)
    (by rwa [abs_neg]) (.inr (by linarith)) hfar
  rw [Int.cast_neg] at hqr
  have hhalf := half_le_abs_add (by exact_mod_cast Int.one_le_abs hv) hnonneg hplace hapart hpr hqr
  obtain ⟨s, hs, hsr⟩ := (hp.add_zero (hbx.mul_zero (denotes_flat hc.level ha.level))).add hq
    (.of_le (by linarith) (by linarith [abs_add_le p q]))
  exact ⟨|s|, hs.abs, by linarith [hsr.sub_le]⟩

end Areas

/-! ## Averages -/

theorem sum_silent {xs : List Sample} (hsilent : ∀ s ∈ xs, s = 0) {y : Float} (hy : Denotes y 0) :
    Denotes (xs.foldl (fun a s => a + s.toFloat) y) 0 := by
  induction xs generalizing y with
  | nil => exact hy
  | cons s xs ih =>
    exact ih (fun s' hs' => hsilent s' (List.mem_cons_of_mem s hs'))
      (hy.add_zero (denotes_silent (hsilent s List.mem_cons_self)))

/-- The sum of `len` indices from `start` on. Rounding may take from it what the indices behind
`start` give. -/
theorem sum_indices {start : ℕ} (hpos : 1 ≤ start) (len : ℕ) (hfits : start + len ≤ 2 ^ 52) :
    ∃ s, Denotes ((List.range' start len).foldl (fun a i => a + Float.ofNat i) 0.0) s ∧
      len * start ≤ s ∧ s ≤ len * 2 ^ 54 := by
  induction len with
  | zero =>
    rw [Nat.cast_zero, zero_mul, zero_mul]
    exact ⟨0, denotes_zero, le_rfl, le_rfl⟩
  | succ len ih =>
    obtain ⟨s, hs, hmin, hmax⟩ := ih (by omega)
    rw [List.range'_1_concat, List.foldl_append]
    have hfirst : (1 : ℚ) ≤ start := by exact_mod_cast hpos
    have hcount : (start + (len + 1) : ℚ) ≤ 2 ^ 52 := by exact_mod_cast hfits
    have hlen : (0 : ℚ) ≤ len := len.cast_nonneg
    have hexact : 1 ≤ s + (start + len : ℕ) := by
      push_cast
      linarith [mul_nonneg hlen (by linarith : (0 : ℚ) ≤ start)]
    have habs : |s + (start + len : ℕ)| = s + (start + len : ℕ) := abs_of_pos (by linarith)
    obtain ⟨c, hc, hrounds⟩ := hs.add (denotes_ofNat (n := start + len) (by omega))
      (.of_le (by rw [habs]; linarith) (by rw [habs]; push_cast; linarith))
    refine ⟨c, hc, ?_, ?_⟩
    · rcases Nat.eq_zero_or_pos len with rfl | hsome
      · -- The first index is added to nothing, so no rounding takes place.
        have habove := hrounds.above start (by rw [abs_of_nonneg (by omega)]; omega) (by
          push_cast at hmin ⊢
          linarith)
        push_cast at habove ⊢
        linarith
      · have hone : (1 : ℚ) ≤ len := by exact_mod_cast hsome
        have hgain : (len + 1 : ℚ) * start ≤ 2 * len * (2 ^ 52 - 2) := by
          gcongr
          · linarith
          · linarith
        have hnear := (abs_le.mp hrounds.near).1
        rw [habs] at hnear
        push_cast at hnear ⊢
        linarith
    · have hle := hrounds.le_add
      rw [habs] at hle
      have hcle := le_abs_self c
      push_cast at hle ⊢
      linarith

theorem IndexRange.exists_of_mem {samples : Array Sample} {r : IndexRange} {s : Sample}
    (hs : s ∈ r.of samples) : ∃ i, r.start ≤ i ∧ samples.getD i 0 = s := by
  obtain ⟨i, hi, heq⟩ := List.mem_iff_getElem.mp hs
  rw [IndexRange.of, Array.length_toList, Array.size_extract] at hi
  have hsize : r.start + i < samples.size := by omega
  refine ⟨r.start + i, Nat.le_add_right _ _, ?_⟩
  rw [Array.getD_eq_getD_getElem?, Array.getElem?_eq_getElem hsize, Option.getD_some, ← heq]
  simp only [IndexRange.of, Array.getElem_toList, Array.getElem_extract]

/-- The average of silent samples. An empty range stands where it starts. -/
theorem centroid_spec {samples : Array Sample} {r : IndexRange} {p : ℕ}
    (hsilent : ∀ i, p < i → samples.getD i 0 = 0) (hsize : p < samples.size - 1)
    (hstart : p < r.start) (hbegins : r.start ≤ 2 ^ 52) (hends : r.stop ≤ 2 ^ 52) :
    ∃ x, OnAxis (centroid samples r) x ∧ r.start ≤ x ∧ x ≤ 2 ^ 60 := by
  have hbound : (r.start : ℚ) ≤ 2 ^ 52 := by exact_mod_cast hbegins
  unfold centroid
  split
  · exact ⟨r.start, ⟨denotes_ofNat (by omega), denotes_silent (hsilent _ (by omega))⟩, le_rfl,
      by linarith⟩
  · rename_i hsome
    have hlength : r.length = r.stop - r.start := rfl
    have hpos : (1 : ℚ) ≤ r.length := by exact_mod_cast (by omega : 1 ≤ r.length)
    have hcount := denotes_ofNat (n := r.length) (by omega)
    have hfirst : (1 : ℚ) ≤ r.start := by exact_mod_cast (by omega : 1 ≤ r.start)
    obtain ⟨s, hs, hmin, hmax⟩ := sum_indices (by omega : 1 ≤ r.start) r.length (by omega)
    have hlow : (r.start : ℚ) ≤ s / r.length := by
      rw [le_div_iff₀ (by linarith)]
      linarith
    have hhigh : s / r.length ≤ 2 ^ 54 := by
      rw [div_le_iff₀ (by linarith)]
      linarith
    have habs : |s / r.length| = s / r.length := abs_of_pos (by linarith)
    have hquiet : ∀ v ∈ r.of samples, v = 0 := by
      intro v hv
      obtain ⟨i, hi, rfl⟩ := IndexRange.exists_of_mem hv
      exact hsilent i (by omega)
    obtain ⟨x, hx, hrounds⟩ := hs.div hcount (by linarith)
      (.of_le (by rw [habs]; linarith) (by rw [habs]; linarith))
    obtain ⟨y, hy, hyr⟩ := (sum_silent hquiet denotes_zero).div hcount (by linarith)
      (fun h => absurd (zero_div _) h)
    rw [zero_div] at hyr
    rw [hyr.eq_zero] at hy
    refine ⟨x, ⟨hx, hy⟩, ?_, ?_⟩
    · exact_mod_cast hrounds.above r.start (by rw [abs_of_nonneg (by omega)]; omega)
        (by exact_mod_cast hlow)
    · have hle := hrounds.le_add
      rw [habs] at hle
      linarith [le_abs_self x]

/-! ## Choices -/

/-- The larger of the best area so far and the one at `i`; the best so far if they are equal. -/
def larger (area : ℕ → Float) (best : ℕ × Float) (i : ℕ) : ℕ × Float :=
  if best.2 < area i then (i, area i) else best

theorem largestCorner_eq (samples : Array Sample) (before after : Point) (r : IndexRange) :
    largestCorner samples before after r =
      (r.indices.foldl (larger fun i => doubledArea before (pointAt samples i) after)
        (r.start, -1.0)).1 :=
  rfl

theorem foldl_larger_mem (area : ℕ → Float) (is : List ℕ) (best : ℕ × Float) :
    (is.foldl (larger area) best).1 = best.1 ∨ (is.foldl (larger area) best).1 ∈ is := by
  induction is generalizing best with
  | nil => exact .inl rfl
  | cons i is ih =>
    rw [List.foldl_cons]
    rcases ih (larger area best i) with heq | hmem
    · rw [heq, larger]
      split
      · exact .inr List.mem_cons_self
      · exact .inl rfl
    · exact .inr (List.mem_cons_of_mem i hmem)

theorem foldl_larger_max {area : ℕ → Float} {value : ℕ → ℚ} {is : List ℕ}
    (hvalue : ∀ i ∈ is, Denotes (area i) (value i)) (best : ℕ × Float) {q : ℚ}
    (hbest : Denotes best.2 q) :
    ∃ q', q ≤ q' ∧ (∀ i ∈ is, value i ≤ q') ∧
      ((is.foldl (larger area) best).1 = best.1 ∧ q' = q ∨
        (is.foldl (larger area) best).1 ∈ is ∧ value (is.foldl (larger area) best).1 = q') := by
  induction is generalizing best q with
  | nil => exact ⟨q, le_rfl, fun i hi => absurd hi List.not_mem_nil, .inl ⟨rfl, rfl⟩⟩
  | cons i is ih =>
    have hi := hvalue i List.mem_cons_self
    have hrest := fun i' hi' => hvalue i' (List.mem_cons_of_mem i hi')
    rw [List.foldl_cons, larger]
    split
    · rename_i hlt
      obtain ⟨q', hle, hmax, hchoice⟩ := ih hrest (i, area i) hi
      refine ⟨q', ((hbest.lt_iff hi).mp hlt).le.trans hle, List.forall_mem_cons.mpr ⟨hle, hmax⟩, ?_⟩
      rcases hchoice with ⟨hfirst, hq⟩ | ⟨hmem, hq⟩
      · exact .inr ⟨by rw [hfirst]; exact List.mem_cons_self, by rw [hfirst, hq]⟩
      · exact .inr ⟨List.mem_cons_of_mem i hmem, hq⟩
    · rename_i hge
      obtain ⟨q', hle, hmax, hchoice⟩ := ih hrest best hbest
      have hsmaller : value i ≤ q := not_lt.mp fun hlt => hge ((hbest.lt_iff hi).mpr hlt)
      exact ⟨q', hle, List.forall_mem_cons.mpr ⟨hsmaller.trans hle, hmax⟩,
        hchoice.imp_right (And.imp_left (List.mem_cons_of_mem i))⟩

section Choices

variable {samples : Array Sample} {before after : Point} {r : IndexRange}

theorem largestCorner_mem : largestCorner samples before after r = r.start ∨
    largestCorner samples before after r ∈ r.indices :=
  foldl_larger_mem _ r.indices _

/-- No area in a bucket is larger than the one at its choice. -/
theorem largestCorner_max {area : ℕ → ℚ} (hnonneg : ∀ i ∈ r.indices, 0 ≤ area i)
    (harea : ∀ i ∈ r.indices, Denotes (doubledArea before (pointAt samples i) after) (area i))
    {i : ℕ} (hi : i ∈ r.indices) : area i ≤ area (largestCorner samples before after r) := by
  obtain ⟨q, -, hmax, hchoice⟩ := foldl_larger_max harea (r.start, -1.0) denotes_one.neg
  rw [largestCorner_eq]
  rcases hchoice with ⟨-, hq⟩ | ⟨-, hq⟩
  · linarith [hmax i hi, hnonneg i hi]
  · rw [hq]
    exact hmax i hi

end Choices

end Decimation
end Oscilloscope
