import Oscilloscope.Proofs.Envelope.Keys

/-!
# Oscilloscope.Proofs.Envelope.Tolerance

When a pair of extremes is accepted.

The search over shifted keys, one for every shift of the smaller and of the larger sample, is the
plain distance: it accepts a pair exactly when a pair of the window sets differs from it by at most
the tolerance on both sides. At the ends of the sample range the shifts that leave it are passed
over, and no sample is lost by that.

* `search_windowSet_iff`: a key is found exactly when it is in the set.
* `mem_near_iff`: the samples near a sample are those within the tolerance.
* `withinTolerance_iff`: both together.
* `take_pairs`: which two samples are checked for a bucket.
-/

namespace Oscilloscope

theorem Sample.ofInt?_eq_some_iff {v : Int} {s : Sample} : Sample.ofInt? v = some s ↔ s.toInt = v := by
  have hlow : Sample.lowest.toInt ≤ s.toInt := s.minValue_le_toInt
  have hhigh : s.toInt ≤ Sample.highest.toInt := s.toInt_le
  constructor
  · intro h
    rw [Sample.ofInt?] at h
    split at h
    · rename_i hrange
      cases h
      have hlowest : Sample.lowest.toInt = -2 ^ 15 := Int16.toInt_minValue
      have hhighest : Sample.highest.toInt = 2 ^ 15 - 1 := Int16.toInt_maxValue
      exact Int16.toInt_ofInt_of_le (by omega) (by omega)
    · cases h
  · rintro rfl
    rw [Sample.ofInt?, if_pos ⟨hlow, hhigh⟩, Int16.ofInt_toInt]

namespace Envelope

/-! ## Search -/

theorem mem_of_searchBetween {keys : Array UInt32} {key : UInt32} {low high : Nat}
    (h : searchBetween keys key low high = true) : key ∈ keys.toList := by
  fun_induction searchBetween keys key low high with
  | case1 => cases h
  | case2 low high inside middle hsome =>
    exact List.mem_of_getElem? (by simpa using hsome)
  | case3 low high inside middle k hsome hne hless ih => exact ih h
  | case4 low high inside middle k hsome hne hless ih => exact ih h
  | case5 => cases h

theorem search_windowSet_iff {period : List Sample} {window : Nat} {key : UInt32} :
    search (windowSet period window).toArray key = true ↔ key ∈ windowSet period window := by
  constructor
  · intro h
    exact mem_of_searchBetween h
  · intro h
    exact search_of_mem (sorted_windowSet period window) h

/-! ## Tolerance -/

/-- The two samples differ by at most the tolerance. -/
def Within (t : UInt16) (a b : Sample) : Prop := (a.toInt - b.toInt).natAbs ≤ t.toNat

instance (t : UInt16) (a b : Sample) : Decidable (Within t a b) :=
  inferInstanceAs (Decidable (_ ≤ _))

theorem Within.refl (t : UInt16) (s : Sample) : Within t s s := by
  simp [Within]

theorem mem_shifts {t : UInt16} {d : Int} : d ∈ shifts t ↔ d.natAbs ≤ t.toNat := by
  simp only [shifts, List.mem_map, List.mem_range]
  constructor
  · rintro ⟨i, hi, rfl⟩
    omega
  · intro hd
    exact ⟨(d + t.toNat).toNat, by omega, by omega⟩

theorem mem_near_iff {t : UInt16} {s l : Sample} : l ∈ near t s ↔ Within t l s := by
  simp only [near, List.mem_filterMap, mem_shifts, Sample.ofInt?_eq_some_iff, Within]
  constructor
  · rintro ⟨d, hd, hl⟩
    rw [hl]
    omega
  · intro h
    exact ⟨l.toInt - s.toInt, h, by omega⟩

theorem withinTolerance_iff {t : UInt16} {shorter longer : Array UInt32} {lo hi : Sample} :
    withinTolerance t shorter longer lo hi = true ↔ ∃ l h, Within t l lo ∧ Within t h hi ∧
      (search shorter (packPair l h) = true ∨ search longer (packPair l h) = true) := by
  simp only [withinTolerance, List.any_eq_true, mem_near_iff, Bool.or_eq_true]
  constructor
  · rintro ⟨l, hl, h, hh, hfound⟩
    exact ⟨l, h, hl, hh, hfound⟩
  · rintro ⟨l, h, hl, hh, hfound⟩
    exact ⟨l, hl, h, hh, hfound⟩

/-- A pair that is in a set is within every tolerance of it. -/
theorem withinTolerance_of_search (t : UInt16) {shorter longer : Array UInt32} {lo hi : Sample}
    (h : search shorter (packPair lo hi) = true ∨ search longer (packPair lo hi) = true) :
    withinTolerance t shorter longer lo hi = true :=
  withinTolerance_iff.mpr ⟨lo, hi, .refl t lo, .refl t hi, h⟩

/-! ## Pairs -/

theorem take_pairs {samples : List Sample} {n : Nat} (h : 2 * n ≤ samples.length) :
    (pairs samples).take n =
      (List.range n).map fun b => (samples.getD (2 * b) 0, samples.getD (2 * b + 1) 0) := by
  induction n generalizing samples with
  | zero => rfl
  | succ n ih =>
    cases samples with
    | nil =>
      simp only [List.length_nil] at h
      omega
    | cons lo rest =>
      cases rest with
      | nil =>
        simp only [List.length_cons, List.length_nil] at h
        omega
      | cons hi rest =>
        have hrest : 2 * n ≤ rest.length := by
          simp only [List.length_cons] at h
          omega
        rw [pairs, List.take_succ_cons, ih hrest, List.range_succ_eq_map, List.map_cons,
          List.map_map]
        rfl

end Envelope
end Oscilloscope
