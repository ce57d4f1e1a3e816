import Oscilloscope.Envelope.Verifier
import Oscilloscope.Proofs.Envelope.Sliding

/-!
# Oscilloscope.Proofs.Envelope.WindowSet

The window set is the set of keys of all cyclic windows, in the order that the search needs.

* `mem_windowSet`: the keys are those of the windows that start anywhere in the repetition.
* `sorted_windowSet`: they ascend.
* `search_of_mem`: a key of an ascending array is found.
-/

namespace Oscilloscope
namespace Envelope

open Decimation

/-! ## Order and repetitions -/

theorem mem_dropRepeats {keys : List UInt32} {key : UInt32} :
    key ∈ dropRepeats keys ↔ key ∈ keys := by
  fun_induction dropRepeats keys with
  | case1 => rfl
  | case2 k => rfl
  | case3 k rest ih => simp [ih]
  | case4 k l rest hne ih => simp [ih]

theorem sorted_dropRepeats {keys : List UInt32} (h : keys.Pairwise fun a b => a ≤ b) :
    (dropRepeats keys).Pairwise fun a b => a ≤ b := by
  fun_induction dropRepeats keys with
  | case1 => exact h
  | case2 k => exact h
  | case3 k rest ih => exact ih (List.pairwise_cons.mp h).2
  | case4 k l rest hne ih =>
    obtain ⟨hk, hrest⟩ := List.pairwise_cons.mp h
    refine List.pairwise_cons.mpr ⟨?_, ih hrest⟩
    intro b hb
    exact hk b (mem_dropRepeats.mp hb)

theorem sorted_mergeSort (keys : List UInt32) :
    (keys.mergeSort fun a b => decide (a ≤ b)).Pairwise fun a b => a ≤ b := by
  have hsorted : (keys.mergeSort fun a b => decide (a ≤ b)).Pairwise
      fun a b => decide (a ≤ b) = true := by
    apply List.pairwise_mergeSort
    · intro a b c hab hbc
      simp only [decide_eq_true_eq] at hab hbc ⊢
      exact UInt32.le_trans hab hbc
    · intro a b
      simpa using UInt32.le_total a b
  exact hsorted.imp fun hab => of_decide_eq_true hab

theorem sorted_windowSet (period : List Sample) (window : Nat) :
    (windowSet period window).Pairwise fun a b => a ≤ b := by
  rw [windowSet]
  split
  · exact .nil
  · split
    · exact List.pairwise_singleton _ _
    · exact sorted_dropRepeats (sorted_mergeSort _)

/-! ## Windows -/

section Windows

variable {period : List Sample} {window : Nat}

theorem wholeExtremes_spans (hne : period ≠ []) :
    Spans period (wholeExtremes period).1 (wholeExtremes period).2 := by
  obtain ⟨s, rest, rfl⟩ := List.exists_cons_of_ne_nil hne
  obtain ⟨hlow, hleast⟩ := foldl_min rest s
  obtain ⟨hhigh, hgreatest⟩ := foldl_max rest s
  exact ⟨hlow, hhigh, hleast, hgreatest⟩

theorem cyclic_mem (hne : period ≠ []) (i : Nat) : cyclic period.toArray i ∈ period := by
  have hlt : i % period.length < period.length :=
    Nat.mod_lt _ (List.length_pos_iff.mpr hne)
  have hget : cyclic period.toArray i = period[i % period.length] := by
    simp [cyclic, hlt]
  rw [hget]
  exact List.getElem_mem hlt

/-- A window at least as long as the period has exactly the samples of the period. -/
theorem mem_repeated_of_length_le (hne : period ≠ []) (hlong : period.length ≤ window)
    (start : Nat) {x : Sample} : x ∈ repeated period start window ↔ x ∈ period := by
  refine ⟨?_, ?_⟩
  · intro hx
    obtain ⟨i, -, -, rfl⟩ := mem_repeated.mp hx
    exact cyclic_mem hne i
  · intro hx
    obtain ⟨j, hj, rfl⟩ := List.mem_iff_getElem.mp hx
    -- The first index from the start on that falls on place `j` of the period.
    have hstart : start % period.length < period.length := Nat.mod_lt _ (by omega)
    have hsplit := Nat.mod_add_div start period.length
    refine mem_repeated.mpr ⟨start + (j + (period.length - start % period.length)) % period.length,
      by omega, ?_, ?_⟩
    · have hlt : (j + (period.length - start % period.length)) % period.length < period.length :=
        Nat.mod_lt _ (by omega)
      omega
    · have hplace : (start + (j + (period.length - start % period.length)) % period.length) %
          period.length = j := by
        rw [Nat.add_mod_mod, Nat.add_comm, ← Nat.add_mod_mod]
        have hsum : j + (period.length - start % period.length) + start % period.length =
            j + period.length := by omega
        rw [hsum, Nat.add_mod_right, Nat.mod_eq_of_lt hj]
      simp [cyclic, hplace, hj]

theorem keyOf_repeated_of_length_le (hne : period ≠ []) (hlong : period.length ≤ window)
    (start : Nat) : keyOf (repeated period start window) =
      packPair (wholeExtremes period).1 (wholeExtremes period).2 := by
  have hwhole := wholeExtremes_spans hne
  have hmem {x : Sample} := mem_repeated_of_length_le hne hlong start (x := x)
  refine keyOf_of_spans ⟨hmem.mpr hwhole.low_mem, hmem.mpr hwhole.high_mem, ?_, ?_⟩
  · intro x hx
    exact hwhole.low_le x (hmem.mp hx)
  · intro x hx
    exact hwhole.le_high x (hmem.mp hx)

theorem mem_slide (hw : 0 < window) {key : UInt32} :
    key ∈ slide period.toArray window (period.length + window - 1) 0 ⟨[]⟩ ⟨[]⟩ ↔
      ∃ start < period.length, key = keyOf (repeated period start window) := by
  have hmins := covers_nil period.toArray (fun old new => decide (new ≤ old)) 0
  have hmaxs := covers_nil period.toArray (fun old new => decide (old ≤ new)) 0
  rw [slide_eq hw (by rwa [Nat.zero_sub]) (by rwa [Nat.zero_sub])]
  simp only [List.mem_map, List.mem_filter, List.mem_range'_1, decide_eq_true_eq]
  refine ⟨?_, ?_⟩
  · rintro ⟨k, ⟨⟨-, hk⟩, hseen⟩, rfl⟩
    exact ⟨k + 1 - window, by omega, rfl⟩
  · rintro ⟨start, hstart, rfl⟩
    refine ⟨start + window - 1, ⟨⟨by omega, by omega⟩, by omega⟩, ?_⟩
    have hfirst : start + window - 1 + 1 - window = start := by omega
    rw [hfirst]

theorem mem_windowSet (hne : period ≠ []) (hw : 0 < window) {key : UInt32} :
    key ∈ windowSet period window ↔ ∃ start, key = keyOf (repeated period start window) := by
  rw [windowSet, if_neg (by simp [hne]; omega)]
  split
  · rename_i hlong
    simp only [List.mem_singleton]
    refine ⟨?_, ?_⟩
    · rintro rfl
      exact ⟨0, (keyOf_repeated_of_length_le hne hlong 0).symm⟩
    · rintro ⟨start, rfl⟩
      exact keyOf_repeated_of_length_le hne hlong start
  · rw [mem_dropRepeats, List.mem_mergeSort, mem_slide hw]
    refine ⟨?_, ?_⟩
    · rintro ⟨start, -, rfl⟩
      exact ⟨start, rfl⟩
    · rintro ⟨start, rfl⟩
      refine ⟨start % period.length, Nat.mod_lt _ (List.length_pos_iff.mpr hne), ?_⟩
      rw [repeated_mod]

end Windows

/-! ## Search -/

theorem searchBetween_of_getElem {keys : Array UInt32} {key : UInt32} {low high i : Nat}
    (hsorted : keys.toList.Pairwise fun a b => a ≤ b) (hlow : low ≤ i) (hhigh : i < high)
    (hbound : high ≤ keys.size) (hi : keys[i]? = some key) :
    searchBetween keys key low high = true := by
  obtain ⟨hsize, hget⟩ := Array.getElem?_eq_some_iff.mp hi
  have hle : ∀ a b (ha : a < keys.size) (hb : b < keys.size), a ≤ b → keys[a] ≤ keys[b] := by
    intro a b ha hb hab
    rcases Nat.lt_or_eq_of_le hab with hlt | rfl
    · exact List.pairwise_iff_getElem.mp hsorted a b ha hb hlt
    · exact UInt32.le_refl _
  fun_induction searchBetween keys key low high with
  | case1 low high inside middle hnone =>
    rw [Array.getElem?_eq_none_iff] at hnone
    omega
  | case2 => rfl
  | case3 low high inside middle k hsome hne hless ih =>
    obtain ⟨hmiddle, rfl⟩ := Array.getElem?_eq_some_iff.mp hsome
    refine ih ?_ hhigh hbound
    -- At or before the middle the keys are too small.
    apply Nat.lt_of_not_le
    intro hbefore
    have hsmall := hle i middle hsize hmiddle hbefore
    rw [hget] at hsmall
    exact UInt32.not_le.mpr hless hsmall
  | case4 low high inside middle k hsome hne hless ih =>
    obtain ⟨hmiddle, rfl⟩ := Array.getElem?_eq_some_iff.mp hsome
    refine ih hlow ?_ (by omega)
    apply Nat.lt_of_not_le
    intro hafter
    have hlarge := hle middle i hmiddle hsize hafter
    rw [hget] at hlarge
    exact hne (UInt32.le_antisymm hlarge (UInt32.not_lt.mp hless))
  | case5 low high outside => omega

/-- A key of an ascending array is found. -/
theorem search_of_mem {keys : List UInt32} {key : UInt32}
    (hsorted : keys.Pairwise fun a b => a ≤ b) (hmem : key ∈ keys) :
    search keys.toArray key = true := by
  obtain ⟨i, hi, hget⟩ := List.mem_iff_getElem.mp hmem
  refine searchBetween_of_getElem hsorted (Nat.zero_le i) (by simpa using hi) (Nat.le_refl _) ?_
  simp [hi, hget]

/-- The key of a cyclic window is found in its window set. -/
theorem search_windowSet {period : List Sample} {window : Nat} (hne : period ≠ [])
    (hw : 0 < window) (start : Nat) :
    search (windowSet period window).toArray (keyOf (repeated period start window)) = true :=
  search_of_mem (sorted_windowSet period window) ((mem_windowSet hne hw).mpr ⟨start, rfl⟩)

end Envelope
end Oscilloscope
