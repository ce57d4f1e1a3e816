import Oscilloscope.Envelope.WindowSet
import Oscilloscope.Proofs.Decimation.Buckets

/-!
# Oscilloscope.Proofs.Envelope.Sliding

The pass over the extended period finds the extremes of every window.

* `repeated period phase n` are `n` samples of the endless repetition of a period.
* `Covers`: what a list of candidates is when the pass has come to an index. Every sample of the
  window is beaten by a candidate that is at least as new, so that the oldest candidate is the best
  of the window. `push_covers` is the step, `front_of_covers` is what is read off.
* `slide_eq`: the keys of the pass are those of the windows that end at its indices.
-/

namespace Oscilloscope
namespace Envelope

open Decimation

/-! ## Repetitions -/

/-- `n` samples of the endless repetition of `period`, from index `phase` on. -/
def repeated (period : List Sample) (phase n : Nat) : List Sample :=
  (List.range n).map fun i => period.getD ((i + phase) % period.length) 0

theorem repeated_eq (period : List Sample) (phase n : Nat) :
    repeated period phase n = (List.range' phase n).map (cyclic period.toArray) := by
  rw [repeated, List.range'_eq_map_range, List.map_map]
  apply List.map_congr_left
  intro i _
  simp [cyclic, Nat.add_comm]

@[simp] theorem length_repeated (period : List Sample) (phase n : Nat) :
    (repeated period phase n).length = n := by
  simp [repeated]

theorem mem_repeated {period : List Sample} {phase n : Nat} {x : Sample} :
    x ∈ repeated period phase n ↔
      ∃ i, phase ≤ i ∧ i < phase + n ∧ cyclic period.toArray i = x := by
  simp only [repeated_eq, List.mem_map, List.mem_range'_1, and_assoc]

theorem drop_take_repeated (period : List Sample) {phase n start len : Nat}
    (h : start + len ≤ n) :
    ((repeated period phase n).drop start).take len = repeated period (phase + start) len := by
  have hsplit : List.range' (phase + start) (n - start) =
      List.range' (phase + start) len ++ List.range' (phase + start + len) (n - start - len) := by
    rw [List.range'_append_1]
    congr 1
    omega
  rw [repeated_eq, repeated_eq, ← List.map_drop, ← List.map_take, List.drop_range', Nat.mul_one,
    hsplit, List.take_left' List.length_range']

theorem repeated_mod (period : List Sample) (phase n : Nat) :
    repeated period (phase % period.length) n = repeated period phase n := by
  simp only [repeated, Nat.add_mod_mod]

/-- The key of some samples: of their smallest and their largest. -/
def keyOf (samples : List Sample) : UInt32 :=
  packPair (extremes samples).1 (extremes samples).2

theorem keyOf_of_spans {samples : List Sample} {lo hi : Sample} (h : Spans samples lo hi) :
    keyOf samples = packPair lo hi := by
  rw [keyOf, h.extremes_eq]

/-! ## Candidates -/

/-- Any two samples can be compared, and comparisons chain. -/
structure Ranks (beaten : Sample → Sample → Bool) : Prop where
  total : ∀ a b, beaten a b = true ∨ beaten b a = true
  trans : ∀ {a b c}, beaten a b = true → beaten b c = true → beaten a c = true

theorem Ranks.refl {beaten : Sample → Sample → Bool} (hr : Ranks beaten) (a : Sample) :
    beaten a a = true := by
  rcases hr.total a a with h | h
  · exact h
  · exact h

theorem ranks_least : Ranks fun old new => decide (new ≤ old) where
  total a b := by simpa using Int16.le_total b a
  trans := by
    intro a b c hab hbc
    simp only [decide_eq_true_eq] at hab hbc ⊢
    exact Int16.le_trans hbc hab

theorem ranks_greatest : Ranks fun old new => decide (old ≤ new) where
  total a b := by simpa using Int16.le_total a b
  trans := by
    intro a b c hab hbc
    simp only [decide_eq_true_eq] at hab hbc ⊢
    exact Int16.le_trans hab hbc

/-- The candidates `js`, newest first, stand for all indices from `low` up to, not including,
`high`. -/
structure Covers (period : Array Sample) (beaten : Sample → Sample → Bool) (low high : Nat)
    (js : List Nat) : Prop where
  falling : js.Pairwise fun new old => old < new
  inside : ∀ j ∈ js, low ≤ j ∧ j < high
  unbeaten : js.Pairwise fun new old => beaten (cyclic period old) (cyclic period new) = false
  covered : ∀ j, low ≤ j → j < high →
    ∃ k ∈ js, j ≤ k ∧ beaten (cyclic period j) (cyclic period k) = true

section Candidates

variable {period : Array Sample} {beaten : Sample → Sample → Bool} {low high : Nat}
  {js : List Nat}

theorem covers_nil (period : Array Sample) (beaten : Sample → Sample → Bool) (i : Nat) :
    Covers period beaten i i [] where
  falling := .nil
  inside := by simp
  unbeaten := .nil
  covered := by
    intro j hlow hhigh
    omega

/-- The newest candidate that stays is not beaten, and the older ones are better than it. -/
theorem Covers.stays_unbeaten (hr : Ranks beaten) (h : Covers period beaten low high js) {i : Nat} :
    ∀ j ∈ js.dropWhile fun j => beaten (cyclic period j) (cyclic period i),
      beaten (cyclic period j) (cyclic period i) = false := by
  have hsub : (js.dropWhile fun j => beaten (cyclic period j) (cyclic period i)).Sublist js :=
    List.dropWhile_sublist _
  intro j hj
  cases hstay : js.dropWhile fun j => beaten (cyclic period j) (cyclic period i) with
  | nil =>
    rw [hstay] at hj
    cases hj
  | cons newest older =>
    have hkept : beaten (cyclic period newest) (cyclic period i) = false := by
      have hhead := List.head?_dropWhile_not
        (fun j => beaten (cyclic period j) (cyclic period i)) js
      rw [hstay] at hhead
      simpa using hhead
    rw [hstay] at hj hsub
    rcases List.mem_cons.mp hj with rfl | hj
    · exact hkept
    · have hpair := List.rel_of_pairwise_cons (h.unbeaten.sublist hsub) hj
      have hbetter := (hr.total _ _).resolve_left (Bool.eq_false_iff.mp hpair)
      rw [Bool.eq_false_iff] at hkept ⊢
      intro hbeaten
      exact hkept (hr.trans hbetter hbeaten)

/-- Taking in the next index. -/
theorem Covers.take_in (hr : Ranks beaten) (h : Covers period beaten low high js)
    (hle : low ≤ high) :
    Covers period beaten low (high + 1)
      (high :: js.dropWhile fun j => beaten (cyclic period j) (cyclic period high)) := by
  have hsub : (js.dropWhile fun j => beaten (cyclic period j) (cyclic period high)).Sublist js :=
    List.dropWhile_sublist _
  refine ⟨?_, ?_, ?_, ?_⟩
  · refine List.pairwise_cons.mpr ⟨?_, h.falling.sublist hsub⟩
    intro j hj
    exact (h.inside j (hsub.subset hj)).2
  · intro j hj
    rcases List.mem_cons.mp hj with rfl | hj
    · exact ⟨hle, Nat.lt_succ_self j⟩
    · have hin := h.inside j (hsub.subset hj)
      exact ⟨hin.1, by omega⟩
  · refine List.pairwise_cons.mpr ⟨?_, h.unbeaten.sublist hsub⟩
    exact h.stays_unbeaten hr
  · intro j hlow hhigh
    by_cases hj : j = high
    · exact ⟨high, List.mem_cons_self, by omega, hj ▸ hr.refl _⟩
    · obtain ⟨k, hk, hjk, hbeaten⟩ := h.covered j hlow (by omega)
      rw [← List.takeWhile_append_dropWhile
        (p := fun j => beaten (cyclic period j) (cyclic period high)) (l := js)] at hk
      rcases List.mem_append.mp hk with hgone | hstays
      · have hlost : beaten (cyclic period k) (cyclic period high) = true :=
          List.all_eq_true.mp List.all_takeWhile k hgone
        exact ⟨high, List.mem_cons_self, by omega, hr.trans hbeaten hlost⟩
      · exact ⟨k, List.mem_cons_of_mem _ hstays, hjk, hbeaten⟩

/-- The first index leaves: only the oldest candidate can be it. -/
theorem Covers.drop_oldest (h : Covers period beaten low high (js ++ [low])) :
    Covers period beaten (low + 1) high js := by
  obtain ⟨hfalling, -, hlast⟩ := List.pairwise_append.mp h.falling
  have hsub : js.Sublist (js ++ [low]) := List.sublist_append_left js [low]
  refine ⟨hfalling, ?_, h.unbeaten.sublist hsub, ?_⟩
  · intro j hj
    exact ⟨hlast j hj low (List.mem_singleton.mpr rfl), (h.inside j (hsub.subset hj)).2⟩
  · intro j hlow hhigh
    obtain ⟨k, hk, hjk, hbeaten⟩ := h.covered j (by omega) hhigh
    rcases List.mem_append.mp hk with hk | hk
    · exact ⟨k, hk, hjk, hbeaten⟩
    · have hlow' : k = low := List.mem_singleton.mp hk
      omega

/-- The first index leaves, and no candidate is it. -/
theorem Covers.keep_oldest (h : Covers period beaten low high js) (hnot : low ∉ js) :
    Covers period beaten (low + 1) high js := by
  refine ⟨h.falling, ?_, h.unbeaten, ?_⟩
  · intro j hj
    have hin := h.inside j hj
    have hne : j ≠ low := fun he => hnot (he ▸ hj)
    exact ⟨by omega, hin.2⟩
  · intro j hlow hhigh
    exact h.covered j (by omega) hhigh

/-- The oldest candidate is the best of the window. -/
theorem Covers.oldest (hr : Ranks beaten) (h : Covers period beaten low high js)
    (hlt : low < high) :
    ∃ f, js.getLast? = some f ∧ low ≤ f ∧ f < high ∧
      ∀ j, low ≤ j → j < high → beaten (cyclic period j) (cyclic period f) = true := by
  obtain ⟨k, hk, -, -⟩ := h.covered low (Nat.le_refl low) hlt
  obtain ⟨older, f, rfl⟩ := List.eq_nil_or_concat js |>.resolve_left (List.ne_nil_of_mem hk)
  rw [List.concat_eq_append] at h hk ⊢
  have hf : f ∈ older ++ [f] := List.mem_append_right older (List.mem_singleton.mpr rfl)
  obtain ⟨-, -, hlast⟩ := List.pairwise_append.mp h.unbeaten
  refine ⟨f, List.getLast?_concat, (h.inside f hf).1, (h.inside f hf).2, ?_⟩
  intro j hlow hhigh
  obtain ⟨k, hk, -, hbeaten⟩ := h.covered j hlow hhigh
  rcases List.mem_append.mp hk with hk | hk
  · have hpair := hlast k hk f (List.mem_singleton.mpr rfl)
    have hbetter := (hr.total _ _).resolve_left (Bool.eq_false_iff.mp hpair)
    exact hr.trans hbeaten hbetter
  · rwa [List.mem_singleton.mp hk] at hbeaten

variable {window i : Nat} {c : Candidates}

/-- One step of the pass, for windows of `window` samples that end before index `i`. -/
theorem push_covers (hr : Ranks beaten) (hw : 0 < window)
    (h : Covers period beaten (i - window) i c.newestFirst) :
    Covers period beaten (i + 1 - window) (i + 1) (c.push period window beaten i).newestFirst := by
  have hkept := h.take_in hr (Nat.sub_le i window)
  simp only [Candidates.push]
  generalize i :: c.newestFirst.dropWhile _ = kept at hkept ⊢
  cases hlast : kept.getLast? with
  | none =>
    rw [List.getLast?_eq_none_iff] at hlast
    subst hlast
    obtain ⟨k, hk, -⟩ := hkept.covered i (by omega) (by omega)
    cases hk
  | some oldest =>
    obtain ⟨front, rfl⟩ := List.getLast?_eq_some_iff.mp hlast
    have hin := hkept.inside oldest (List.mem_append_right front (List.mem_singleton.mpr rfl))
    dsimp only
    split
    · rename_i hleft
      have hlow : oldest = i - window := by omega
      have hnext : i + 1 - window = i - window + 1 := by omega
      rw [List.dropLast_concat, hnext]
      rw [hlow] at hkept
      exact hkept.drop_oldest
    · rename_i hleft
      -- The oldest candidate is still in the window; so are the others.
      by_cases hfull : window ≤ i
      · have hnext : i + 1 - window = i - window + 1 := by omega
        rw [hnext]
        apply hkept.keep_oldest
        intro hmem
        obtain ⟨-, -, holder⟩ := List.pairwise_append.mp hkept.falling
        rcases List.mem_append.mp hmem with hmem | hmem
        · have hlt := holder _ hmem oldest (List.mem_singleton.mpr rfl)
          omega
        · have he := List.mem_singleton.mp hmem
          omega
      · have hnext : i + 1 - window = i - window := by omega
        rwa [hnext]

end Candidates

/-! ## The pass -/

/-- The best candidates of a window are its extremes. -/
theorem spans_of_covers {period : List Sample} {window i : Nat} {mins maxs : Candidates}
    (hwindow : window ≤ i) (hw : 0 < window)
    (hmins : Covers period.toArray (fun old new => decide (new ≤ old)) (i - window) i
      mins.newestFirst)
    (hmaxs : Covers period.toArray (fun old new => decide (old ≤ new)) (i - window) i
      maxs.newestFirst) :
    ∃ lo hi, mins.front? = some lo ∧ maxs.front? = some hi ∧
      Spans (repeated period (i - window) window) (cyclic period.toArray lo)
        (cyclic period.toArray hi) := by
  obtain ⟨lo, hlo, hlo', hlo'', hleast⟩ := hmins.oldest ranks_least (by omega)
  obtain ⟨hi, hhi, hhi', hhi'', hgreatest⟩ := hmaxs.oldest ranks_greatest (by omega)
  have hend : i - window + window = i := by omega
  refine ⟨lo, hi, hlo, hhi, ?_, ?_, ?_, ?_⟩
  · exact mem_repeated.mpr ⟨lo, hlo', by omega, rfl⟩
  · exact mem_repeated.mpr ⟨hi, hhi', by omega, rfl⟩
  · intro x hx
    obtain ⟨j, hj, hj', rfl⟩ := mem_repeated.mp hx
    exact of_decide_eq_true (hleast j hj (by omega))
  · intro x hx
    obtain ⟨j, hj, hj', rfl⟩ := mem_repeated.mp hx
    exact of_decide_eq_true (hgreatest j hj (by omega))

/-- The pass gives the key of the window that ends at each index, once that many samples have been
seen. -/
theorem slide_eq {period : List Sample} {window : Nat} (hw : 0 < window) {count i : Nat}
    {mins maxs : Candidates}
    (hmins : Covers period.toArray (fun old new => decide (new ≤ old)) (i - window) i
      mins.newestFirst)
    (hmaxs : Covers period.toArray (fun old new => decide (old ≤ new)) (i - window) i
      maxs.newestFirst) :
    slide period.toArray window count i mins maxs =
      ((List.range' i count).filter fun k => decide (window ≤ k + 1)).map fun k =>
        keyOf (repeated period (k + 1 - window) window) := by
  induction count generalizing i mins maxs with
  | zero => rfl
  | succ count ih =>
    have hmins' := push_covers ranks_least hw hmins
    have hmaxs' := push_covers ranks_greatest hw hmaxs
    have hrest := ih hmins' hmaxs'
    rw [List.range'_succ, slide, hrest]
    by_cases hseen : window ≤ i + 1
    · obtain ⟨lo, hi, hlo, hhi, hspans⟩ := spans_of_covers hseen hw hmins' hmaxs'
      rw [hlo, hhi]
      simp only [if_pos hseen, List.filter_cons, decide_eq_true hseen, if_true, List.map_cons]
      rw [keyOf_of_spans hspans]
    · simp only [if_neg hseen, List.filter_cons, decide_eq_false hseen]
      split
      · rfl
      · rfl

end Envelope
end Oscilloscope
