import Mathlib.Data.List.Forall2

/-!
# Oscilloscope.Proofs.Least

The least of some counts: what all of them have.

* `least`: `0` if there are none.
* `le_least`: it is the greatest lower bound.
* `least_eq`, `min_least_congr`: equal counts, and counts that are equal up to a limit.
-/

namespace Oscilloscope

def least : List Nat → Nat
  | [] => 0
  | n :: rest => rest.foldl min n

theorem le_foldl_min (k n : Nat) (rest : List Nat) :
    k ≤ rest.foldl min n ↔ k ≤ n ∧ ∀ m ∈ rest, k ≤ m := by
  induction rest generalizing n with
  | nil => simp
  | cons m rest ih =>
    rw [List.foldl_cons, ih, Nat.le_min, List.forall_mem_cons, and_assoc]

variable {counts : List Nat}

theorem le_least (hne : counts ≠ []) (k : Nat) : k ≤ least counts ↔ ∀ n ∈ counts, k ≤ n := by
  cases counts with
  | nil => exact absurd rfl hne
  | cons n rest => rw [least, le_foldl_min, List.forall_mem_cons]

/-- A number with the same lower bounds is the least one. -/
theorem least_eq_of_forall (hne : counts ≠ []) {n : Nat}
    (h : ∀ k, k ≤ n ↔ ∀ m ∈ counts, k ≤ m) : least counts = n :=
  Nat.le_antisymm ((h _).mpr ((le_least hne _).mp (Nat.le_refl _)))
    ((le_least hne _).mpr ((h _).mp (Nat.le_refl _)))

theorem least_le {n : Nat} (hmem : n ∈ counts) : least counts ≤ n :=
  (le_least (List.ne_nil_of_mem hmem) _).mp (Nat.le_refl _) n hmem

theorem least_eq (hne : counts ≠ []) {n : Nat} (hall : ∀ m ∈ counts, m = n) :
    least counts = n := by
  apply least_eq_of_forall hne
  intro k
  constructor
  · intro hk m hm
    rwa [hall m hm]
  · intro hk
    obtain ⟨m, hm⟩ := List.exists_mem_of_ne_nil counts hne
    exact hall m hm ▸ hk m hm

theorem min_foldl_congr {limit : Nat} {ns ms : List Nat}
    (h : List.Forall₂ (fun n m => min limit n = min limit m) ns ms) {n m : Nat}
    (heq : min limit n = min limit m) :
    min limit (ns.foldl min n) = min limit (ms.foldl min m) := by
  induction h generalizing n m with
  | nil => exact heq
  | cons hnext _ ih =>
    rw [List.foldl_cons, List.foldl_cons]
    apply ih
    omega

theorem min_least_congr {limit : Nat} {ns ms : List Nat}
    (h : List.Forall₂ (fun n m => min limit n = min limit m) ns ms) :
    min limit (least ns) = min limit (least ms) := by
  cases h with
  | nil => rfl
  | cons heq hrest => exact min_foldl_congr hrest heq

end Oscilloscope
