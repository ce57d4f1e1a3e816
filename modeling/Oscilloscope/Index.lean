/-!
# Oscilloscope.Index

Counts and indices are natural numbers. A conversion to an index word is taken modulo `indexLimit`.
A sum or a product that is too large for its word has no value, and what computes it aborts: `index?`
for indices, `word?` for 64-bit words.
-/

namespace Oscilloscope

def indexLimit : Nat := 0x10000000000000000

/-- `n` as an index. -/
def index? (n : Nat) : Option Nat := if n < indexLimit then some n else none

/-- `n` as a 64-bit word. -/
def word? (n : Nat) : Option UInt64 := if n < UInt64.size then some (UInt64.ofNat n) else none

theorem index?_of_lt {n : Nat} (h : n < indexLimit) : index? n = some n := if_pos h

theorem index?_of_le {n : Nat} (h : indexLimit ≤ n) : index? n = none :=
  if_neg (Nat.not_lt.mpr h)

theorem word?_eq_some {n : Nat} {w : UInt64} : word? n = some w ↔ w.toNat = n := by
  unfold word?
  split
  · rename_i hlt
    rw [Option.some.injEq]
    constructor
    · rintro rfl
      exact UInt64.toNat_ofNat_of_lt' hlt
    · rintro rfl
      exact UInt64.ofNat_toNat
  · rename_i hge
    constructor
    · intro h
      cases h
    · rintro rfl
      exact absurd w.toNat_lt hge

theorem word?_eq_none {n : Nat} : word? n = none ↔ UInt64.size ≤ n := by
  unfold word?
  split
  · rename_i hlt
    exact ⟨fun h => (by cases h), fun h => absurd hlt (Nat.not_lt.mpr h)⟩
  · rename_i hge
    exact ⟨fun _ => Nat.not_lt.mp hge, fun _ => rfl⟩

end Oscilloscope
