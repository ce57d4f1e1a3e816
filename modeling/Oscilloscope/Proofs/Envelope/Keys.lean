import Oscilloscope.Proofs.Envelope.WindowSet

/-!
# Oscilloscope.Proofs.Envelope.Keys

The keys of pairs, and the window set as the ascending list of the keys of all windows.

A key is the number with two digits to the base `2 ^ 16`, the smaller sample before the larger, each
counted from the lowest sample. So keys have the order of the pairs.

* `toNat_packPair`: the number that a key is.
* `packPair_inj` and `packPair_lt_iff`: a key stands for one pair, and keys are ordered like pairs.
* `ascending_windowSet`: no key is there twice.
* `windowSet_lists_windows`: all of it, for every period and every window.
-/

namespace Oscilloscope
namespace Envelope

open Decimation

/-! ## Keys -/

/-- Flipping the highest of 16 bits adds or takes away `2 ^ 15`. -/
theorem xor_high_bit {n : Nat} (hn : n < 65536) :
    n ^^^ 32768 = if n < 32768 then n + 32768 else n - 32768 := by
  have hdiv : (n ^^^ 32768) / 32768 = n / 32768 ^^^ 1 := Nat.xor_div_two_pow (n := 15)
  have hmod : (n ^^^ 32768) % 32768 = n % 32768 ^^^ 0 := Nat.xor_mod_two_pow (n := 15)
  rw [Nat.xor_zero] at hmod
  split
  · have hlow : n / 32768 = 0 := by omega
    rw [hlow] at hdiv
    have hone : (0 : Nat) ^^^ 1 = 1 := rfl
    omega
  · have hhigh : n / 32768 = 1 := by omega
    rw [hhigh] at hdiv
    have hzero : (1 : Nat) ^^^ 1 = 0 := rfl
    omega

theorem toInt_eq (s : Sample) :
    s.toInt = if 2 * s.toUInt16.toNat < 65536 then (s.toUInt16.toNat : Int)
      else (s.toUInt16.toNat : Int) - 65536 :=
  BitVec.toInt_eq_toNat_cond s.toBitVec

theorem biased_lt (s : Sample) : (biased s).toNat < 65536 := by
  rw [biased, UInt16.toNat_toUInt32]
  exact UInt16.toNat_lt _

theorem toNat_biased (s : Sample) : ((biased s).toNat : Int) = s.toInt + 32768 := by
  have hlt : s.toUInt16.toNat < 65536 := s.toUInt16.toNat_lt
  have hbits : (biased s).toNat = s.toUInt16.toNat ^^^ 32768 := by
    rw [biased, UInt16.toNat_toUInt32, UInt16.toNat_xor]
    rfl
  rw [hbits, xor_high_bit hlt, toInt_eq]
  split <;> split <;> omega

theorem toNat_packPair (lo hi : Sample) :
    ((packPair lo hi).toNat : Int) = (lo.toInt + 32768) * 65536 + (hi.toInt + 32768) := by
  have hlo := toNat_biased lo
  have hhi := toNat_biased hi
  have hlow := biased_lt lo
  have hhigh : (biased hi).toNat < 2 ^ 16 := biased_lt hi
  have hshift : (biased lo <<< 16).toNat = (biased lo).toNat <<< 16 := by
    rw [UInt32.toNat_shiftLeft, show (16 : UInt32).toNat % 32 = 16 from rfl, Nat.shiftLeft_eq]
    omega
  -- The halves do not overlap, so that `|||` is a sum.
  rw [packPair, UInt32.toNat_or, hshift, ← Nat.shiftLeft_add_eq_or_of_lt hhigh, Nat.shiftLeft_eq]
  omega

section Order

variable {lo hi lo' hi' : Sample}

theorem packPair_lt_iff : packPair lo hi < packPair lo' hi' ↔
    lo.toInt < lo'.toInt ∨ lo.toInt = lo'.toInt ∧ hi.toInt < hi'.toInt := by
  have hkey := toNat_packPair lo hi
  have hkey' := toNat_packPair lo' hi'
  -- The lower digits are below the base.
  have hdigit := toNat_biased hi
  have hdigit' := toNat_biased hi'
  have hlow := biased_lt hi
  have hlow' := biased_lt hi'
  rw [UInt32.lt_iff_toNat_lt]
  omega

theorem packPair_inj : packPair lo hi = packPair lo' hi' ↔ lo = lo' ∧ hi = hi' := by
  constructor
  · intro heq
    have hnot : ¬ packPair lo hi < packPair lo' hi' := by
      rw [heq]
      exact UInt32.lt_irrefl _
    have hnot' : ¬ packPair lo' hi' < packPair lo hi := by
      rw [heq]
      exact UInt32.lt_irrefl _
    rw [packPair_lt_iff] at hnot hnot'
    exact ⟨Int16.toInt.inj (by omega), Int16.toInt.inj (by omega)⟩
  · rintro ⟨rfl, rfl⟩
    rfl

end Order

/-! ## The window set -/

theorem ascending_dropRepeats {keys : List UInt32} (h : keys.Pairwise fun a b => a ≤ b) :
    (dropRepeats keys).Pairwise fun a b => a < b := by
  fun_induction dropRepeats keys with
  | case1 => exact .nil
  | case2 k => exact List.pairwise_singleton _ _
  | case3 k rest ih => exact ih (List.pairwise_cons.mp h).2
  | case4 k l rest hne ih =>
    obtain ⟨hk, hrest⟩ := List.pairwise_cons.mp h
    have hl : k < l := UInt32.lt_of_le_of_ne (hk l List.mem_cons_self) hne
    refine List.pairwise_cons.mpr ⟨?_, ih hrest⟩
    intro b hb
    rcases List.mem_cons.mp (mem_dropRepeats.mp hb) with rfl | hb
    · exact hl
    · exact UInt32.lt_of_lt_of_le hl (List.rel_of_pairwise_cons hrest hb)

theorem ascending_windowSet (period : List Sample) (window : Nat) :
    (windowSet period window).Pairwise fun a b => a < b := by
  rw [windowSet]
  split
  · exact .nil
  · split
    · exact List.pairwise_singleton _ _
    · exact ascending_dropRepeats (sorted_mergeSort _)

theorem mem_windowSet_iff_spans {period : List Sample} {window : Nat} (hne : period ≠ [])
    (hw : 0 < window) {key : UInt32} :
    key ∈ windowSet period window ↔ ∃ start < period.length, ∃ lo hi,
      Spans (repeated period start window) lo hi ∧ key = packPair lo hi := by
  rw [mem_windowSet hne hw]
  constructor
  · rintro ⟨start, rfl⟩
    have hlt : start % period.length < period.length :=
      Nat.mod_lt _ (List.length_pos_iff.mpr hne)
    have hsome : repeated period start window ≠ [] := by
      apply List.ne_nil_of_length_pos
      rwa [length_repeated]
    refine ⟨start % period.length, hlt, _, _, ?_, rfl⟩
    rw [repeated_mod]
    exact spans_extremes hsome
  · rintro ⟨start, -, lo, hi, hspans, rfl⟩
    exact ⟨start, (keyOf_of_spans hspans).symm⟩

/-- **The window set is the list of all windows.** For a period that is not empty and any window
of at least one sample, shorter than the period or not:

* the keys ascend strictly;
* they are the keys of the smallest and the largest sample of the windows that start at a place of
  the period and go on with its repetition;
* a key stands for one pair;
* keys are ordered like pairs of signed samples, by the smaller and then by the larger. -/
theorem windowSet_lists_windows {period : List Sample} {window : Nat} (hne : period ≠ [])
    (hw : 0 < window) :
    (windowSet period window).Pairwise (fun a b => a < b) ∧
    (∀ key, key ∈ windowSet period window ↔ ∃ start < period.length, ∃ lo hi,
      Spans (repeated period start window) lo hi ∧ key = packPair lo hi) ∧
    (∀ lo hi lo' hi', packPair lo hi = packPair lo' hi' ↔ lo = lo' ∧ hi = hi') ∧
    (∀ lo hi lo' hi', packPair lo hi < packPair lo' hi' ↔
      lo.toInt < lo'.toInt ∨ lo.toInt = lo'.toInt ∧ hi.toInt < hi'.toInt) :=
  ⟨ascending_windowSet period window, fun _ => mem_windowSet_iff_spans hne hw,
    fun _ _ _ _ => packPair_inj, fun _ _ _ _ => packPair_lt_iff⟩

/-- A window of two over three samples sees the pair of the last and the first. -/
theorem windowSet_lists_windows_around :
    packPair (-4) 7 ∈ windowSet [7, 2, -4] 2 ∧ packPair 2 2 ∉ windowSet [7, 2, -4] 2 ∧
      packPair (-4) 2 < packPair (-4) 7 := by
  obtain ⟨-, hmem, hinj, hlt⟩ :=
    @windowSet_lists_windows [7, 2, -4] 2 (by decide) (by decide)
  have hle : (-4 : Sample) ≤ 7 := by decide
  have hlast : Spans [-4, 7] (-4) 7 := ⟨by simp, by simp, by simp [hle], by simp [hle]⟩
  refine ⟨(hmem _).mpr ⟨2, by decide, -4, 7, hlast, rfl⟩, ?_, ?_⟩
  · rw [hmem]
    rintro ⟨start, hstart, lo, hi, hspans, hkey⟩
    obtain ⟨rfl, rfl⟩ := (hinj _ _ _ _).mp hkey
    have hall : ∀ start < 3, ∃ x ∈ repeated [7, 2, -4] start 2, x ≠ 2 := by decide
    obtain ⟨x, hx, hne⟩ := hall start hstart
    exact hne (Int16.le_antisymm (hspans.le_high x hx) (hspans.low_le x hx))
  · exact (hlt _ _ _ _).mpr (by decide)

end Envelope
end Oscilloscope
