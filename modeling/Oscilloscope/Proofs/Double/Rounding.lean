import Mathlib
import Oscilloscope.Proofs.Double.Sign

/-!
# Oscilloscope.Proofs.Double.Rounding

What rounding to a double keeps of a number.

A number that is not too small is rounded to the nearest place of the grid on which it has 53 bits.
`Rounds q c` says of the result what all callers need: it is off by at most one part in `2 ^ 53`,
and it lies on the same side as the number of every whole number below `2 ^ 53`. A whole number of
this size is therefore kept.

* `Rounds.of_grid`: the nearest place of a grid is such a result.
* `Locates`: a mantissa and its residual bits say where a number lies. A shift keeps this
  (`Locates.shiftRight`), and the rounded mantissa is the nearest one (`Locates.near_rounded`).
* `Normal`: a datum with its value, for zeros and for mantissas of 53 bits. Packing loses nothing of
  it (`Normal.unpack_pack`).
* `normal_roundWithAccuracy`, `normal_normalize`: the two ways in which results are rounded.
-/

namespace Oscilloscope

open Float.Model Float.Model.UnpackedFloat

/-- `c` can be what is kept of `q`. -/
structure Rounds (q c : ℚ) : Prop where
  near : |c - q| ≤ |q| / 2 ^ 53
  above : ∀ k : ℤ, |k| < 2 ^ 53 → (k : ℚ) ≤ q → k ≤ c
  below : ∀ k : ℤ, |k| < 2 ^ 53 → q ≤ k → c ≤ k

namespace Rounds

variable {q c : ℚ}

theorem refl (q : ℚ) : Rounds q q where
  near := by
    rw [sub_self, abs_zero]
    positivity
  above _ _ hk := hk
  below _ _ hk := hk

theorem neg (h : Rounds q c) : Rounds (-q) (-c) where
  near := by
    rw [abs_neg, neg_sub_neg, abs_sub_comm]
    exact h.near
  above k hk hle := by
    have hbelow := h.below (-k) (by rwa [abs_neg]) (by push_cast; linarith)
    push_cast at hbelow
    linarith
  below k hk hle := by
    have habove := h.above (-k) (by rwa [abs_neg]) (by push_cast; linarith)
    push_cast at habove
    linarith

theorem eq_intCast {k : ℤ} (hk : |k| < 2 ^ 53) (h : Rounds k c) : c = k :=
  le_antisymm (h.below k hk le_rfl) (h.above k hk le_rfl)

theorem eq_zero (h : Rounds 0 c) : c = 0 := by
  exact_mod_cast eq_intCast (k := 0) (by norm_num) (by exact_mod_cast h)

theorem le_add (h : Rounds q c) : |c| ≤ |q| + |q| / 2 ^ 53 := by
  linarith [h.near, abs_sub_abs_le_abs_sub c q]

theorem sub_le (h : Rounds q c) : |q| - |q| / 2 ^ 53 ≤ |c| := by
  linarith [h.near, abs_sub_abs_le_abs_sub q c, abs_sub_comm q c]

/-! ### Grids -/

theorem le_near {z : ℚ} {r k : ℤ} (hr : |(r : ℚ) - z| ≤ 1 / 2) (hk : (k : ℚ) ≤ z) : k ≤ r := by
  have hlt : (k : ℚ) < (r + 1 : ℤ) := by
    push_cast
    linarith [(abs_le.mp hr).1]
  exact Int.lt_add_one_iff.mp (by exact_mod_cast hlt)

theorem near_le {z : ℚ} {r k : ℤ} (hr : |(r : ℚ) - z| ≤ 1 / 2) (hk : z ≤ k) : r ≤ k := by
  have hlt : (r : ℚ) < (k + 1 : ℤ) := by
    push_cast
    linarith [(abs_le.mp hr).2]
  exact Int.lt_add_one_iff.mp (by exact_mod_cast hlt)

/-- Whole numbers are places of a fine grid. -/
theorem intCast_eq_place {t : ℤ} (ht : t ≤ 0) (k : ℤ) :
    (k : ℚ) = (k * 2 ^ (-t).toNat : ℤ) * 2 ^ t := by
  have hexp : ((-t).toNat : ℤ) = -t := Int.toNat_of_nonneg (by omega)
  push_cast
  rw [mul_assoc, ← zpow_natCast, hexp, ← zpow_add₀ (by norm_num), neg_add_cancel, zpow_zero,
    mul_one]

/-- On a coarse grid, the places with 53 bits are beyond all whole numbers below `2 ^ 53`. -/
theorem le_coarse {t : ℤ} (ht : 0 < t) {w : ℚ} (hw : 2 ^ 52 ≤ w) : 2 ^ 53 ≤ w * 2 ^ t := by
  have htwo : (2 : ℚ) ≤ 2 ^ t := by
    calc (2 : ℚ) = 2 ^ (1 : ℤ) := by norm_num
      _ ≤ 2 ^ t := zpow_le_zpow_right₀ (by norm_num) ht
  calc (2 : ℚ) ^ 53 = 2 ^ 52 * 2 := by norm_num
    _ ≤ w * 2 ^ t := mul_le_mul hw htwo (by norm_num) (by linarith)

theorem of_grid {z : ℚ} {r : ℕ} (t : ℤ) (hz : 2 ^ 52 ≤ z) (hr : |(r : ℚ) - z| ≤ 1 / 2) :
    Rounds (z * 2 ^ t) (r * 2 ^ t) := by
  have hunit : (0 : ℚ) < 2 ^ t := by positivity
  have hr52 : (2 : ℚ) ^ 52 ≤ r := by
    have hint := le_near (r := r) (k := 2 ^ 52) hr (by push_cast; exact hz)
    exact_mod_cast hint
  refine ⟨?_, ?_, ?_⟩
  · rw [← sub_mul, abs_mul, abs_mul, abs_of_pos hunit, abs_of_pos (by linarith : 0 < z),
      le_div_iff₀ (by norm_num)]
    have hwide : |(r : ℚ) - z| * 2 ^ 53 ≤ z := by linarith
    calc |(r : ℚ) - z| * 2 ^ t * 2 ^ 53 = |(r : ℚ) - z| * 2 ^ 53 * 2 ^ t := by ring
      _ ≤ z * 2 ^ t := by gcongr
  · intro k hk hle
    rcases le_or_gt t 0 with ht | ht
    · rw [intCast_eq_place ht k] at hle ⊢
      have hplace := le_near (r := r) hr (le_of_mul_le_mul_right hle hunit)
      gcongr
      exact_mod_cast hplace
    · have hsmall : (k : ℚ) < 2 ^ 53 := by exact_mod_cast (abs_lt.mp hk).2
      linarith [le_coarse ht hr52]
  · intro k hk hle
    rcases le_or_gt t 0 with ht | ht
    · rw [intCast_eq_place ht k] at hle ⊢
      have hplace := near_le (r := r) hr (le_of_mul_le_mul_right hle hunit)
      gcongr
      exact_mod_cast hplace
    · have hsmall : (k : ℚ) < 2 ^ 53 := by exact_mod_cast (abs_lt.mp hk).2
      linarith [le_coarse ht hz]

end Rounds

/-! ## Mantissas -/

/-- What is left of a number behind its mantissa, in units of the mantissa. -/
inductive Leaves : Accuracy → ℚ → Prop where
  | exact : Leaves .exact 0
  | below {d : ℚ} (hpos : 0 < d) (hlt : d < 1 / 2) : Leaves (.inexact .lt) d
  | half : Leaves (.inexact .eq) (1 / 2)
  | above {d : ℚ} (hgt : 1 / 2 < d) (hlt : d < 1) : Leaves (.inexact .gt) d

theorem Leaves.bounds {a : Accuracy} {d : ℚ} (h : Leaves a d) : 0 ≤ d ∧ d < 1 := by
  cases h with
  | exact => norm_num
  | below hpos hlt => constructor <;> linarith
  | half => norm_num
  | above hgt hlt => constructor <;> linarith

theorem Leaves.near_rounded {a : Accuracy} {d : ℚ} (h : Leaves a d) (m : ℕ) :
    |(a.roundToNearestEven m : ℚ) - (m + d)| ≤ 1 / 2 := by
  rw [abs_le]
  cases h with
  | exact => simp [Accuracy.roundToNearestEven]
  | below hpos hlt =>
    simp only [Accuracy.roundToNearestEven]
    constructor <;> linarith
  | half =>
    simp only [Accuracy.roundToNearestEven]
    rcases Nat.mod_two_eq_zero_or_one m with hbit | hbit
    · rw [hbit]
      push_cast
      constructor <;> linarith
    · rw [hbit]
      push_cast
      constructor <;> linarith
  | above hgt hlt =>
    simp only [Accuracy.roundToNearestEven]
    push_cast
    constructor <;> linarith

/-- One more bit goes behind the mantissa. Of the bits that were there, it only counts whether one
of them was set. -/
theorem Leaves.halve {m : ℕ} {round sticky : Bool} {d : ℚ}
    (h : Leaves (ExtendedMantissa.accuracy ⟨m, round, sticky⟩) d) (m' : ℕ) (bit : Bool) :
    Leaves (ExtendedMantissa.accuracy ⟨m', bit, round || sticky⟩) ((d + bit.toNat) / 2) := by
  cases hrest : round || sticky with
  | false =>
    obtain ⟨rfl, rfl⟩ := Bool.or_eq_false_iff.mp hrest
    cases h
    cases bit with
    | false =>
      rw [Bool.toNat_false, Nat.cast_zero, add_zero, zero_div]
      exact .exact
    | true =>
      rw [Bool.toNat_true, Nat.cast_one, zero_add]
      exact .half
  | true =>
    obtain ⟨-, hlt⟩ := h.bounds
    have hpos : 0 < d := by
      cases round <;> cases sticky <;> cases h
      · cases hrest
      · assumption
      · norm_num
      · linarith
    cases bit with
    | false =>
      rw [Bool.toNat_false, Nat.cast_zero]
      exact .below (by linarith) (by linarith)
    | true =>
      rw [Bool.toNat_true, Nat.cast_one]
      exact .above (by linarith) (by linarith)

/-- The mantissa and the residual bits say where `y` lies. -/
def Locates (em : ExtendedMantissa) (y : ℚ) : Prop := Leaves em.accuracy (y - em.mantissa)

namespace Locates

variable {em : ExtendedMantissa} {y : ℚ}

theorem of_leaves {m : ℕ} {a : Accuracy} {d : ℚ} (h : Leaves a d) :
    Locates (.ofMantissaAndAccuracy m a) (m + d) := by
  cases h <;> simp only [Locates, ExtendedMantissa.ofMantissaAndAccuracy,
    ExtendedMantissa.accuracy, add_sub_cancel_left]
  · exact .exact
  · exact .below ‹_› ‹_›
  · exact .half
  · exact .above ‹_› ‹_›

theorem shiftRightOne (h : Locates em y) : Locates em.shiftRightOne (y / 2) := by
  obtain ⟨m, round, sticky⟩ := em
  have hsplit : (m : ℚ) = 2 * (m / 2 : ℕ) + (m % 2 : ℕ) := by
    exact_mod_cast (Nat.div_add_mod m 2).symm
  have hbit : (m % 2 != 0).toNat = m % 2 := by
    rcases Nat.mod_two_eq_zero_or_one m with hbit | hbit <;> rw [hbit] <;> rfl
  have hhalf := Leaves.halve h (m / 2) (m % 2 != 0)
  rw [hbit, show (y - (m : ℚ) + (m % 2 : ℕ)) / 2 = y / 2 - (m / 2 : ℕ) by linarith] at hhalf
  exact hhalf

theorem shiftRight (h : Locates em y) (k : ℕ) : Locates (em >>> k) (y / 2 ^ k) := by
  change Locates (k.repeat ExtendedMantissa.shiftRightOne em) _
  induction k with
  | zero =>
    rw [pow_zero, div_one]
    exact h
  | succ k ih =>
    rw [pow_succ, ← div_div]
    exact ih.shiftRightOne

theorem bounds (h : Locates em y) : em.mantissa ≤ y ∧ y < em.mantissa + 1 := by
  obtain ⟨hle, hlt⟩ := Leaves.bounds h
  constructor <;> linarith

theorem floor (h : Locates em y) : ⌊y⌋₊ = em.mantissa := by
  obtain ⟨hle, hlt⟩ := h.bounds
  rw [Nat.floor_eq_iff (le_trans (Nat.cast_nonneg _) hle)]
  exact ⟨hle, hlt⟩

theorem near_rounded (h : Locates em y) : |(em.roundedMantissa : ℚ) - y| ≤ 1 / 2 := by
  have hnear := Leaves.near_rounded h em.mantissa
  rwa [add_sub_cancel] at hnear

end Locates

/-! ## Data -/

/-- The number with the given sign and magnitude. -/
def signed : Sign → ℚ → ℚ
  | .positive, q => q
  | .negative, q => -q

theorem abs_signed (s : Sign) (q : ℚ) : |signed s q| = |q| := by
  cases s with
  | positive => rfl
  | negative => exact abs_neg q

theorem Rounds.signed {q c : ℚ} (s : Sign) (h : Rounds q c) : Rounds (signed s q) (signed s c) := by
  cases s with
  | positive => exact h
  | negative => exact h.neg

/-- The datum is a zero, or its mantissa has all of its 53 bits, and its value is `q`. -/
inductive Normal : UnpackedFloat → ℚ → Prop where
  | zero (s : Sign) : Normal (.zero s) 0
  | finite (s : Sign) {m : ℕ} {e : ℤ} (hm : 0 < m) (hlow : 2 ^ 52 ≤ m) (hhigh : m < 2 ^ 53)
      (hmin : -1074 ≤ e) (hmax : e ≤ 971) : Normal (.finite s m e hm) (signed s (m * 2 ^ e))

theorem log2_eq {m : ℕ} (hlow : 2 ^ 52 ≤ m) (hhigh : m < 2 ^ 53) : m.log2 = 52 :=
  (Nat.log2_eq_iff (by omega)).mpr ⟨hlow, hhigh⟩

theorem toNat_one_append (m : BitVec 52) : (1#1 ++ m).toNat = 2 ^ 52 + m.toNat := by
  rw [BitVec.toNat_append, Nat.shiftLeft_eq, Nat.or_comm, BitVec.toNat_ofNat]
  exact (Nat.or_two_pow_eq_add_of_lt m.isLt).trans (Nat.add_comm _ _)

theorem unpack_packComponents {s : Sign} {e : BitVec 11} {m : BitVec 52} (hzero : e ≠ 0#11)
    (hones : e ≠ -1#11) (hm : 0 < (1#1 ++ m).toNat) :
    UnpackedFloat.unpack Format.binary64 (packComponents Format.binary64 s e m) =
      .finite s (1#1 ++ m).toNat (e.toNat - 1075) hm := by
  have hsign : Sign.ofBitVec s.toBitVec = s := by cases s <;> rfl
  simp only [UnpackedFloat.unpack, unpackExponent_packComponents, unpackMantissa_packComponents,
    unpackSign_packComponents, hsign, if_neg hones, if_neg hzero]
  rfl

theorem pack_finite {s : Sign} {m : ℕ} {e : ℤ} (hm : 0 < m) (hlog : m.log2 = 52)
    (hmax : e ≤ 971) :
    UnpackedFloat.pack Format.binary64 (.finite s m e hm) =
      packComponents Format.binary64 s (BitVec.ofNat 11 (e + 1075).toNat) (BitVec.ofNat 52 m) := by
  have hfits : ¬ 2 ^ 11 ≤ (e + (1023 : ℕ) + (52 : ℕ)).toNat + 1 := by omega
  have hsum : e + (1023 : ℕ) + (52 : ℕ) = e + 1075 := by omega
  unfold UnpackedFloat.pack
  rw [hlog]
  exact (if_neg hfits).trans ((if_pos rfl).trans (by rw [← hsum]; rfl))

theorem Normal.unpack_pack {u : UnpackedFloat} {q : ℚ} (h : Normal u q) :
    UnpackedFloat.unpack Format.binary64 (UnpackedFloat.pack Format.binary64 u) = u := by
  cases h with
  | zero s => cases s <;> rfl
  | @finite s m e hm hlow hhigh hmin hmax =>
    have hexp : (BitVec.ofNat 11 (e + 1075).toNat).toNat = (e + 1075).toNat := by
      rw [BitVec.toNat_ofNat, Nat.mod_eq_of_lt (by omega)]
    have hmant : (1#1 ++ BitVec.ofNat 52 m).toNat = m := by
      rw [toNat_one_append, BitVec.toNat_ofNat]
      omega
    rw [pack_finite hm (log2_eq hlow hhigh) hmax, unpack_packComponents ?_ ?_ (by omega)]
    · simp only [hexp, hmant, UnpackedFloat.finite.injEq, true_and]
      omega
    · intro hzero
      have hnat : (e + 1075).toNat = 0 := hexp.symm.trans (congrArg BitVec.toNat hzero)
      omega
    · intro hones
      have hnat : (e + 1075).toNat = 2047 := hexp.symm.trans (congrArg BitVec.toNat hones)
      omega

/-! ## Rounding -/

/-- The number is zero, or neither very small nor very large. -/
def InRange (q : ℚ) : Prop := q ≠ 0 → 2 ^ (-200 : ℤ) ≤ |q| ∧ |q| ≤ 2 ^ (200 : ℤ)

section Exponents

variable {m : ℕ} {e : ℤ}

theorem targetExponent_eq {l : ℕ} (hlog : m.log2 = l) (hmin : -1022 ≤ l + e) :
    Format.binary64.targetExponent (totalExponent m e) = l + e - 52 := by
  have hbits : ((Format.binary64.mantissaBits : ℕ) : ℤ) = 53 := rfl
  have hleast : Format.binary64.minExponent = -1074 := rfl
  rw [Format.targetExponent, totalExponent, hlog, hbits, hleast]
  omega

theorem le_targetExponent (hm : 2 ^ 52 ≤ m) (e : ℤ) :
    e ≤ Format.binary64.targetExponent (totalExponent m e) := by
  have hlog : 52 ≤ m.log2 := (Nat.le_log2 (by omega)).mpr hm
  have hbits : ((Format.binary64.mantissaBits : ℕ) : ℤ) = 53 := rfl
  rw [Format.targetExponent, totalExponent, hbits]
  omega

theorem two_zpow_add (l : ℕ) (t : ℤ) : (2 : ℚ) ^ (l + t) = 2 ^ l * 2 ^ t := by
  rw [zpow_add₀ (by norm_num), zpow_natCast]

/-- A number lies between the two powers of two that its mantissa names. -/
theorem binade (hm : 0 < m) (e : ℤ) {d : ℚ} (hd : 0 ≤ d) (hlt : d < 1) :
    2 ^ (m.log2 + e : ℤ) ≤ (m + d) * 2 ^ e ∧ (m + d) * 2 ^ e < 2 ^ (m.log2 + e + 1 : ℤ) := by
  have hunit : (0 : ℚ) < 2 ^ e := by positivity
  have hbelow : (2 : ℚ) ^ m.log2 ≤ m + d := by
    have hle : ((2 ^ m.log2 : ℕ) : ℚ) ≤ m := by exact_mod_cast Nat.log2_self_le hm.ne'
    push_cast at hle
    linarith
  have habove : m + d < (2 : ℚ) ^ (m.log2 + 1) := by
    have hle : ((m + 1 : ℕ) : ℚ) ≤ (2 ^ (m.log2 + 1) : ℕ) := by exact_mod_cast Nat.lt_log2_self
    push_cast at hle
    linarith
  constructor
  · rw [two_zpow_add]
    gcongr
  · rw [add_right_comm, ← Nat.cast_add_one, two_zpow_add]
    gcongr

end Exponents

/-- The rounded mantissa has 53 bits, or it is the first number that has 54 and is shifted once
more. -/
theorem normal_shift (s : Sign) {r : ℕ} {t : ℤ} (hlow : 2 ^ 52 ≤ r) (hhigh : r ≤ 2 ^ 53)
    (hmin : -1074 ≤ t) (hmax : t < 971) :
    ∃ m e, ∃ hm : 0 < m, (shiftToTargetExponent Format.binary64 r t .exact).1.mantissa = m ∧
      (shiftToTargetExponent Format.binary64 r t .exact).2 = e ∧
      Normal (.finite s m e hm) (signed s (r * 2 ^ t)) := by
  rcases Nat.lt_or_eq_of_le hhigh with hlt | rfl
  · have htarget := targetExponent_eq (e := t) (log2_eq hlow hlt) (by omega)
    have hnone : (Format.binary64.targetExponent (totalExponent r t) - t).toNat = 0 := by omega
    refine ⟨r, t, by omega, ?_, ?_, .finite s _ hlow hlt hmin hmax.le⟩
    · simp only [shiftToTargetExponent, shiftToExponent, hnone]
      rfl
    · simp only [shiftToTargetExponent, shiftToExponent, hnone]
      omega
  · have htarget := targetExponent_eq (e := t) (Nat.log2_two_pow (n := 53)) (by omega)
    have hone : (Format.binary64.targetExponent (totalExponent (2 ^ 53) t) - t).toNat = 1 := by
      omega
    have hvalue : (((2 ^ 53 : ℕ) : ℚ) * 2 ^ t) = (2 ^ 52 : ℕ) * 2 ^ (t + 1) := by
      rw [zpow_add₀ (by norm_num)]
      push_cast
      ring
    rw [hvalue]
    refine ⟨2 ^ 52, t + 1, by norm_num, ?_, ?_, .finite s _ le_rfl (by norm_num) (by omega) hmax⟩
    · simp only [shiftToTargetExponent, shiftToExponent, hone]
      rfl
    · simp only [shiftToTargetExponent, shiftToExponent, hone]
      rfl

theorem roundWithAccuracy_eq (s : Sign) {m : ℕ} {e : ℤ} {a : Accuracy} {em : ExtendedMantissa}
    {t : ℤ} (hfirst : shiftToTargetExponent Format.binary64 m e a = (em, t)) {m' : ℕ} {e' : ℤ}
    (hpos : 0 < m')
    (hmant : (shiftToTargetExponent Format.binary64 em.roundedMantissa t .exact).1.mantissa = m')
    (hexp : (shiftToTargetExponent Format.binary64 em.roundedMantissa t .exact).2 = e') :
    roundWithAccuracy Format.binary64 s m e a = .finite s m' e' hpos := by
  subst hmant hexp
  rw [roundWithAccuracy, hfirst]
  exact dif_neg hpos.ne'

/-- A number in range is rounded to 53 bits. The mantissa has to come with at least as many, or it
is on the last grid already. -/
theorem normal_roundWithAccuracy (s : Sign) {m : ℕ} {e : ℤ} {a : Accuracy} {d : ℚ}
    (hleaves : Leaves a d) (hm : 0 < m)
    (hfine : e ≤ Format.binary64.targetExponent (totalExponent m e))
    (hmin : 2 ^ (-200 : ℤ) ≤ (m + d) * 2 ^ e) (hmax : (m + d) * 2 ^ e ≤ 2 ^ (200 : ℤ)) :
    ∃ c, Normal (roundWithAccuracy Format.binary64 s m e a) (signed s c) ∧
      Rounds ((m + d) * 2 ^ e) c := by
  obtain ⟨hd, hd1⟩ := hleaves.bounds
  obtain ⟨hbelow, habove⟩ := binade hm e hd hd1
  have hexpmin : -200 < (m.log2 : ℤ) + e + 1 :=
    (zpow_lt_zpow_iff_right₀ (show (1 : ℚ) < 2 by norm_num)).mp (hmin.trans_lt habove)
  have hexpmax : (m.log2 : ℤ) + e ≤ 200 :=
    (zpow_le_zpow_iff_right₀ (show (1 : ℚ) < 2 by norm_num)).mp (hbelow.trans hmax)
  have htarget := targetExponent_eq (e := e) rfl (by omega : -1022 ≤ (m.log2 : ℤ) + e)
  -- The first shift, by `k`, leaves the bits before the point of `(m + d) / 2 ^ k`.
  obtain ⟨k, hk⟩ : ∃ k : ℕ, (Format.binary64.targetExponent (totalExponent m e) - e).toNat = k :=
    ⟨_, rfl⟩
  have hfirst : shiftToTargetExponent Format.binary64 m e a =
      (ExtendedMantissa.ofMantissaAndAccuracy m a >>> k, e + k) := by
    rw [shiftToTargetExponent, shiftToExponent, hk]
  have hnear := ((Locates.of_leaves (m := m) hleaves).shiftRight k).near_rounded
  generalize ExtendedMantissa.ofMantissaAndAccuracy m a >>> k = em at hfirst hnear
  have hsame : (m + d) * (2 : ℚ) ^ e = (m + d) / 2 ^ k * 2 ^ (e + k : ℤ) := by
    rw [add_comm e, two_zpow_add]
    field_simp
  rw [hsame] at hbelow habove ⊢
  have hunit : (0 : ℚ) < 2 ^ (e + k : ℤ) := by positivity
  have hlow : (2 : ℚ) ^ 52 ≤ (m + d) / 2 ^ k := by
    rw [show (m.log2 + e : ℤ) = (52 : ℕ) + (e + k) by omega, two_zpow_add] at hbelow
    exact le_of_mul_le_mul_right hbelow hunit
  have hhigh : (m + d) / 2 ^ k ≤ (2 : ℚ) ^ 53 := by
    rw [show (m.log2 + e + 1 : ℤ) = (53 : ℕ) + (e + k) by omega, two_zpow_add] at habove
    exact (lt_of_mul_lt_mul_right habove hunit.le).le
  have hrlow := Rounds.le_near (r := em.roundedMantissa) (k := 2 ^ 52) hnear
    (by push_cast; exact hlow)
  have hrhigh := Rounds.near_le (r := em.roundedMantissa) (k := 2 ^ 53) hnear
    (by push_cast; exact hhigh)
  obtain ⟨m', e', hpos, hmant, hexp, hnormal⟩ := normal_shift s (t := e + k)
    (by exact_mod_cast hrlow) (by exact_mod_cast hrhigh) (by omega) (by omega)
  exact ⟨_, roundWithAccuracy_eq s hfirst hpos hmant hexp ▸ hnormal, .of_grid _ hlow hnear⟩

/-! ## Normalizing -/

theorem shiftLeft_pos {m : ℕ} (hm : 0 < m) (k : ℕ) : 0 < m <<< k := by
  rw [Nat.shiftLeft_eq]
  positivity

theorem log2_shiftLeft {m : ℕ} (hm : 0 < m) (k : ℕ) : (m <<< k).log2 = m.log2 + k := by
  induction k with
  | zero => rfl
  | succ k ih =>
    rw [Nat.shiftLeft_succ, Nat.log2_two_mul (shiftLeft_pos hm k).ne', ih, Nat.add_assoc]

theorem cast_shiftLeft (m k : ℕ) (e : ℤ) :
    ((m <<< k : ℕ) : ℚ) * 2 ^ (e - k) = m * 2 ^ e := by
  rw [Nat.shiftLeft_eq, zpow_sub₀ (by norm_num), zpow_natCast]
  push_cast
  field_simp

theorem normal_round (s : Sign) {m : ℕ} (hm : 0 < m) (e : ℤ)
    (hmin : (2 : ℚ) ^ (-200 : ℤ) ≤ m * 2 ^ e) (hmax : (m : ℚ) * 2 ^ e ≤ 2 ^ (200 : ℤ)) :
    ∃ c, Normal (UnpackedFloat.round Format.binary64 s m e) (signed s c) ∧
      Rounds (m * 2 ^ e) c := by
  obtain ⟨k, hk⟩ : ∃ k : ℕ, (e - Format.binary64.targetExponent (totalExponent m e)).toNat = k :=
    ⟨_, rfl⟩
  have hsame : totalExponent (m <<< k) (e - k) = totalExponent m e := by
    rw [totalExponent, totalExponent, log2_shiftLeft hm]
    push_cast
    ring
  have hround : UnpackedFloat.round Format.binary64 s m e =
      roundWithAccuracy Format.binary64 s (m <<< k) (e - k) .exact := by
    rw [UnpackedFloat.round, decreaseExponent, hk]
  rw [← cast_shiftLeft m k e] at hmin hmax ⊢
  have hresult := normal_roundWithAccuracy s Leaves.exact (shiftLeft_pos hm k) (e := e - k)
    (by rw [hsame]; omega) (by rwa [add_zero]) (by rwa [add_zero])
  rwa [add_zero, ← hround] at hresult

theorem normal_normalize {m : ℤ} {e : ℤ} (zeroSign : Sign) (h : InRange (m * 2 ^ e)) :
    ∃ c, Normal (UnpackedFloat.normalize Format.binary64 m e zeroSign) c ∧
      Rounds (m * 2 ^ e) c := by
  have hunit : (0 : ℚ) < 2 ^ e := by positivity
  have habs : |(m : ℚ) * 2 ^ e| = m.natAbs * 2 ^ e := by
    rw [abs_mul, abs_of_pos hunit, Nat.cast_natAbs, Int.cast_abs]
  unfold UnpackedFloat.normalize
  rcases lt_trichotomy m 0 with hneg | rfl | hpos
  · have hrange := h (mul_ne_zero (by exact_mod_cast hneg.ne) hunit.ne')
    rw [habs] at hrange
    obtain ⟨c, hnormal, hrounds⟩ :=
      normal_round .negative (Int.natAbs_pos.mpr hneg.ne) e hrange.1 hrange.2
    rw [Int.compare_eq_lt.mpr hneg, show (-m).toNat = m.natAbs by omega]
    refine ⟨-c, hnormal, ?_⟩
    rw [← habs, abs_of_neg (mul_neg_of_neg_of_pos (by exact_mod_cast hneg) hunit)] at hrounds
    simpa only [neg_neg] using hrounds.neg
  · rw [Int.cast_zero, zero_mul]
    exact ⟨0, .zero zeroSign, .refl 0⟩
  · have hrange := h (mul_ne_zero (by exact_mod_cast hpos.ne') hunit.ne')
    rw [habs] at hrange
    obtain ⟨c, hnormal, hrounds⟩ :=
      normal_round .positive (Int.natAbs_pos.mpr hpos.ne') e hrange.1 hrange.2
    rw [Int.compare_eq_gt.mpr hpos, show m.toNat = m.natAbs by omega]
    refine ⟨c, hnormal, ?_⟩
    rwa [← habs, abs_of_pos (mul_pos (by exact_mod_cast hpos) hunit)] at hrounds

end Oscilloscope
