import Mathlib
import Oscilloscope.Sample
import Oscilloscope.Proofs.Double.Rounding

/-!
# Oscilloscope.Proofs.Double.Arithmetic

The operations on doubles, as operations on numbers.

`Denotes x q` says that the double `x` has the value `q`. Each operation gives what rounding keeps
of the exact result, for results that are zero or in range; a change of sign and a comparison are
exact.

* `Denotes.add`, `Denotes.sub`, `Denotes.mul`, `Denotes.div`: rounded results.
* `Denotes.neg`, `Denotes.abs`, `Denotes.lt_iff`: exact results.
* `Denotes.toNat_toUInt64`: the conversion to a word cuts the fraction off.
* `denotes_ofNat`, `Sample.denotes_toFloat`: counts below `2 ^ 53` and samples are doubles.
-/

namespace Oscilloscope

open Float.Model Float.Model.UnpackedFloat

variable {u v : UnpackedFloat} {a b : ℚ}

/-! ## Signs -/

theorem signed_mul (s t : Sign) (a b : ℚ) : signed (s * t) (a * b) = signed s a * signed t b := by
  cases s <;> cases t
  · exact (neg_mul_neg a b).symm
  · exact (neg_mul a b).symm
  · exact (mul_neg a b).symm
  · rfl

theorem signed_div (s t : Sign) (a b : ℚ) : signed (s / t) (a / b) = signed s a / signed t b := by
  cases s <;> cases t
  · exact (neg_div_neg_eq a b).symm
  · exact (neg_div b a).symm
  · exact (div_neg a).symm
  · rfl

theorem signed_neg (s : Sign) (a : ℚ) : signed (-s) a = -signed s a := by
  cases s
  · exact (neg_neg a).symm
  · rfl

theorem InRange.of_signed {s : Sign} {q : ℚ} (h : InRange (signed s q)) (hq : 0 < q) :
    2 ^ (-200 : ℤ) ≤ q ∧ q ≤ 2 ^ (200 : ℤ) := by
  have habs : |signed s q| = q := by rw [abs_signed, abs_of_pos hq]
  have hrange := h (abs_pos.mp (by rwa [habs]))
  rwa [habs] at hrange

theorem InRange.of_le {q : ℚ} (hmin : 1 / 8 ≤ |q|) (hmax : |q| ≤ 2 ^ 200) : InRange q := by
  refine fun _ => ⟨le_trans ?_ hmin, by exact_mod_cast hmax⟩
  calc (2 : ℚ) ^ (-200 : ℤ) ≤ 2 ^ (-3 : ℤ) := zpow_le_zpow_right₀ (by norm_num) (by norm_num)
    _ = 1 / 8 := by norm_num

namespace Normal

theorem neg (hu : Normal u a) : Normal u.neg (-a) := by
  cases hu with
  | zero s =>
    rw [neg_zero]
    exact .zero (-s)
  | @finite s m e hm hlow hhigh hmin hmax =>
    rw [← signed_neg]
    exact .finite (-s) hm hlow hhigh hmin hmax

theorem abs (hu : Normal u a) : Normal u.abs |a| := by
  cases hu with
  | zero s =>
    rw [abs_zero]
    exact .zero .positive
  | @finite s m e hm hlow hhigh hmin hmax =>
    rw [abs_signed, abs_of_nonneg (by positivity)]
    exact .finite .positive hm hlow hhigh hmin hmax

/-! ## Products and quotients -/

theorem mul (hu : Normal u a) (hv : Normal v b) (h : InRange (a * b)) :
    ∃ c, Normal (UnpackedFloat.mul Format.binary64 u v) c ∧ Rounds (a * b) c := by
  cases hu with
  | zero s =>
    rw [zero_mul]
    cases hv with
    | zero t => exact ⟨0, .zero _, .refl 0⟩
    | finite t => exact ⟨0, .zero _, .refl 0⟩
  | @finite s m e hm hlow hhigh hmin hmax =>
    cases hv with
    | zero t =>
      rw [mul_zero]
      exact ⟨0, .zero _, .refl 0⟩
    | @finite t m' e' hm' hlow' hhigh' hmin' hmax' =>
      have hproduct : (m : ℚ) * 2 ^ e * (m' * 2 ^ e') = ((m * m' : ℕ) + 0) * 2 ^ (e + e') := by
        rw [zpow_add₀ (by norm_num)]
        push_cast
        ring
      rw [← signed_mul] at h ⊢
      have hrange := h.of_signed (by positivity)
      rw [hproduct] at hrange ⊢
      obtain ⟨c, hnormal, hrounds⟩ := normal_roundWithAccuracy (s * t) Leaves.exact
        (Nat.mul_pos hm hm') (le_targetExponent (hlow.trans (Nat.le_mul_of_pos_right m hm')) _)
        hrange.1 hrange.2
      exact ⟨_, hnormal, hrounds.signed _⟩

end Normal

theorem leaves_accuracyOfFraction {num den : ℕ} (hlt : num < den) :
    Leaves (accuracyOfFraction num den) (num / den : ℚ) := by
  have hden : (0 : ℚ) < den := by exact_mod_cast Nat.zero_lt_of_lt hlt
  have hone : (num / den : ℚ) < 1 := (div_lt_one hden).mpr (by exact_mod_cast hlt)
  unfold accuracyOfFraction
  split
  · rename_i hzero
    rw [hzero, Nat.cast_zero, zero_div]
    exact .exact
  · rename_i hpos
    have hnum : (0 : ℚ) < num := by exact_mod_cast Nat.pos_of_ne_zero hpos
    rcases Nat.lt_trichotomy (2 * num) den with hless | heq | hmore
    · have hcast : (2 * num : ℚ) < den := by exact_mod_cast hless
      rw [Nat.compare_eq_lt.mpr hless]
      exact .below (by positivity) ((div_lt_div_iff₀ hden (by norm_num)).mpr (by linarith))
    · have hcast : (2 * num : ℚ) = den := by exact_mod_cast heq
      have hhalf : (num / den : ℚ) = 1 / 2 := by
        rw [div_eq_div_iff hden.ne' (by norm_num)]
        linarith
      rw [Nat.compare_eq_eq.mpr heq, hhalf]
      exact .half
    · have hcast : (den : ℚ) < 2 * num := by exact_mod_cast hmore
      rw [Nat.compare_eq_gt.mpr hmore]
      exact .above ((div_lt_div_iff₀ (by norm_num) hden).mpr (by linarith)) hone

section Quotients

variable {m m' : ℕ} {e e' : ℤ}

/-- The long division is carried 53 places further than the operands. -/
theorem divCore_eq (hlog : m.log2 = 52) (hlog' : m'.log2 = 52) (hexp : -1021 ≤ e - e') :
    divCore Format.binary64 m e m' e' =
      (m <<< 53 / m', e - e' - 53, accuracyOfFraction (m <<< 53 % m') m') := by
  have hbits : ((Format.binary64.mantissaBits : ℕ) : ℤ) = 53 := rfl
  have hleast : Format.binary64.minExponent = -1074 := rfl
  have htarget : min (e - e') (Format.binary64.targetExponent
      (totalExponent m e - totalExponent m' e')) = e - e' - 53 := by
    rw [Format.targetExponent, totalExponent, totalExponent, hlog, hlog', hbits, hleast]
    omega
  have hshift : (e - e' - (e - e' - 53)).toNat = 53 := by omega
  rw [divCore, htarget, hshift]

theorem cast_quotient (hm' : 0 < m') (k : ℕ) (t : ℤ) :
    ((m <<< k / m' : ℕ) + (m <<< k % m' : ℕ) / m') * (2 : ℚ) ^ (t - k) = m / m' * 2 ^ t := by
  have hdivisor : (m' : ℚ) ≠ 0 := by exact_mod_cast hm'.ne'
  have hsplit : (m' : ℚ) * (m <<< k / m' : ℕ) + (m <<< k % m' : ℕ) = (m <<< k : ℕ) := by
    exact_mod_cast Nat.div_add_mod _ _
  calc ((m <<< k / m' : ℕ) + (m <<< k % m' : ℕ) / m') * (2 : ℚ) ^ (t - k)
      = (m' * (m <<< k / m' : ℕ) + (m <<< k % m' : ℕ)) * 2 ^ (t - k) / m' := by field_simp
    _ = m / m' * 2 ^ t := by rw [hsplit, cast_shiftLeft, mul_div_right_comm]

theorem lt_of_quotient (hlow' : 2 ^ 52 ≤ m') (hhigh : m < 2 ^ 53) {t : ℤ}
    (hmin : (2 : ℚ) ^ (-200 : ℤ) ≤ m / m' * 2 ^ t) : -201 < t := by
  have hdivisor : (0 : ℚ) < m' := by exact_mod_cast (by omega : 0 < m')
  have htwo : (m / m' : ℚ) < 2 := by
    rw [div_lt_iff₀ hdivisor]
    exact_mod_cast (by omega : m < 2 * m')
  have hlt : (2 : ℚ) ^ (-200 : ℤ) < 2 ^ (1 + t) := by
    calc (2 : ℚ) ^ (-200 : ℤ) ≤ m / m' * 2 ^ t := hmin
      _ < 2 * 2 ^ t := by gcongr
      _ = 2 ^ (1 + t) := by rw [zpow_add₀ (by norm_num), zpow_one]
  have hexp := (zpow_lt_zpow_iff_right₀ (by norm_num)).mp hlt
  omega

end Quotients

namespace Normal

theorem div (hu : Normal u a) (hv : Normal v b) (hb : b ≠ 0) (h : InRange (a / b)) :
    ∃ c, Normal (UnpackedFloat.div Format.binary64 u v) c ∧ Rounds (a / b) c := by
  cases hv with
  | zero t => exact absurd rfl hb
  | @finite t m' e' hm' hlow' hhigh' hmin' hmax' =>
    cases hu with
    | zero s =>
      rw [zero_div]
      exact ⟨0, .zero _, .refl 0⟩
    | @finite s m e hm hlow hhigh hmin hmax =>
      have hquotient : (m : ℚ) * 2 ^ e / (m' * 2 ^ e') = m / m' * 2 ^ (e - e') := by
        rw [zpow_sub₀ (by norm_num), mul_div_mul_comm]
      rw [← signed_div, hquotient] at h ⊢
      have hrange := h.of_signed (by positivity)
      have hexp := lt_of_quotient hlow' hhigh hrange.1
      have hwide : 2 ^ 52 ≤ m <<< 53 / m' := by
        rw [Nat.le_div_iff_mul_le hm', Nat.shiftLeft_eq]
        omega
      rw [← cast_quotient hm' 53] at hrange ⊢
      obtain ⟨c, hnormal, hrounds⟩ := normal_roundWithAccuracy (s / t)
        (leaves_accuracyOfFraction (Nat.mod_lt _ hm')) (by omega) (le_targetExponent hwide _)
        hrange.1 hrange.2
      refine ⟨_, ?_, hrounds.signed _⟩
      rw [UnpackedFloat.div, divCore_eq (log2_eq hlow hhigh) (log2_eq hlow' hhigh') (by omega)]
      exact hnormal

end Normal

/-! ## Sums and differences -/

/-- The operand, written with the smaller exponent of the two. -/
theorem cast_decreaseExponent (s : Sign) (m : ℕ) {e t : ℤ} (ht : t ≤ e) :
    (s.apply (decreaseExponent m e t).1 : ℚ) * 2 ^ t = signed s (m * 2 ^ e) := by
  have hexp : t = e - ((e - t).toNat : ℕ) := by omega
  have hvalue := cast_shiftLeft m (e - t).toNat e
  rw [← hexp] at hvalue
  rw [decreaseExponent, ← hvalue]
  cases s with
  | positive => rfl
  | negative =>
    rw [Sign.apply, Int.cast_neg, neg_mul]
    rfl

namespace Normal

theorem add (hu : Normal u a) (hv : Normal v b) (h : InRange (a + b)) :
    ∃ c, Normal (UnpackedFloat.add Format.binary64 u v) c ∧ Rounds (a + b) c := by
  cases hu with
  | zero s =>
    rw [zero_add]
    cases hv with
    | zero t => cases s <;> cases t <;> exact ⟨0, .zero _, .refl 0⟩
    | finite t hm hlow hhigh hmin hmax => exact ⟨_, .finite t hm hlow hhigh hmin hmax, .refl _⟩
  | @finite s m e hm hlow hhigh hmin hmax =>
    cases hv with
    | zero t =>
      rw [add_zero]
      exact ⟨_, .finite s hm hlow hhigh hmin hmax, .refl _⟩
    | @finite t m' e' hm' hlow' hhigh' hmin' hmax' =>
      rw [← cast_decreaseExponent s m (min_le_left e e'),
        ← cast_decreaseExponent t m' (min_le_right e e'), ← add_mul, ← Int.cast_add] at h ⊢
      exact normal_normalize .positive h

/-- A zero of either sign adds nothing. -/
theorem add_zero (hu : Normal u a) (hv : Normal v b) (hb : b = 0) :
    Normal (UnpackedFloat.add Format.binary64 u v) a := by
  cases hv with
  | zero t =>
    cases hu with
    | zero s => cases s <;> cases t <;> exact .zero _
    | finite s hm hlow hhigh hmin hmax => exact .finite s hm hlow hhigh hmin hmax
  | @finite t m e hm =>
    have hpos : (0 : ℚ) < m * 2 ^ e := by positivity
    rw [← abs_eq_zero, abs_signed, abs_of_pos hpos] at hb
    exact absurd hb hpos.ne'

theorem sub (hu : Normal u a) (hv : Normal v b) (h : InRange (a - b)) :
    ∃ c, Normal (UnpackedFloat.sub Format.binary64 u v) c ∧ Rounds (a - b) c := by
  cases hu with
  | zero s =>
    cases hv with
    | zero t =>
      rw [sub_zero]
      cases s <;> cases t <;> exact ⟨0, .zero _, .refl 0⟩
    | finite t hm hlow hhigh hmin hmax =>
      rw [zero_sub]
      exact ⟨_, (Normal.finite t hm hlow hhigh hmin hmax).neg, .refl _⟩
  | @finite s m e hm hlow hhigh hmin hmax =>
    cases hv with
    | zero t =>
      rw [sub_zero]
      exact ⟨_, .finite s hm hlow hhigh hmin hmax, .refl _⟩
    | @finite t m' e' hm' hlow' hhigh' hmin' hmax' =>
      rw [← cast_decreaseExponent s m (min_le_left e e'),
        ← cast_decreaseExponent t m' (min_le_right e e'), ← sub_mul, ← Int.cast_sub] at h ⊢
      exact normal_normalize .positive h

end Normal

/-! ## Order -/

section Order

variable {m m' : ℕ} {e e' : ℤ}

theorem mul_zpow_lt (hlow' : 2 ^ 52 ≤ m') (hhigh : m < 2 ^ 53) (hlt : e < e') :
    (m : ℚ) * 2 ^ e < m' * 2 ^ e' := by
  have hmantissa : (m : ℚ) < m' * 2 := by exact_mod_cast (by omega : m < m' * 2)
  calc (m : ℚ) * 2 ^ e < m' * 2 * 2 ^ e := by gcongr
    _ = m' * 2 ^ (e + 1) := by rw [zpow_add_one₀ (by norm_num)]; ring
    _ ≤ m' * 2 ^ e' := by gcongr <;> norm_num; omega

/-- Numbers of 53 bits are compared by their exponents first. -/
theorem compare_normal (e e' : ℤ) (hlow : 2 ^ 52 ≤ m) (hlow' : 2 ^ 52 ≤ m')
    (hhigh : m < 2 ^ 53) (hhigh' : m' < 2 ^ 53) :
    (compare e e').then (compare m m') = compare ((m : ℚ) * 2 ^ e) (m' * 2 ^ e') := by
  rcases lt_trichotomy e e' with hlt | rfl | hgt
  · rw [compare_lt_iff_lt.mpr hlt, compare_lt_iff_lt.mpr (mul_zpow_lt hlow' hhigh hlt)]
    rfl
  · have hunit : (0 : ℚ) < 2 ^ e := by positivity
    rw [compare_eq_iff_eq.mpr rfl]
    rcases lt_trichotomy m m' with hlt | rfl | hgt
    · rw [compare_lt_iff_lt.mpr hlt, compare_lt_iff_lt.mpr (by gcongr)]
      rfl
    · rw [compare_eq_iff_eq.mpr rfl, compare_eq_iff_eq.mpr rfl]
      rfl
    · rw [compare_gt_iff_gt.mpr hgt, compare_gt_iff_gt.mpr (by gcongr)]
      rfl
  · rw [compare_gt_iff_gt.mpr hgt, compare_gt_iff_gt.mpr (mul_zpow_lt hlow hhigh' hgt)]
    rfl

end Order

theorem Normal.lt_iff (hu : Normal u a) (hv : Normal v b) :
    UnpackedFloat.lt u v = true ↔ a < b := by
  have hpos (m : ℕ) (e : ℤ) (hm : 0 < m) : (0 : ℚ) < m * 2 ^ e := by positivity
  cases hu with
  | zero s =>
    cases hv with
    | zero t => exact iff_of_false Bool.false_ne_true (lt_irrefl 0)
    | @finite t m' e' hm' =>
      cases t with
      | negative => exact iff_of_false Bool.false_ne_true (neg_lt_zero.mpr (hpos m' e' hm')).not_gt
      | positive => exact iff_of_true rfl (hpos m' e' hm')
  | @finite s m e hm hlow hhigh =>
    cases hv with
    | zero t =>
      cases s with
      | negative => exact iff_of_true rfl (neg_lt_zero.mpr (hpos m e hm))
      | positive => exact iff_of_false Bool.false_ne_true (hpos m e hm).not_gt
    | @finite t m' e' hm' hlow' hhigh' =>
      have hcompare := compare_normal e e' hlow hlow' hhigh hhigh'
      cases s <;> cases t
      case negative.negative =>
        simp only [UnpackedFloat.lt, UnpackedFloat.compare, hcompare, signed, beq_iff_eq,
          Option.some.injEq, Ordering.swap_eq_lt, compare_gt_iff_gt, neg_lt_neg_iff]
      case negative.positive =>
        exact iff_of_true rfl ((neg_lt_zero.mpr (hpos m e hm)).trans (hpos m' e' hm'))
      case positive.negative =>
        exact iff_of_false Bool.false_ne_true
          ((neg_lt_zero.mpr (hpos m' e' hm')).trans (hpos m e hm)).not_gt
      case positive.positive =>
        simp only [UnpackedFloat.lt, UnpackedFloat.compare, hcompare, signed, beq_iff_eq,
          Option.some.injEq, compare_lt_iff_lt]

/-! ## Whole parts -/

theorem roundToInt_positive (m : ℕ) (e : ℤ) :
    roundToInt .positive m e = ⌊(m : ℚ) * 2 ^ e⌋₊ := by
  have hlocates := (Locates.of_leaves (m := m <<< (e - 0).toNat) Leaves.exact).shiftRight
    (0 - (e - (e - 0).toNat)).toNat
  have hvalue : ((m <<< (e - 0).toNat : ℕ) + 0 : ℚ) / 2 ^ (0 - (e - (e - 0).toNat)).toNat =
      m * 2 ^ e := by
    have hexp : ((0 - (e - (e - 0).toNat)).toNat : ℤ) = -(e - (e - 0).toNat) := by omega
    rw [add_zero, ← zpow_natCast, hexp, zpow_neg, div_inv_eq_mul, cast_shiftLeft]
  rw [hvalue] at hlocates
  rw [hlocates.floor]
  rfl

theorem Normal.toNat_toUInt64 (hu : Normal u a) (hnonneg : 0 ≤ a) (hlt : a < 2 ^ 64) :
    u.toUInt64.toNat = ⌊a⌋₊ := by
  cases hu with
  | zero s => rw [Nat.floor_zero]; rfl
  | @finite s m e hm hlow hhigh =>
    cases s with
    | negative =>
      have hpos : (0 : ℚ) < m * 2 ^ e := by positivity
      exact absurd hnonneg (neg_lt_zero.mpr hpos).not_ge
    | positive =>
      have hfits : ⌊(m : ℚ) * 2 ^ e⌋₊ < UInt64.size :=
        (Nat.floor_lt hnonneg).mpr (by exact_mod_cast hlt)
      change (UInt64.ofNatClamp (roundToInt .positive m e).toNat).toNat = ⌊(m : ℚ) * 2 ^ e⌋₊
      rw [roundToInt_positive, Int.toNat_natCast, UInt64.ofNatClamp_eq_ofNat _ hfits,
        UInt64.toNat_ofNat_of_lt' hfits]

/-! ## Doubles -/

/-- The double is a zero or has a mantissa of 53 bits, and its value is `q`. -/
def Denotes (x : Float) (q : ℚ) : Prop := Normal x.toModel.unpack q

theorem Normal.pack (hu : Normal u a) : Normal (Float.Model.pack u).unpack a := by
  have hsame : (Float.Model.pack u).unpack = u := hu.unpack_pack
  rwa [hsame]

namespace Denotes

variable {x y : Float}

theorem mul (hx : Denotes x a) (hy : Denotes y b) (h : InRange (a * b)) :
    ∃ c, Denotes (x * y) c ∧ Rounds (a * b) c := by
  obtain ⟨c, hnormal, hrounds⟩ := Normal.mul hx hy h
  exact ⟨c, hnormal.pack, hrounds⟩

theorem div (hx : Denotes x a) (hy : Denotes y b) (hb : b ≠ 0) (h : InRange (a / b)) :
    ∃ c, Denotes (x / y) c ∧ Rounds (a / b) c := by
  obtain ⟨c, hnormal, hrounds⟩ := Normal.div hx hy hb h
  exact ⟨c, hnormal.pack, hrounds⟩

theorem add (hx : Denotes x a) (hy : Denotes y b) (h : InRange (a + b)) :
    ∃ c, Denotes (x + y) c ∧ Rounds (a + b) c := by
  obtain ⟨c, hnormal, hrounds⟩ := Normal.add hx hy h
  exact ⟨c, hnormal.pack, hrounds⟩

theorem sub (hx : Denotes x a) (hy : Denotes y b) (h : InRange (a - b)) :
    ∃ c, Denotes (x - y) c ∧ Rounds (a - b) c := by
  obtain ⟨c, hnormal, hrounds⟩ := Normal.sub hx hy h
  exact ⟨c, hnormal.pack, hrounds⟩

theorem add_zero (hx : Denotes x a) (hy : Denotes y 0) : Denotes (x + y) a :=
  (Normal.add_zero hx hy rfl).pack

theorem mul_zero (hx : Denotes x a) (hy : Denotes y 0) : Denotes (x * y) 0 := by
  obtain ⟨c, hc, hrounds⟩ := hx.mul hy (fun h => absurd (MulZeroClass.mul_zero a) h)
  rw [MulZeroClass.mul_zero] at hrounds
  rwa [hrounds.eq_zero] at hc

theorem neg (hx : Denotes x a) : Denotes x.neg (-a) := (Normal.neg hx).pack

theorem abs (hx : Denotes x a) : Denotes x.abs |a| := (Normal.abs hx).pack

theorem lt_iff (hx : Denotes x a) (hy : Denotes y b) : x < y ↔ a < b :=
  decide_eq_true_iff.trans (Normal.lt_iff hx hy)

theorem toNat_toUInt64 (hx : Denotes x a) (hnonneg : 0 ≤ a) (hlt : a < 2 ^ 64) :
    x.toUInt64.toNat = ⌊a⌋₊ :=
  Normal.toNat_toUInt64 hx hnonneg hlt

end Denotes

/-! ## Whole numbers -/

theorem inRange_intCast {k : ℤ} (hk : |k| ≤ 2 ^ 200) : InRange k := by
  rcases eq_or_ne k 0 with rfl | hne
  · exact fun h => absurd Int.cast_zero h
  · have hone : (1 : ℚ) ≤ |(k : ℚ)| := by
      rw [← Int.cast_abs]
      exact_mod_cast Int.one_le_abs hne
    refine .of_le (le_trans (by norm_num) hone) ?_
    rw [← Int.cast_abs]
    exact_mod_cast hk

theorem denotes_unit {x : Float}
    (hx : x.toModel.unpack = .finite .positive (2 ^ 52) (-52) (by norm_num)) : Denotes x 1 := by
  have hvalue : signed .positive ((2 ^ 52 : ℕ) * 2 ^ (-52 : ℤ)) = 1 := by
    norm_num [signed]
  rw [Denotes, hx, ← hvalue]
  exact .finite .positive _ le_rfl (by norm_num) (by norm_num) (by norm_num)

theorem denotes_zero : Denotes 0.0 0 := Normal.zero .positive

theorem denotes_one : Denotes 1.0 1 := denotes_unit (by rfl)

theorem denotes_toFloat {n : ℕ} (hn : n < 2 ^ 53) : Denotes n.toUInt64.toFloat n := by
  have hword : n.toUInt64.toNat = n := UInt64.toNat_ofNat_of_lt' (by rw [UInt64.size]; omega)
  have hexact : ((n : ℤ) : ℚ) * 2 ^ (0 : ℤ) = (n : ℤ) := by rw [zpow_zero, mul_one]
  have hsmall : |(n : ℤ)| < 2 ^ 53 := by
    rw [abs_of_nonneg (by omega)]
    omega
  obtain ⟨c, hnormal, hrounds⟩ := normal_normalize (m := n) (e := 0) .positive (by
    rw [hexact]
    exact inRange_intCast (by omega))
  rw [hexact] at hrounds
  rw [hrounds.eq_intCast hsmall] at hnormal
  have hmodel : n.toUInt64.toFloat.toModel =
      .pack (UnpackedFloat.normalize Format.binary64 (n.toUInt64.toNat : ℕ) 0 .positive) := rfl
  rw [Denotes, hmodel, hword]
  exact hnormal.pack

theorem denotes_ofNat {n : ℕ} (hn : n < 2 ^ 53) : Denotes (Float.ofNat n) n := by
  have hsmall : |(n : ℤ)| < 2 ^ 53 := by
    rw [abs_of_nonneg (by omega)]
    omega
  have hunit : Denotes Float.exactlyRepresentablePowersOfTen[0] 1 := denotes_unit (by rfl)
  obtain ⟨c, hproduct, hrounds⟩ := (denotes_toFloat hn).mul hunit (by
    rw [mul_one]
    exact inRange_intCast (k := n) (by omega))
  rw [mul_one] at hrounds
  have hc : c = n := hrounds.eq_intCast (k := n) hsmall
  rw [hc] at hproduct
  have hfloat : Float.ofNat n = n.toUInt64.toFloat * Float.exactlyRepresentablePowersOfTen[0] := by
    change Float.ofScientific n false 0 = _
    rw [Float.ofScientific, dif_pos ⟨hn, by omega⟩]
    rfl
  rw [hfloat]
  exact hproduct

theorem Sample.denotes_toFloat (s : Sample) : Denotes (Sample.toFloat s) (Int16.toInt s) := by
  have hlow : -2 ^ 15 ≤ Int16.toInt s := Int16.le_toInt s
  have hhigh : Int16.toInt s < 2 ^ 15 := Int16.toInt_lt s
  rw [Sample.toFloat]
  cases hint : Int16.toInt s with
  | ofNat n =>
    rw [hint, Int.ofNat_eq_natCast] at hhigh
    exact denotes_ofNat (by omega)
  | negSucc n =>
    rw [Int.cast_negSucc]
    exact (denotes_ofNat (n := n.succ) (by omega)).neg

namespace Denotes

variable {x y : Float} {k l : ℤ}

theorem sub_intCast (hx : Denotes x k) (hy : Denotes y l) (h : |k - l| < 2 ^ 53) :
    Denotes (x - y) (k - l : ℤ) := by
  obtain ⟨c, hc, hrounds⟩ := hx.sub hy (by exact_mod_cast inRange_intCast (by omega))
  rw [← Int.cast_sub] at hrounds
  rwa [hrounds.eq_intCast h] at hc

end Denotes

end Oscilloscope
