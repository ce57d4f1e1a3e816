import Mathlib

/-!
# Oscilloscope.Proofs.Double.Sign

Counts and their ratios, computed in doubles, do not fall below zero.

`Unsigned` says that a datum carries no minus sign: it is zero or more, or no number at all.
Rounding and packing keep the sign, so products and quotients of such data are such data again.

* `unsigned_ofNat`, `unsigned_div`: counts and their quotients.
* `not_lt_zero`: what is `Unsigned` is not less than zero. `zero_lt_of_lt`: what is greater than
  such a number is greater than zero.
-/

namespace Oscilloscope

open Float.Model Float.Model.UnpackedFloat

/-- The datum has no minus sign. What is no number has no sign. -/
def Unsigned : UnpackedFloat → Prop
  | .infinity s => s = .positive
  | .notANumber => True
  | .zero s => s = .positive
  | .finite s _ _ _ => s = .positive

section Packing

variable {spec : Format}

theorem unpackSign_packComponents (s : Sign) (e : BitVec spec.exponentBits)
    (m : BitVec spec.mantissaBitsWithoutImplicit) :
    unpackSign (packComponents spec s e m) = s.toBitVec := by
  apply BitVec.eq_of_getLsbD_eq
  intro i hi
  obtain rfl : i = 0 := by omega
  simp [unpackSign, packComponents, BitVec.getLsbD_append, BitVec.getElem_append]

theorem unpackSign_pack {u : UnpackedFloat} (hu : Unsigned u) :
    unpackSign (UnpackedFloat.pack spec u) = 0#1 := by
  cases u with
  | notANumber => exact unpackSign_packComponents _ _ _
  | infinity s =>
    cases hu
    exact unpackSign_packComponents _ _ _
  | zero s =>
    cases hu
    exact unpackSign_packComponents _ _ _
  | finite s m e hm =>
    cases hu
    simp only [UnpackedFloat.pack]
    split
    · exact unpackSign_packComponents _ _ _
    · split
      · exact unpackSign_packComponents _ _ _
      · exact unpackSign_packComponents _ _ _

theorem unsigned_unpack {b : BitVec spec.numBits} (hb : unpackSign b = 0#1) :
    Unsigned (UnpackedFloat.unpack spec b) := by
  have hsign : Sign.ofBitVec (unpackSign b) = .positive := by rw [hb]; rfl
  simp only [UnpackedFloat.unpack, hsign]
  split
  · split
    · rfl
    · trivial
  · split
    · split
      · rfl
      · rfl
    · rfl

theorem unsigned_unpack_pack {u : UnpackedFloat} (hu : Unsigned u) :
    Unsigned (UnpackedFloat.unpack spec (UnpackedFloat.pack spec u)) :=
  unsigned_unpack (unpackSign_pack hu)

theorem unsigned_round (m : Nat) (e : Int) (a : Accuracy) :
    Unsigned (roundWithAccuracy spec .positive m e a) := by
  simp only [roundWithAccuracy]
  split
  · rfl
  · rfl

theorem unsigned_ofInt (n : Nat) : Unsigned (UnpackedFloat.ofInt spec n) := by
  simp only [UnpackedFloat.ofInt, UnpackedFloat.normalize]
  split
  · rename_i hlt
    have hneg : (n : Int) < 0 := Int.compare_eq_lt.mp hlt
    omega
  · rfl
  · exact unsigned_round _ _ _

theorem unsigned_ofScientific (n : Nat) (e : Int) :
    Unsigned (UnpackedFloat.ofScientific spec n e) := by
  simp only [UnpackedFloat.ofScientific]
  split
  · rfl
  · split
    · rfl
    · split
      · rfl
      · split
        · exact unsigned_round _ _ _
        · exact unsigned_round _ _ _

theorem Unsigned.mul {u v : UnpackedFloat} (hu : Unsigned u) (hv : Unsigned v) :
    Unsigned (UnpackedFloat.mul spec u v) := by
  cases u <;> cases v <;> cases hu <;> cases hv
  case finite.finite.refl.refl => exact unsigned_round _ _ _
  all_goals trivial

theorem Unsigned.div {u v : UnpackedFloat} (hu : Unsigned u) (hv : Unsigned v) :
    Unsigned (UnpackedFloat.div spec u v) := by
  cases u <;> cases v <;> cases hu <;> cases hv
  case finite.finite.refl.refl => exact unsigned_round _ _ _
  all_goals trivial

end Packing

theorem unsigned_div {x y : Float} (hx : Unsigned x.toModel.unpack)
    (hy : Unsigned y.toModel.unpack) : Unsigned (x / y).toModel.unpack :=
  unsigned_unpack_pack (hx.div hy)

theorem unsigned_mul {x y : Float} (hx : Unsigned x.toModel.unpack)
    (hy : Unsigned y.toModel.unpack) : Unsigned (x * y).toModel.unpack :=
  unsigned_unpack_pack (hx.mul hy)

theorem unsigned_one : Unsigned Float.exactlyRepresentablePowersOfTen[0].toModel.unpack := by rfl

theorem unsigned_ofNat (n : Nat) : Unsigned (Float.ofNat n).toModel.unpack := by
  have hword : Float.ofNat n = Float.ofScientific n false 0 := rfl
  rw [hword, Float.ofScientific]
  split
  · -- An exact word times one.
    exact unsigned_mul (unsigned_unpack_pack (unsigned_ofInt _)) unsigned_one
  · exact unsigned_unpack_pack (unsigned_ofScientific _ _)

theorem not_lt_zero {x : Float} (hx : Unsigned x.toModel.unpack) : ¬ x < 0.0 := by
  intro hlt
  have hless : (x.toModel.unpack.compare (0.0 : Float).toModel.unpack == some .lt) = true :=
    of_decide_eq_true hlt
  have hzero : (0.0 : Float).toModel.unpack = .zero .positive := by rfl
  rw [hzero] at hless
  cases hu : x.toModel.unpack with
  | notANumber => rw [hu] at hless; cases hless
  | infinity s => rw [hu] at hx hless; cases hx; cases hless
  | zero s => rw [hu] at hx hless; cases hx; cases hless
  | finite s m e hm => rw [hu] at hx hless; cases hx; cases hless

/-- What is greater than an unsigned number is greater than zero. -/
theorem zero_lt_of_lt {x y : Float} (hx : Unsigned x.toModel.unpack)
    (hy : Unsigned y.toModel.unpack) (hxy : x < y) : 0.0 < y := by
  have hless : (x.toModel.unpack.compare y.toModel.unpack == some .lt) = true :=
    of_decide_eq_true hxy
  have hzero : (0.0 : Float).toModel.unpack = .zero .positive := by rfl
  have hpos : ((0.0 : Float).toModel.unpack.compare y.toModel.unpack == some .lt) = true := by
    rw [hzero]
    cases hv : y.toModel.unpack with
    | notANumber =>
      rw [hv] at hless
      cases hu : x.toModel.unpack <;> rw [hu] at hless <;> cases hless
    | zero s =>
      rw [hv] at hless
      cases hu : x.toModel.unpack <;> rw [hu] at hx hless <;> cases hx <;> cases hless
    | infinity s => rw [hv] at hy; cases hy; rfl
    | finite s m e hm => rw [hv] at hy; cases hy; rfl
  exact decide_eq_true hpos

end Oscilloscope
