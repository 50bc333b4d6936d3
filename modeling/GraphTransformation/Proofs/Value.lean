import GraphTransformation.Value
import Mathlib

/-!
Values compared with themselves.

The floating-point view of an integer is always a number: its digits are rounded, and rounding
gives a finite number or, where the range is exceeded, an infinite one (`isNaN_ofInt`). So a NaN
is the only value that is not the same as itself (`sameAs_self`).
-/

namespace GraphTransformation.Value

open Float.Model

/-! ### Floating-point numbers -/

theorem unpacked_beq_self (f : UnpackedFloat) : f.beq f = !f.isNaN := by
  cases f with
  | infinity sign => cases sign <;> rfl
  | notANumber => rfl
  | zero sign => rfl
  | finite sign m e positive =>
    cases sign <;> simp [UnpackedFloat.beq, UnpackedFloat.compare, UnpackedFloat.isNaN]

theorem float_beq_self (x : Float) : (x == x) = !x.isNaN := unpacked_beq_self x.toModel.unpack

/-- Bits are those of a NaN only if the exponent is the greatest one and the mantissa is not zero. -/
theorem isNaN_unpack {format : Format} {b : BitVec format.numBits}
    (plain : UnpackedFloat.unpackExponent b = -1#_ → UnpackedFloat.unpackMantissa b = 0#_) :
    (UnpackedFloat.unpack format b).isNaN = false := by
  rw [UnpackedFloat.unpack]
  split
  · rename_i greatest
    rw [if_pos (plain greatest)]
    rfl
  · split
    · split <;> rfl
    · rfl

/-- A number is packed into bits that are not those of a NaN. -/
theorem isNaN_unpack_pack {format : Format} {f : UnpackedFloat} (number : f.isNaN = false) :
    (UnpackedFloat.unpack format (UnpackedFloat.pack format f)).isNaN = false := by
  refine isNaN_unpack ?_
  fun_cases UnpackedFloat.pack with
  | case1 => cases number
  | case2 sign => simp [UnpackedFloat.packedInfinity]
  | case3 sign => simp [UnpackedFloat.packedZero]
  | case4 sign m e positive biased overflow => simp [UnpackedFloat.packedInfinity]
  | case5 sign m e positive digits biased inRange normal =>
    rw [UnpackedFloat.unpackExponent_packComponents]
    intro greatest
    have same := congrArg BitVec.toNat greatest
    rw [BitVec.neg_one_eq_allOnes, BitVec.toNat_ofNat, BitVec.toNat_allOnes,
      Nat.mod_eq_of_lt (by omega)] at same
    omega
  | case6 sign m e positive digits biased inRange subnormal =>
    rw [UnpackedFloat.unpackExponent_packComponents]
    intro greatest
    have some := Nat.one_lt_two_pow (Nat.pos_iff_ne_zero.mp format.he)
    have same := congrArg BitVec.toNat greatest
    rw [BitVec.neg_one_eq_allOnes, BitVec.toNat_allOnes, BitVec.toNat_zero] at same
    omega

theorem isNaN_pack {f : UnpackedFloat} (number : f.isNaN = false) : (pack f).isNaN = false :=
  isNaN_unpack_pack number

/-! ### Views of integers -/

theorem isNaN_roundWithAccuracy {format : Format} {sign : UnpackedFloat.Sign} {m : Nat} {e : Int}
    {a : UnpackedFloat.Accuracy} :
    (UnpackedFloat.roundWithAccuracy format sign m e a).isNaN = false := by
  rw [UnpackedFloat.roundWithAccuracy]
  simp only
  split <;> rfl

theorem isNaN_normalize {format : Format} {m e : Int} {sign : UnpackedFloat.Sign} :
    (UnpackedFloat.normalize format m e sign).isNaN = false := by
  rw [UnpackedFloat.normalize]
  split
  · exact isNaN_roundWithAccuracy
  · rfl
  · exact isNaN_roundWithAccuracy

theorem isNaN_mul_finite {format : Format} {f : UnpackedFloat} (number : f.isNaN = false)
    {sign : UnpackedFloat.Sign} {m : Nat} {e : Int} {positive : 0 < m} :
    (UnpackedFloat.mul format f (.finite sign m e positive)).isNaN = false := by
  cases f with
  | notANumber => cases number
  | infinity _ => rfl
  | zero _ => rfl
  | finite _ _ _ _ => exact isNaN_roundWithAccuracy

theorem isNaN_neg {f : UnpackedFloat} (number : f.isNaN = false) : f.neg.isNaN = false := by
  cases f with
  | notANumber => cases number
  | infinity _ => rfl
  | zero _ => rfl
  | finite _ _ _ _ => rfl

theorem isNaN_ofNat (n : Nat) : (Float.ofNat n).isNaN = false := by
  rw [Float.ofNat, OfScientific.ofScientific, instOfScientificFloat]
  simp only [Float.ofScientific]
  split
  · -- few digits: the word's view times one
    obtain ⟨sign, m, e, positive, one⟩ : ∃ sign m e positive,
        (Float.exactlyRepresentablePowersOfTen[0]).toModel.unpack = .finite sign m e positive :=
      ⟨_, _, _, _, rfl⟩
    refine isNaN_pack ?_
    rw [one]
    exact isNaN_mul_finite (isNaN_pack isNaN_normalize)
  · refine isNaN_pack ?_
    rw [UnpackedFloat.ofScientific]
    split
    · rfl
    · have unscaled : Int.ofNat 0 = 0 := rfl
      simp only [Bool.false_eq_true, if_false]
      rw [if_neg (by decide), if_neg (by omega), if_pos (by decide)]
      exact isNaN_mul_finite rfl

theorem isNaN_ofInt (n : Int) : (Float.ofInt n).isNaN = false := by
  cases n with
  | ofNat n => exact isNaN_ofNat n
  | negSucc n => exact isNaN_pack (isNaN_neg (isNaN_ofNat (n + 1)))

/-! ### Values -/

/-- The value is a NaN. -/
def IsNaN : Value → Prop
  | .float x => x.isNaN = true
  | _ => False

/-- A NaN is the only value that is not the same as itself. -/
theorem sameAs_self {v : Value} : v.sameAs v = true ↔ ¬ v.IsNaN := by
  cases v with
  | bool b => simp [sameAs, asFloat, equal, IsNaN]
  | int n =>
    have view : (Value.int n).sameAs (.int n) =
        (Float.ofInt n.toInt == Float.ofInt n.toInt) := rfl
    rw [view, float_beq_self, isNaN_ofInt]
    simp [IsNaN]
  | float x =>
    have view : (Value.float x).sameAs (.float x) = (x == x) := rfl
    rw [view, float_beq_self, Bool.not_eq_true', IsNaN, Bool.not_eq_true]
  | string s => simp [sameAs, asFloat, equal, IsNaN]

end GraphTransformation.Value
