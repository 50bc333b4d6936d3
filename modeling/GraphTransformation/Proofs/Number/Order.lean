import Mathlib

/-!
Floating-point numbers as rational numbers.

A finite floating-point number is a rational number, its sign and mantissa times a
power of two (`exact`). In the unpacked form of a number the mantissa has all its
digits, unless the exponent is the least one (`canonical_unpack`). So the order of
exponents and then of mantissas is the order of the rational numbers
(`compare_magnitude`), and finite numbers are compared as these are (`le_iff`,
`beq_iff`). Of the others, a NaN is comparable to nothing, and the infinite ones
are the greatest and the least (`unordered_of_isNaN`, `le_infinity`, `neg_infinity_le`).
-/

namespace GraphTransformation.Number

open Float.Model UnpackedFloat

/-! ### Values -/

/-- The rational number with this sign, mantissa and exponent. -/
def scaled (sign : Sign) (m : Nat) (e : Int) : ℚ := sign.apply m * 2 ^ e

theorem scaled_positive {m : Nat} {e : Int} : scaled .positive m e = m * 2 ^ e := by
  simp [scaled, Sign.apply]

theorem scaled_negative {m : Nat} {e : Int} : scaled .negative m e = -(m * 2 ^ e) := by
  simp [scaled, Sign.apply]

/-- The rational number that an unpacked finite number stands for. -/
def unpackedExact : UnpackedFloat → ℚ
  | .finite sign m e _ => scaled sign m e
  | .zero _ | .infinity _ | .notANumber => 0

/-- The rational number that a finite floating-point number stands for. -/
def exact (x : Float) : ℚ := unpackedExact x.toModel.unpack

/-! ### Canonical forms -/

/-- The mantissa and the exponent are those of a number with 64 bits: there are at most 53 digits,
and fewer only under the least exponent. -/
structure Digits (m : Nat) (e : Int) : Prop where
  fits : m < 2 ^ 53
  least : -1074 ≤ e
  full : -1074 < e → 2 ^ 52 ≤ m

/-- The unpacked form that a number with 64 bits has. -/
def Canonical : UnpackedFloat → Prop
  | .finite _ m e _ => Digits m e
  | .zero _ | .infinity _ | .notANumber => True

theorem canonical_unpack (b : Float.Model) : Canonical b.unpack := by
  rw [Float.Model.unpack, UnpackedFloat.unpack]
  simp only
  split
  · split <;> trivial
  · split
    · split
      · trivial
      · refine ⟨?_, ?_, ?_⟩
        · exact lt_trans (BitVec.isLt _) (by decide)
        · rename_i zero _
          rw [zero]
          decide
        · rename_i zero _
          rw [zero]
          intro above
          exact absurd above (by decide)
    · rename_i nonzero
      refine ⟨?_, ?_, ?_⟩
      · exact BitVec.isLt _
      · have some : (@unpackExponent .binary64 b.toBits.toBitVec).toNat ≠ 0 := by
          intro zero
          exact nonzero (BitVec.eq_of_toNat_eq zero)
        have bias : ((Format.exponentBias .binary64 : Nat) : Int) = 1023 := rfl
        simp only [bias]
        omega
      · intro _
        rw [BitVec.toNat_append]
        exact Nat.left_le_or

/-! ### Order -/

variable {m n : Nat} {d e : Int}

theorem magnitude_lt (first : Digits m d) (second : Digits n e) (exponents : d < e) :
    (m : ℚ) * 2 ^ d < n * 2 ^ e := by
  have full : 2 ^ 52 ≤ n := second.full (lt_of_le_of_lt first.least exponents)
  have fits : (m : ℚ) < 2 ^ 53 := by exact_mod_cast first.fits
  calc (m : ℚ) * 2 ^ d < 2 ^ 53 * 2 ^ d := by gcongr
    _ = 2 ^ 52 * 2 ^ (d + 1) := by rw [zpow_add_one₀ (by norm_num)]; ring
    _ ≤ n * 2 ^ e := by
      gcongr
      · exact_mod_cast full
      · norm_num
      · omega

theorem compare_magnitude (first : Digits m d) (second : Digits n e) :
    (compare d e).then (compare m n) = compare ((m : ℚ) * 2 ^ d) (n * 2 ^ e) := by
  rcases lt_trichotomy d e with less | rfl | greater
  · rw [compare_lt_iff_lt.mpr less, compare_lt_iff_lt.mpr (magnitude_lt first second less)]
    rfl
  · have positive : (0 : ℚ) < 2 ^ d := by positivity
    rw [compare_eq_iff_eq.mpr rfl]
    rcases lt_trichotomy m n with less | rfl | greater
    · rw [compare_lt_iff_lt.mpr less, compare_lt_iff_lt.mpr]
      · rfl
      · gcongr
    · simp
    · rw [compare_gt_iff_gt.mpr greater, compare_gt_iff_gt.mpr]
      · rfl
      · gcongr
  · rw [compare_gt_iff_gt.mpr greater, compare_gt_iff_gt.mpr (magnitude_lt second first greater)]
    rfl

theorem compare_neg (a b : ℚ) : compare (-a) (-b) = (compare a b).swap := by
  rcases lt_trichotomy a b with less | rfl | greater
  · rw [compare_lt_iff_lt.mpr less, compare_gt_iff_gt.mpr (neg_lt_neg less)]
    rfl
  · simp
  · rw [compare_gt_iff_gt.mpr greater, compare_lt_iff_lt.mpr (neg_lt_neg greater)]
    rfl

theorem magnitude_pos (positive : 0 < m) : (0 : ℚ) < m * 2 ^ e := by positivity

/-- Finite numbers are compared as the rational numbers that they stand for. -/
theorem compare_exact {f g : UnpackedFloat} (canonical : Canonical f) (canonical' : Canonical g)
    (finite : f.isFinite = true) (finite' : g.isFinite = true) :
    f.compare g = some (compare (unpackedExact f) (unpackedExact g)) := by
  cases f with
  | notANumber => cases finite
  | infinity sign => cases finite
  | zero sign =>
    cases g with
    | notANumber => cases finite'
    | infinity sign => cases finite'
    | zero sign' => rw [unpackedExact, unpackedExact, compare_eq_iff_eq.mpr rfl]; rfl
    | finite sign' n e positive =>
      have apart := magnitude_pos (e := e) positive
      cases sign' with
      | positive =>
        rw [unpackedExact, unpackedExact, scaled_positive, compare_lt_iff_lt.mpr apart]
        rfl
      | negative =>
        rw [unpackedExact, unpackedExact, scaled_negative,
          compare_gt_iff_gt.mpr (neg_lt_zero.mpr apart)]
        rfl
  | finite sign m d positive =>
    have apart := magnitude_pos (e := d) positive
    cases g with
    | notANumber => cases finite'
    | infinity sign => cases finite'
    | zero sign' =>
      cases sign with
      | positive =>
        rw [unpackedExact, unpackedExact, scaled_positive, compare_gt_iff_gt.mpr apart]
        rfl
      | negative =>
        rw [unpackedExact, unpackedExact, scaled_negative,
          compare_lt_iff_lt.mpr (neg_lt_zero.mpr apart)]
        rfl
    | finite sign' n e positive' =>
      have apart' := magnitude_pos (e := e) positive'
      have order := compare_magnitude canonical canonical'
      cases sign with
      | positive =>
        cases sign' with
        | positive =>
          rw [unpackedExact, unpackedExact, scaled_positive, scaled_positive, ← order]
          rfl
        | negative =>
          rw [unpackedExact, unpackedExact, scaled_positive, scaled_negative,
            compare_gt_iff_gt.mpr (lt_trans (neg_lt_zero.mpr apart') apart)]
          rfl
      | negative =>
        cases sign' with
        | positive =>
          rw [unpackedExact, unpackedExact, scaled_positive, scaled_negative,
            compare_lt_iff_lt.mpr (lt_trans (neg_lt_zero.mpr apart) apart')]
          rfl
        | negative =>
          rw [unpackedExact, unpackedExact, scaled_negative, scaled_negative, compare_neg, ← order]
          rfl

variable {x y : Float}

theorem le_def : x ≤ y ↔ x.toModel.unpack.le y.toModel.unpack = true := decide_eq_true_iff

theorem le_iff (finite : x.isFinite = true) (finite' : y.isFinite = true) :
    x ≤ y ↔ exact x ≤ exact y := by
  have compared := compare_exact (canonical_unpack x.toModel) (canonical_unpack y.toModel)
    finite finite'
  rw [le_def, UnpackedFloat.le, compared]
  change (compare (exact x) (exact y)).isLE = true ↔ _
  rw [Ordering.isLE_iff_ne_gt, ← not_lt, ← compare_gt_iff_gt]

theorem beq_iff (finite : x.isFinite = true) (finite' : y.isFinite = true) :
    (x == y) = true ↔ exact x = exact y := by
  have compared := compare_exact (canonical_unpack x.toModel) (canonical_unpack y.toModel)
    finite finite'
  change x.toModel.unpack.beq y.toModel.unpack = true ↔ _
  rw [UnpackedFloat.beq, compared, beq_iff_eq, Option.some.injEq, compare_eq_iff_eq]
  rfl

/-! ### Numbers that are not finite -/

/-- The greatest floating-point number; its negation is the least. -/
def infinity : Float := 1 / 0

theorem eq_of_unpack (same : x.toModel.unpack = y.toModel.unpack) : x = y := by
  have bits := (unpack_inj_of_valid x.toModel.valid y.toModel.valid).mp same
  obtain ⟨⟨⟨_⟩, _⟩⟩ := x
  obtain ⟨⟨⟨_⟩, _⟩⟩ := y
  cases bits
  rfl

theorem unpack_infinity : infinity.toModel.unpack = .infinity .positive := rfl

theorem unpack_neg_infinity : (-infinity).toModel.unpack = .infinity .negative := rfl

theorem infinite_cases (x : Float) :
    x.isFinite = true ∨ x.isNaN = true ∨ x = infinity ∨ x = -infinity := by
  cases shape : x.toModel.unpack with
  | notANumber => exact .inr (.inl (congrArg UnpackedFloat.isNaN shape))
  | infinity sign =>
    cases sign with
    | positive => exact .inr (.inr (.inl (eq_of_unpack (shape.trans unpack_infinity.symm))))
    | negative => exact .inr (.inr (.inr (eq_of_unpack (shape.trans unpack_neg_infinity.symm))))
  | zero sign => exact .inl (congrArg UnpackedFloat.isFinite shape)
  | finite sign m e positive => exact .inl (congrArg UnpackedFloat.isFinite shape)

/-- Only a finite number is equal to a finite one. -/
theorem isFinite_of_beq (finite : x.isFinite = true) (same : (x == y) = true) :
    y.isFinite = true := by
  change x.toModel.unpack.isFinite = true at finite
  change x.toModel.unpack.beq y.toModel.unpack = true at same
  change y.toModel.unpack.isFinite = true
  generalize x.toModel.unpack = f at finite same
  generalize y.toModel.unpack = g at same ⊢
  cases g with
  | zero sign => rfl
  | finite sign m e positive => rfl
  | notANumber => cases f <;> cases same
  | infinity sign =>
    cases f with
    | notANumber | infinity _ => cases finite
    | zero sign' => cases sign <;> cases same
    | finite sign' m e positive => cases sign <;> cases same

/-- A NaN has no place in the order. -/
theorem unordered_of_isNaN (nan : x.isNaN = true) : ¬ x ≤ y ∧ ¬ y ≤ x := by
  change x.toModel.unpack.isNaN = true at nan
  rw [le_def, le_def, UnpackedFloat.le, UnpackedFloat.le]
  cases shape : x.toModel.unpack with
  | notANumber => cases y.toModel.unpack <;> simp [UnpackedFloat.compare]
  | _ =>
    rw [shape] at nan
    cases nan

theorem le_infinity : x ≤ infinity ↔ x.isNaN = false := by
  change _ ↔ x.toModel.unpack.isNaN = false
  rw [le_def, unpack_infinity]
  cases x.toModel.unpack with
  | notANumber => simp [UnpackedFloat.le, UnpackedFloat.compare, UnpackedFloat.isNaN]
  | infinity sign => cases sign <;> exact iff_of_true rfl rfl
  | zero sign => exact iff_of_true rfl rfl
  | finite sign m e positive => exact iff_of_true rfl rfl

theorem neg_infinity_le : -infinity ≤ x ↔ x.isNaN = false := by
  change _ ↔ x.toModel.unpack.isNaN = false
  rw [le_def, unpack_neg_infinity]
  cases x.toModel.unpack with
  | notANumber => simp [UnpackedFloat.le, UnpackedFloat.compare, UnpackedFloat.isNaN]
  | infinity sign => cases sign <;> exact iff_of_true rfl rfl
  | zero sign => exact iff_of_true rfl rfl
  | finite sign m e positive => exact iff_of_true rfl rfl

theorem not_infinity_le (finite : x.isFinite = true) : ¬ infinity ≤ x := by
  change x.toModel.unpack.isFinite = true at finite
  rw [le_def, unpack_infinity]
  cases shape : x.toModel.unpack with
  | notANumber | infinity _ =>
    rw [shape] at finite
    cases finite
  | zero sign => exact Bool.false_ne_true
  | finite sign m e positive => exact Bool.false_ne_true

theorem not_le_neg_infinity (finite : x.isFinite = true) : ¬ x ≤ -infinity := by
  change x.toModel.unpack.isFinite = true at finite
  rw [le_def, unpack_neg_infinity]
  cases shape : x.toModel.unpack with
  | notANumber | infinity _ =>
    rw [shape] at finite
    cases finite
  | zero sign => exact Bool.false_ne_true
  | finite sign m e positive => exact Bool.false_ne_true

end GraphTransformation.Number
