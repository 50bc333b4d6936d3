import GraphTransformation.Proofs.Number.Order

/-!
Integers rounded to floating-point numbers.

A mantissa has 53 digits, so an integer with more of them is rounded: to a multiple of
the last place that a mantissa of its size has, and of two equally near multiples to
the even one (`nearest`). No number with 64 bits is nearer to the integer than this
(`nearest_close`), and an integer that is itself such a number stays as it is
(`nearest_eq_self`). A conversion does this digit by digit: the digits that do not fit
are shifted out of the mantissa, where two bits keep what the rounding has to know of
them (`Records`), and a mantissa that has become too long by rounding is shifted once
more (`round_nearest`). So the floating-point number that an integer is converted to is
the nearest one (`exact_ofInt`).
-/

namespace GraphTransformation.Number

open Float.Model UnpackedFloat

/-! ### Rounding to integers -/

/-- The integer nearest to a rational number; of two equally near ones the even one. -/
def roundEven (q : ℚ) : ℤ :=
  if Int.fract q < 1 / 2 then ⌊q⌋
  else if 1 / 2 < Int.fract q then ⌊q⌋ + 1
  else ⌊q⌋ + ⌊q⌋ % 2

theorem abs_sub_roundEven (q : ℚ) : |q - roundEven q| ≤ 1 / 2 := by
  have parts := Int.floor_add_fract q
  have low := Int.fract_nonneg q
  have high := Int.fract_lt_one q
  rw [roundEven, abs_le]
  split
  · constructor <;> linarith
  · split
    · push_cast
      constructor <;> linarith
    · rcases Int.emod_two_eq_zero_or_one ⌊q⌋ with even | odd
      · rw [even]
        push_cast
        constructor <;> linarith
      · rw [odd]
        push_cast
        constructor <;> linarith

/-- No integer is nearer to a rational number than the one it is rounded to. -/
theorem roundEven_close (q : ℚ) (c : ℤ) : |q - roundEven q| ≤ |q - c| := by
  have half := abs_sub_roundEven q
  rcases eq_or_ne c (roundEven q) with rfl | apart
  · exact le_rfl
  · have one : (1 : ℚ) ≤ |(roundEven q : ℚ) - c| := by
      exact_mod_cast Int.one_le_abs (sub_ne_zero.mpr apart.symm)
    have triangle := abs_sub_le (roundEven q : ℚ) q c
    rw [abs_sub_comm (roundEven q : ℚ) q] at triangle
    linarith

theorem roundEven_intCast (i : ℤ) : roundEven i = i := by
  simp [roundEven]

theorem roundEven_neg (q : ℚ) : roundEven (-q) = -roundEven q := by
  by_cases whole : Int.fract q = 0
  · obtain ⟨i, rfl⟩ := Int.fract_eq_zero_iff.mp whole
    rw [← Int.cast_neg, roundEven_intCast, roundEven_intCast]
  · have mirrored := Int.fract_neg whole
    have floor : ⌊-q⌋ = -⌊q⌋ - 1 := by
      have parts := Int.floor_add_fract q
      have parts' := Int.floor_add_fract (-q)
      have cast : ((⌊-q⌋ : ℤ) : ℚ) = ((-⌊q⌋ - 1 : ℤ) : ℚ) := by
        push_cast
        linarith
      exact_mod_cast cast
    rw [roundEven, roundEven, mirrored, floor]
    split_ifs <;> first | linarith | omega

/-! ### Rounding to the last place of a mantissa -/

/-- The exponent of the last of the 53 digits that the mantissa has for an integer. -/
def lastPlace (n : ℤ) : ℤ := n.natAbs.log2 - 52

/-- The integer rounded to a number whose mantissa has 53 digits; of two equally near ones to
the one with the even mantissa. -/
def nearest (n : ℤ) : ℚ := roundEven (n / 2 ^ lastPlace n) * 2 ^ lastPlace n

theorem nearest_zero : nearest 0 = 0 := by
  have none := roundEven_intCast 0
  rw [Int.cast_zero] at none
  simp [nearest, none]

theorem nearest_neg (n : ℤ) : nearest (-n) = -nearest n := by
  rw [nearest, nearest, lastPlace, Int.natAbs_neg, ← lastPlace, Int.cast_neg, neg_div,
    roundEven_neg]
  push_cast
  ring

theorem lastPlace_pos (n : ℤ) : (0 : ℚ) < 2 ^ lastPlace n := by positivity

/-- The digits of an integer reach from its first one down to the last place, 52 places below. -/
theorem lastPlace_bounds {n : ℤ} (some : n ≠ 0) :
    2 ^ 52 * 2 ^ lastPlace n ≤ |(n : ℚ)| ∧ |(n : ℚ)| < 2 ^ 53 * 2 ^ lastPlace n := by
  have digits := (Nat.log2_eq_iff (Int.natAbs_ne_zero.mpr some)).mp rfl
  have size : |(n : ℚ)| = (n.natAbs : ℚ) := by rw [Nat.cast_natAbs, Int.cast_abs]
  have scale (k : ℕ) : (2 : ℚ) ^ k * 2 ^ lastPlace n = 2 ^ (k + lastPlace n) := by
    rw [zpow_add₀ (by norm_num), zpow_natCast]
  have least : ((52 : ℕ) : ℤ) + lastPlace n = (n.natAbs.log2 : ℕ) := by
    rw [lastPlace]
    push_cast
    ring
  have above : ((53 : ℕ) : ℤ) + lastPlace n = (n.natAbs.log2 + 1 : ℕ) := by
    rw [lastPlace]
    push_cast
    ring
  rw [scale, scale, least, above, size, zpow_natCast, zpow_natCast]
  exact_mod_cast digits

/-- No multiple of the last place is nearer to an integer than the one it is rounded to. -/
theorem nearest_close_multiple (n c : ℤ) :
    |(n : ℚ) - nearest n| ≤ |(n : ℚ) - c * 2 ^ lastPlace n| := by
  have unit := lastPlace_pos n
  have scale (d : ℤ) : |(n : ℚ) - d * 2 ^ lastPlace n| =
      |(n : ℚ) / 2 ^ lastPlace n - d| * 2 ^ lastPlace n := by
    conv_rhs => rw [← abs_of_pos unit, ← abs_mul, abs_of_pos unit, sub_mul,
      div_mul_cancel₀ _ unit.ne']
  rw [nearest, scale, scale]
  exact mul_le_mul_of_nonneg_right (roundEven_close _ c) unit.le

/-- An integer is as near to what it is rounded to as to its first digit. -/
theorem nearest_close_first {n : ℤ} (some : n ≠ 0) :
    |(n : ℚ) - nearest n| ≤ |(n : ℚ)| - 2 ^ 52 * 2 ^ lastPlace n := by
  obtain ⟨first, -⟩ := lastPlace_bounds some
  rcases lt_or_gt_of_ne some with negative | positive
  · have sign : (n : ℚ) ≤ 0 := by exact_mod_cast negative.le
    have reached := nearest_close_multiple n (-2 ^ 52)
    rw [Int.cast_neg, Int.cast_pow, Int.cast_ofNat] at reached
    rw [abs_of_nonpos sign] at first ⊢
    rw [abs_of_nonpos (by linarith : (n : ℚ) - -2 ^ 52 * 2 ^ lastPlace n ≤ 0)] at reached
    linarith
  · have sign : (0 : ℚ) ≤ n := by exact_mod_cast positive.le
    have reached := nearest_close_multiple n (2 ^ 52)
    rw [Int.cast_pow, Int.cast_ofNat] at reached
    rw [abs_of_nonneg sign] at first ⊢
    rw [abs_of_nonneg (by linarith : (0 : ℚ) ≤ n - 2 ^ 52 * 2 ^ lastPlace n)] at reached
    linarith

/-- No number with a mantissa of 53 digits is nearer to an integer than the one it is
rounded to. -/
theorem nearest_close {n z e : ℤ} (fits : |z| < 2 ^ 53) :
    |(n : ℚ) - nearest n| ≤ |(n : ℚ) - z * 2 ^ e| := by
  rcases eq_or_ne n 0 with rfl | some
  · rw [nearest_zero, Int.cast_zero, sub_self, abs_zero]
    exact abs_nonneg _
  rcases le_or_gt (lastPlace n) e with coarse | fine
  · have multiple : (z : ℚ) * 2 ^ e =
        (z * 2 ^ (e - lastPlace n).toNat : ℤ) * 2 ^ lastPlace n := by
      have split : e = (e - lastPlace n).toNat + lastPlace n := by omega
      conv_lhs => rw [split, zpow_add₀ (by norm_num), zpow_natCast]
      push_cast
      ring
    rw [multiple]
    exact nearest_close_multiple n _
  · -- The number is finer than the last place, so it is no larger than the first digit.
    have small : |(z : ℚ) * 2 ^ e| ≤ 2 ^ 52 * 2 ^ lastPlace n := by
      have fits' : |(z : ℚ)| ≤ 2 ^ 53 := by exact_mod_cast fits.le
      have power : (0 : ℚ) < 2 ^ e := by positivity
      calc |(z : ℚ) * 2 ^ e| = |(z : ℚ)| * 2 ^ e := by rw [abs_mul, abs_of_pos power]
        _ ≤ 2 ^ 53 * 2 ^ e := by gcongr
        _ = 2 ^ 52 * 2 ^ (e + 1) := by rw [zpow_add_one₀ (by norm_num)]; ring
        _ ≤ 2 ^ 52 * 2 ^ lastPlace n := by
          gcongr
          · norm_num
          · omega
    have apart := abs_sub_abs_le_abs_sub (n : ℚ) (z * 2 ^ e)
    have first := nearest_close_first some
    linarith

/-- An integer with a mantissa of 53 digits is not changed. -/
theorem nearest_eq_self {n z e : ℤ} (fits : |z| < 2 ^ 53) (same : (n : ℚ) = z * 2 ^ e) :
    nearest n = n := by
  have close := @nearest_close n z e fits
  rw [← same, sub_self, abs_zero] at close
  exact (sub_eq_zero.mp (abs_nonpos_iff.mp close)).symm

theorem nearest_small {n : ℤ} (small : |n| ≤ 2 ^ 53) : nearest n = n := by
  rcases small.lt_or_eq with less | bound
  · exact nearest_eq_self less (show (n : ℚ) = n * 2 ^ (0 : ℤ) by simp)
  · rcases (abs_eq (by norm_num)).mp bound with rfl | rfl
    · exact @nearest_eq_self _ (2 ^ 52) 1 (by norm_num) (by norm_num)
    · exact @nearest_eq_self _ (-2 ^ 52) 1 (by norm_num) (by norm_num)

/-! ### Extended mantissas -/

/-- The mantissa is the integer part of the number, and the two bits beside it say how the
rest compares with one half. -/
structure Records (em : ExtendedMantissa) (q : ℚ) : Prop where
  low : em.mantissa ≤ q
  high : q < em.mantissa + 1
  round : em.roundBit = true ↔ em.mantissa + 1 / 2 ≤ q
  sticky : em.stickyBit = true ↔ q ≠ em.mantissa ∧ q ≠ em.mantissa + 1 / 2

theorem records_exact (m : ℕ) : Records (.ofMantissaAndAccuracy m .exact) m where
  low := le_rfl
  high := lt_add_one _
  round := iff_of_false Bool.false_ne_true (by simp [ExtendedMantissa.ofMantissaAndAccuracy])
  sticky := iff_of_false Bool.false_ne_true fun other => other.1 rfl

variable {em : ExtendedMantissa} {q : ℚ}

theorem Records.inexact (records : Records em q) :
    (em.roundBit || em.stickyBit) = true ↔ q ≠ em.mantissa := by
  rw [Bool.or_eq_true, records.round, records.sticky]
  constructor
  · rintro (above | ⟨some, -⟩)
    · linarith
    · exact some
  · intro some
    by_cases half : q = em.mantissa + 1 / 2
    · exact .inl half.ge
    · exact .inr ⟨some, half⟩

/-- The digit that is shifted out becomes the new round bit. -/
theorem Records.shiftRightOne (records : Records em q) : Records em.shiftRightOne (q / 2) := by
  have parts : (em.mantissa : ℚ) = 2 * (em.mantissa / 2 : ℕ) + (em.mantissa % 2 : ℕ) := by
    exact_mod_cast (Nat.div_add_mod em.mantissa 2).symm
  have low := records.low
  have high := records.high
  have inexact := records.inexact
  rw [ExtendedMantissa.shiftRightOne]
  rcases Nat.mod_two_eq_zero_or_one em.mantissa with even | odd
  · rw [even, Nat.cast_zero] at parts
    refine ⟨by linarith, by linarith, iff_of_false (by simp [even]) (by linarith), ?_⟩
    rw [inexact]
    refine ⟨fun some => ⟨fun whole => some ?_, fun half => ?_⟩, fun others whole => others.1 ?_⟩ <;>
      linarith
  · rw [odd, Nat.cast_one] at parts
    refine ⟨by linarith, by linarith, iff_of_true (by simp [odd]) (by linarith), ?_⟩
    rw [inexact]
    refine ⟨fun some => ⟨fun whole => ?_, fun half => some ?_⟩, fun others whole => others.2 ?_⟩ <;>
      linarith

theorem Records.shiftRight (records : Records em q) (k : ℕ) : Records (em >>> k) (q / 2 ^ k) := by
  induction k with
  | zero =>
    rw [pow_zero, div_one]
    exact records
  | succ k ih =>
    rw [pow_succ, ← div_div]
    exact ih.shiftRightOne

theorem Records.rounded (records : Records em q) : (em.roundedMantissa : ℤ) = roundEven q := by
  obtain ⟨low, high, round, sticky⟩ := records
  have floor : ⌊q⌋ = em.mantissa := Int.floor_eq_iff.mpr ⟨low, high⟩
  have rest : Int.fract q = q - em.mantissa := by rw [Int.fract, floor, Int.cast_natCast]
  rw [roundEven, floor, rest]
  obtain ⟨m, roundBit, stickyBit⟩ := em
  cases roundBit with
  | false =>
    have below : q < m + 1 / 2 := not_le.mp fun above => Bool.false_ne_true (round.mpr above)
    rw [if_pos (by linarith)]
    cases stickyBit <;> rfl
  | true =>
    have above : m + 1 / 2 ≤ q := round.mp rfl
    rw [if_neg (by linarith)]
    cases stickyBit with
    | false =>
      have half : q = m + 1 / 2 := by
        by_contra other
        exact Bool.false_ne_true (sticky.mpr ⟨by linarith, other⟩)
      rw [if_neg (by linarith)]
      rfl
    | true =>
      have more : m + 1 / 2 < q := above.lt_of_ne' (sticky.mp rfl).2
      rw [if_pos (by linarith)]
      rfl

/-! ### Rounding of mantissas -/

/-- A positive number whose mantissa has all its 53 digits, and what it stands for. -/
inductive Normal : UnpackedFloat → ℚ → Prop where
  | intro {m : ℕ} {e : ℤ} (positive : 0 < m) (full : 2 ^ 52 ≤ m) (fits : m < 2 ^ 53)
      (least : -1074 ≤ e) (greatest : e ≤ 971) : Normal (.finite .positive m e positive) (m * 2 ^ e)

theorem targetExponent_eq {m : ℕ} {e : ℤ} (least : -1074 ≤ m.log2 + e - 52) :
    Format.binary64.targetExponent (totalExponent m e) = m.log2 + e - 52 := by
  rw [Format.targetExponent, totalExponent]
  change max ((m.log2 : ℤ) + 1 + e - 53) (-1074) = _
  omega

/-- A mantissa that has become too long by rounding is a power of two; it is shifted once
more, and stands for the same number. -/
theorem carry {r : ℕ} {e : ℤ} (full : 2 ^ 52 ≤ r) (long : r ≤ 2 ^ 53) (least : -1074 ≤ e) :
    ∃ m d, (shiftToTargetExponent .binary64 r e .exact).1.mantissa = m ∧
      (shiftToTargetExponent .binary64 r e .exact).2 = d ∧
      2 ^ 52 ≤ m ∧ m < 2 ^ 53 ∧ e ≤ d ∧ d ≤ e + 1 ∧ (m : ℚ) * 2 ^ d = r * 2 ^ e := by
  rcases long.lt_or_eq with fits | rfl
  · have digits : r.log2 = 52 := (Nat.log2_eq_iff (by omega)).mpr ⟨full, fits⟩
    have still : (Format.binary64.targetExponent (totalExponent r e) - e).toNat = 0 := by
      rw [targetExponent_eq (by omega)]
      omega
    refine ⟨r, e, ?_, ?_, full, fits, le_rfl, by omega, rfl⟩
    · rw [shiftToTargetExponent, shiftToExponent, still]
      rfl
    · rw [shiftToTargetExponent, shiftToExponent, still]
      exact add_zero e
  · have digits : (2 ^ 53).log2 = 53 := Nat.log2_two_pow
    have once : (Format.binary64.targetExponent (totalExponent (2 ^ 53) e) - e).toNat = 1 := by
      rw [targetExponent_eq (by omega)]
      omega
    refine ⟨2 ^ 52, e + 1, ?_, ?_, le_rfl, by norm_num, by omega, le_rfl, ?_⟩
    · rw [shiftToTargetExponent, shiftToExponent, once]
      rfl
    · rw [shiftToTargetExponent, shiftToExponent, once]
      rfl
    · rw [zpow_add_one₀ (by norm_num)]
      push_cast
      ring

/-- An integer that is rounded has its 53 digits, or one more. -/
theorem roundEven_bounds {n : ℕ} (some : 0 < n) :
    2 ^ 52 ≤ roundEven (n / 2 ^ lastPlace n) ∧ roundEven (n / 2 ^ lastPlace n) ≤ 2 ^ 53 := by
  have unit := lastPlace_pos n
  have half := abs_le.mp (abs_sub_roundEven (n / 2 ^ lastPlace n))
  obtain ⟨first, next⟩ := @lastPlace_bounds n (by omega)
  rw [Int.cast_natCast, Nat.abs_cast] at first next
  have above : (2 ^ 52 : ℚ) ≤ n / 2 ^ lastPlace n := (le_div_iff₀ unit).mpr first
  have below : (n / 2 ^ lastPlace n : ℚ) < 2 ^ 53 := (div_lt_iff₀ unit).mpr next
  constructor
  · have reached : ((2 ^ 52 : ℤ) : ℚ) < (roundEven (n / 2 ^ lastPlace n) + 1 : ℤ) := by
      push_cast
      linarith
    exact Int.lt_add_one_iff.mp (by exact_mod_cast reached)
  · have reached : (roundEven (n / 2 ^ lastPlace n) : ℚ) < (2 ^ 53 + 1 : ℤ) := by
      push_cast
      linarith
    exact Int.lt_add_one_iff.mp (by exact_mod_cast reached)

/-- The first digit of a scaled integer is as many places further as it is scaled by. -/
theorem log2_scaled {m n : ℕ} {e : ℤ} (first : 0 < m) (second : 0 < n)
    (same : (m : ℚ) * 2 ^ e = n) : m.log2 + e = n.log2 := by
  have digits {k : ℕ} (some : 0 < k) :
      (2 : ℚ) ^ (k.log2 : ℤ) ≤ k ∧ (k : ℚ) < 2 ^ ((k.log2 : ℤ) + 1) := by
    have bounds := (Nat.log2_eq_iff some.ne').mp rfl
    rw [← Nat.cast_add_one, zpow_natCast, zpow_natCast]
    exact_mod_cast bounds
  obtain ⟨low, high⟩ := digits first
  obtain ⟨low', high'⟩ := digits second
  have power : (0 : ℚ) < 2 ^ e := by positivity
  have scale (d : ℤ) : (2 : ℚ) ^ (d + e) = 2 ^ d * 2 ^ e := zpow_add₀ (by norm_num) d e
  have below : (2 : ℚ) ^ ((m.log2 : ℤ) + e) < 2 ^ ((n.log2 : ℤ) + 1) := by
    calc (2 : ℚ) ^ ((m.log2 : ℤ) + e) ≤ m * 2 ^ e := by rw [scale]; gcongr
      _ < 2 ^ ((n.log2 : ℤ) + 1) := by rw [same]; exact high'
  have above : (2 : ℚ) ^ (n.log2 : ℤ) < 2 ^ ((m.log2 : ℤ) + 1 + e) := by
    calc (2 : ℚ) ^ (n.log2 : ℤ) ≤ m * 2 ^ e := by rw [same]; exact low'
      _ < 2 ^ ((m.log2 : ℤ) + 1 + e) := by rw [scale]; gcongr
  have less := (zpow_lt_zpow_iff_right₀ (by norm_num)).mp below
  have less' := (zpow_lt_zpow_iff_right₀ (by norm_num)).mp above
  omega

/-- However an integer is written with a mantissa and an exponent, it is rounded to the nearest
number. -/
theorem round_nearest {m n : ℕ} {e : ℤ} (some : 0 < n) (same : (m : ℚ) * 2 ^ e = n)
    (full : 2 ^ 52 ≤ m) (range : n.log2 ≤ 1022) :
    Normal (roundWithAccuracy .binary64 .positive m e .exact) (nearest n) := by
  have digits : 52 ≤ m.log2 := (Nat.le_log2 (by omega)).mpr full
  have long := log2_scaled (by omega) some same
  have place : lastPlace n = n.log2 - 52 := by rw [lastPlace, Int.natAbs_natCast]
  have target : Format.binary64.targetExponent (totalExponent m e) = lastPlace n := by
    rw [targetExponent_eq (by omega), long, place]
  obtain ⟨k, shift⟩ : ∃ k : ℕ, lastPlace n = e + k := ⟨m.log2 - 52, by omega⟩
  set em := ExtendedMantissa.ofMantissaAndAccuracy m .exact >>> k
  have first : shiftToTargetExponent .binary64 m e .exact = (em, lastPlace n) := by
    have amount : (lastPlace n - e).toNat = k := by omega
    rw [shiftToTargetExponent, shiftToExponent, target, amount, shift]
  have rounded : (em.roundedMantissa : ℤ) = roundEven (n / 2 ^ lastPlace n) := by
    have scaled : (m : ℚ) / 2 ^ k = n / 2 ^ lastPlace n := by
      rw [← same, shift, zpow_add₀ (by norm_num), zpow_natCast, mul_comm (m : ℚ)]
      exact (mul_div_mul_left _ _ (by positivity)).symm
    rw [← scaled]
    exact ((records_exact _).shiftRight k).rounded
  have value : (em.roundedMantissa : ℚ) * 2 ^ lastPlace n = nearest n := by
    rw [nearest, Int.cast_natCast, ← rounded, Int.cast_natCast]
  have bounds := roundEven_bounds some
  rw [← rounded] at bounds
  obtain ⟨m', e', mantissa, exponent, full', fits, low, high, same'⟩ :=
    @carry em.roundedMantissa (lastPlace n) (by omega) (by omega) (by omega)
  have positive : 0 < m' := by omega
  have result : roundWithAccuracy .binary64 .positive m e .exact =
      .finite .positive m' e' positive := by
    rw [roundWithAccuracy, first]
    simp only [mantissa, exponent]
    rw [dif_neg positive.ne']
  rw [result, ← value, ← same']
  exact .intro positive full' fits (by omega) (by omega)

/-! ### Packed numbers -/

theorem unpackSign_packComponents {format : Format} {sign : Sign}
    {e : BitVec format.exponentBits} {m : BitVec format.mantissaBitsWithoutImplicit} :
    unpackSign (packComponents format sign e m) = sign.toBitVec := by
  ext i hi
  have only : i = 0 := by omega
  subst only
  simp [unpackSign, packComponents, BitVec.getLsbD_append, BitVec.getElem_append]

theorem ofBitVec_toBitVec (sign : Sign) : Sign.ofBitVec sign.toBitVec = sign := by
  cases sign <;> rfl

theorem unpack_components {sign : Sign} {field m : ℕ} (some : 0 < field) (less : field < 2047)
    (full : 2 ^ 52 ≤ m) (fits : m < 2 ^ 53) (positive : 0 < m) :
    unpack .binary64 (packComponents .binary64 sign (BitVec.ofNat 11 field) (BitVec.ofNat 52 m)) =
      .finite sign m (field - 1075) positive := by
  have stored : (BitVec.ofNat 11 field).toNat = field := by
    rw [BitVec.toNat_ofNat, Nat.mod_eq_of_lt (by omega)]
  have greatest : BitVec.ofNat 11 field ≠ -1#11 := by
    intro same
    have numbers := congrArg BitVec.toNat same
    rw [stored] at numbers
    change field = 2047 at numbers
    omega
  have least : BitVec.ofNat 11 field ≠ 0#11 := by
    intro same
    have numbers := congrArg BitVec.toNat same
    rw [stored] at numbers
    exact some.ne' numbers
  have whole : (1#1 ++ BitVec.ofNat 52 m).toNat = m := by
    rw [BitVec.toNat_append, ← Nat.shiftLeft_add_eq_or_of_lt (BitVec.isLt _)]
    change 2 ^ 52 + m % 2 ^ 52 = m
    omega
  rw [UnpackedFloat.unpack]
  simp only [unpackExponent_packComponents, unpackMantissa_packComponents,
    unpackSign_packComponents, ofBitVec_toBitVec]
  rw [if_neg greatest, if_neg least]
  simp only [whole, stored]
  rfl

/-- A number whose mantissa has all its digits is unpacked as it was packed. -/
theorem unpack_pack {sign : Sign} {m : ℕ} {e : ℤ} {positive : 0 < m} (full : 2 ^ 52 ≤ m)
    (fits : m < 2 ^ 53) (least : -1074 ≤ e) (greatest : e ≤ 971) :
    (Float.Model.pack (.finite sign m e positive)).unpack = .finite sign m e positive := by
  have digits : m.log2 = 52 := (Nat.log2_eq_iff (by omega)).mpr ⟨full, fits⟩
  obtain ⟨field, biased⟩ : ∃ field : ℕ, (field : ℤ) = e + 1023 + 52 :=
    ⟨(e + 1023 + 52).toNat, Int.toNat_of_nonneg (by omega)⟩
  have packed : UnpackedFloat.pack .binary64 (.finite sign m e positive) =
      packComponents .binary64 sign (BitVec.ofNat 11 field) (BitVec.ofNat 52 m) := by
    have amount : (e + (Format.exponentBias .binary64 : ℕ) + (52 : ℕ)).toNat = field := by
      change (e + ((1023 : ℕ) : ℤ) + ((52 : ℕ) : ℤ)).toNat = field
      omega
    simp only [UnpackedFloat.pack, amount]
    rw [if_neg (by omega), if_pos (by rw [digits]; rfl)]
  rw [Float.Model.pack, Float.Model.unpack]
  change UnpackedFloat.unpack .binary64 (UnpackedFloat.pack .binary64 _) = _
  rw [packed, unpack_components (by omega) (by omega) full fits positive, biased]
  congr 1
  omega

/-! ### Integers -/

theorem Normal.unpack_pack {f : UnpackedFloat} {q : ℚ} (normal : Normal f q) :
    (Float.Model.pack f).unpack = f := by
  cases normal with
  | intro positive full fits least greatest => exact Number.unpack_pack full fits least greatest

/-- Zeros that are written after an integer are taken away by the exponent. -/
theorem zeros_cancel (n k : ℕ) : ((n * 2 ^ k : ℕ) : ℚ) * 2 ^ (-k : ℤ) = n := by
  rw [Nat.cast_mul, Nat.cast_pow, Nat.cast_ofNat, zpow_neg, zpow_natCast,
    mul_inv_cancel_right₀ (by positivity)]

/-- A word of few digits is a number as it is. -/
theorem unpack_toFloat {n : ℕ} (some : 0 < n) (small : n < 2 ^ 53) :
    Normal n.toUInt64.toFloat.toModel.unpack n := by
  have short : n.log2 < 53 := (Nat.log2_lt some.ne').mpr small
  have word : n.toUInt64.toNat = n := by
    change n % 2 ^ 64 = n
    exact Nat.mod_eq_of_lt (by omega)
  obtain ⟨k, filled⟩ : ∃ k : ℕ, n.log2 + k = 52 := ⟨52 - n.log2, by omega⟩
  have full : 2 ^ 52 ≤ n * 2 ^ k := by
    rw [← filled, pow_add]
    exact Nat.mul_le_mul_right _ (Nat.log2_self_le some.ne')
  have converted : UnpackedFloat.ofUInt64 .binary64 n.toUInt64 =
      roundWithAccuracy .binary64 .positive (n * 2 ^ k) (-k) .exact := by
    have target : Format.binary64.targetExponent (totalExponent n 0) = -k := by
      rw [targetExponent_eq (by omega)]
      omega
    have amount : (0 - -(k : ℤ)).toNat = k := by omega
    rw [UnpackedFloat.ofUInt64, word, UnpackedFloat.ofNat, UnpackedFloat.ofInt,
      UnpackedFloat.normalize, compare_gt_iff_gt.mpr (by omega : (n : ℤ) > 0)]
    simp only [Int.toNat_natCast, UnpackedFloat.round, target, decreaseExponent, amount,
      Nat.shiftLeft_eq]
    rw [zero_sub]
  have normal : Normal (UnpackedFloat.ofUInt64 .binary64 n.toUInt64) n := by
    rw [converted]
    have rounded := round_nearest some (zeros_cancel n k) full (by omega)
    rwa [nearest_small (by rw [Nat.abs_cast]; omega), Int.cast_natCast] at rounded
  change Normal (Float.Model.pack (UnpackedFloat.ofUInt64 .binary64 n.toUInt64)).unpack n
  rwa [normal.unpack_pack]

theorem mul_nearest {m m' n : ℕ} {e e' : ℤ} {positive : 0 < m} {positive' : 0 < m'} (some : 0 < n)
    (same : ((m * m' : ℕ) : ℚ) * 2 ^ (e + e') = n) (full : 2 ^ 52 ≤ m * m')
    (range : n.log2 ≤ 1022) :
    Normal (UnpackedFloat.mul .binary64 (.finite .positive m e positive)
      (.finite .positive m' e' positive')) (nearest n) :=
  round_nearest some same full range

/-- An integer of few digits is a word's number times one. -/
theorem mul_one_nearest {n : ℕ} (some : 0 < n) (few : n < 2 ^ 53) :
    Normal (UnpackedFloat.mul .binary64 n.toUInt64.toFloat.toModel.unpack
      (.finite .positive (2 ^ 52) (-52) (by norm_num))) (nearest n) := by
  have short : n.log2 < 53 := (Nat.log2_lt some.ne').mpr few
  have word := unpack_toFloat some few
  generalize n.toUInt64.toFloat.toModel.unpack = f, value : (n : ℚ) = q at word ⊢
  cases word with
  | @intro m e positive full fits least greatest =>
    have same : ((m * 2 ^ 52 : ℕ) : ℚ) * 2 ^ (e + -52) = n := by
      rw [value, zpow_add₀ (by norm_num)]
      push_cast
      ring
    exact mul_nearest some same (by omega) (by omega)

/-- An integer of many digits gets 53 zeros, and the exponent takes them away. -/
theorem ofScientific_nearest {n : ℕ} (many : 2 ^ 53 ≤ n) (range : n.log2 ≤ 1022) :
    Normal (UnpackedFloat.ofScientific .binary64 n 0) (nearest n) := by
  have some : 0 < n := by omega
  have bits : Format.binary64.mantissaBits = 53 := rfl
  have span : (0 : ℤ) ≤ 2 ^ Format.binary64.exponentBits := by positivity
  rw [UnpackedFloat.ofScientific, dif_neg some.ne', if_neg (by omega), if_neg (by omega),
    if_pos le_rfl]
  refine mul_nearest some ?_ ?_ range
  · rw [bits, Nat.shiftLeft_eq, Int.toNat_zero, pow_zero, mul_one, add_zero]
    exact zeros_cancel n 53
  · rw [bits, Nat.shiftLeft_eq, Int.toNat_zero, pow_zero, mul_one]
    omega

/-- A positive integer in the range is converted to the nearest number. -/
theorem unpack_ofNat {n : ℕ} (some : 0 < n) (range : n.log2 ≤ 1022) :
    Normal (Float.ofNat n).toModel.unpack (nearest n) := by
  rw [Float.ofNat, OfScientific.ofScientific, instOfScientificFloat]
  simp only [Float.ofScientific]
  split
  · rename_i few
    have one : (Float.exactlyRepresentablePowersOfTen[0]).toModel.unpack =
        .finite .positive (2 ^ 52) (-52) (by norm_num) := rfl
    have product := mul_one_nearest some few.1
    change Normal (Float.Model.pack (UnpackedFloat.mul .binary64 _
      (Float.exactlyRepresentablePowersOfTen[0]).toModel.unpack)).unpack (nearest n)
    rwa [one, product.unpack_pack]
  · rename_i many
    have product := ofScientific_nearest (show 2 ^ 53 ≤ n by omega) range
    change Normal (Float.Model.pack (UnpackedFloat.ofScientific .binary64 n 0)).unpack (nearest n)
    rwa [product.unpack_pack]

theorem exact_ofNat {n : ℕ} (range : n.log2 ≤ 1022) :
    (Float.ofNat n).isFinite = true ∧ exact (Float.ofNat n) = nearest n := by
  rcases Nat.eq_zero_or_pos n with rfl | some
  · rw [Nat.cast_zero, nearest_zero]
    exact ⟨rfl, rfl⟩
  · change (Float.ofNat n).toModel.unpack.isFinite = true ∧
      unpackedExact (Float.ofNat n).toModel.unpack = nearest n
    have normal := unpack_ofNat some range
    generalize (Float.ofNat n).toModel.unpack = f, nearest n = q at normal ⊢
    cases normal with
    | intro positive full fits least greatest => exact ⟨rfl, scaled_positive⟩

/-- An integer in the range is converted to the nearest number. -/
theorem exact_ofInt {n : ℤ} (range : n.natAbs.log2 ≤ 1022) :
    (Float.ofInt n).isFinite = true ∧ exact (Float.ofInt n) = nearest n := by
  cases n with
  | ofNat n => exact exact_ofNat range
  | negSucc n =>
    have normal := unpack_ofNat (Nat.succ_pos n) range
    change (Float.Model.pack (Float.ofNat (n + 1)).toModel.unpack.neg).unpack.isFinite = true ∧
      unpackedExact (Float.Model.pack (Float.ofNat (n + 1)).toModel.unpack.neg).unpack = _
    rw [Int.negSucc_eq, ← Nat.cast_add_one, nearest_neg]
    generalize (Float.ofNat (n + 1)).toModel.unpack = f, nearest (n + 1 : ℕ) = q at normal ⊢
    cases normal with
    | intro positive full fits least greatest =>
      have unpacked := @unpack_pack .negative _ _ positive full fits least greatest
      rw [UnpackedFloat.neg]
      change (Float.Model.pack (.finite .negative _ _ _)).unpack.isFinite = true ∧
        unpackedExact (Float.Model.pack (.finite .negative _ _ _)).unpack = _
      rw [unpacked]
      exact ⟨rfl, scaled_negative⟩

/-! ### Integers among the other numbers -/

variable {n : ℤ} {x : Float}

/-- A finite number has a mantissa of 53 digits at the most. -/
theorem exact_digits (x : Float) : ∃ z e : ℤ, |z| < 2 ^ 53 ∧ exact x = z * 2 ^ e := by
  have canonical := canonical_unpack x.toModel
  rw [exact]
  generalize x.toModel.unpack = f at canonical ⊢
  cases f with
  | finite sign m e positive =>
    refine ⟨sign.apply m, e, ?_, rfl⟩
    have fits : |(m : ℤ)| < 2 ^ 53 := by
      rw [Nat.abs_cast]
      exact_mod_cast canonical.fits
    cases sign with
    | positive => exact fits
    | negative => rwa [Sign.apply, abs_neg]
  | zero sign | infinity sign | notANumber => exact ⟨0, 0, by norm_num, by simp [unpackedExact]⟩

/-- No floating-point number is nearer to an integer than the one it is rounded to. -/
theorem nearest_close_exact (n : ℤ) (x : Float) : |(n : ℚ) - nearest n| ≤ |(n : ℚ) - exact x| := by
  obtain ⟨z, e, fits, same⟩ := exact_digits x
  rw [same]
  exact nearest_close fits

/-- Rounding does not carry an integer past a floating-point number. -/
theorem exact_le_nearest (below : exact x ≤ n) : exact x ≤ nearest n := by
  by_contra less
  have close := nearest_close_exact n x
  rw [abs_of_nonneg (by linarith), abs_of_nonneg (by linarith)] at close
  linarith

theorem nearest_le_exact (above : n ≤ exact x) : nearest n ≤ exact x := by
  by_contra less
  have close := nearest_close_exact n x
  rw [abs_of_nonpos (by linarith), abs_of_nonpos (by linarith)] at close
  linarith

/-- The integer is itself a floating-point number. -/
def Representable (n : ℤ) : Prop := ∃ x : Float, x.isFinite = true ∧ exact x = n

theorem Representable.nearest (representable : Representable n) : nearest n = n := by
  obtain ⟨x, -, same⟩ := representable
  obtain ⟨z, e, fits, digits⟩ := exact_digits x
  exact nearest_eq_self fits (same.symm.trans digits)

theorem word_in_range (low : -2 ^ 63 ≤ n) (high : n ≤ 2 ^ 63) : n.natAbs.log2 ≤ 1022 := by
  rcases eq_or_ne n 0 with rfl | some
  · exact Nat.zero_le _
  · have short := (Nat.log2_lt (Int.natAbs_ne_zero.mpr some)).mpr
      (show n.natAbs < 2 ^ 64 by omega)
    omega

theorem representable_small (small : |n| ≤ 2 ^ 53) : Representable n := by
  obtain ⟨low, high⟩ := abs_le.mp small
  obtain ⟨finite, same⟩ := exact_ofInt (@word_in_range n (by omega) (by omega))
  exact ⟨_, finite, same.trans (nearest_small small)⟩

/-- Every word is converted to the nearest number. -/
theorem exact_word (n : Int64) :
    (Float.ofInt n.toInt).isFinite = true ∧ exact (Float.ofInt n.toInt) = nearest n.toInt :=
  exact_ofInt (word_in_range n.le_toInt n.toInt_lt.le)

end GraphTransformation.Number
