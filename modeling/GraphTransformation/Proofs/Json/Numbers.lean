import GraphTransformation.Json.Number
import Mathlib

/-!
Number literals at the front of a text.

The scanner takes as much as belongs to the literal, so what it makes of a literal does not depend
on what follows, if that does not go on with the literal (`scanNumber_append`). The decimal text
of an integer is such a literal, and stands for the integer (`scanNumber_repr`).
-/

namespace GraphTransformation

namespace Decimal

/-- A text of digits has the value of the digits before the last one and of the last one. -/
theorem natOfDigits_append (ds : List Char) (d : Char) :
    natOfDigits (ds ++ [d]) = natOfDigits ds * 10 + digit d := by
  rw [natOfDigits, List.foldl_append]
  rfl

theorem natOfDigits_toDigits (n : Nat) : natOfDigits (Nat.toDigits 10 n) = n := by
  induction n using Nat.strongRecOn with
  | ind n ih =>
    by_cases small : n < 10
    · rw [Nat.toDigits_of_lt_base small]
      simp [natOfDigits, digit, Nat.toNat_digitChar_of_lt_ten small]
    · have last : n % 10 < 10 := Nat.mod_lt n (by decide)
      rw [Nat.toDigits_of_base_le (by decide) (by omega), natOfDigits_append, ih _ (by omega)]
      have value : digit (Nat.digitChar (n % 10)) = n % 10 := by
        simp [digit, Nat.toNat_digitChar_of_lt_ten last]
      rw [value]
      omega

/-- Only the text of zero begins with a zero. -/
theorem head?_toDigits {n : Nat} (head : (Nat.toDigits 10 n).head? = some '0') : n = 0 := by
  induction n using Nat.strongRecOn with
  | ind n ih =>
    by_cases small : n < 10
    · rw [Nat.toDigits_of_lt_base small] at head
      simpa using head
    · rw [Nat.toDigits_of_base_le (by decide) (by omega), List.head?_append_of_ne_nil _
        Nat.toDigits_ne_nil] at head
      have := ih (n / 10) (by omega) head
      omega

end Decimal

namespace Json

open Text (Symbol)

variable {cs rest tail : List Symbol} {ds : List Char}

/-- The text does not go on with a number literal. -/
def EndsNumber (rest : List Symbol) : Prop :=
  ∀ c tail, rest = some c :: tail → c.isDigit = false ∧ c ≠ '.' ∧ c ≠ 'e' ∧ c ≠ 'E'

theorem spanDigits_append (ends : EndsNumber rest) (cs : List Symbol) :
    spanDigits (cs ++ rest) = ((spanDigits cs).1, (spanDigits cs).2 ++ rest) := by
  induction cs with
  | nil =>
    cases rest with
    | nil => rfl
    | cons s rest =>
      cases s with
      | none => rfl
      | some c => simp [spanDigits, (ends c rest rfl).1]
  | cons s cs ih =>
    cases s with
    | none => rfl
    | some c =>
      cases digit : c.isDigit with
      | true => simp [spanDigits, digit, ih]
      | false => simp [spanDigits, digit]

theorem scanDigits_append (ends : EndsNumber rest) (scanned : scanDigits cs = some (ds, tail)) :
    scanDigits (cs ++ rest) = some (ds, tail ++ rest) := by
  simp only [scanDigits, spanDigits_append ends] at scanned ⊢
  split at scanned
  · cases scanned
  · rename_i some
    cases scanned
    rw [if_neg some]

theorem scanWhole_append (ends : EndsNumber rest) (scanned : scanWhole cs = some (ds, tail)) :
    scanWhole (cs ++ rest) = some (ds, tail ++ rest) := by
  obtain ⟨⟨digits, left⟩, first, check⟩ := Option.bind_eq_some_iff.mp scanned
  refine Option.bind_eq_some_iff.mpr ⟨(digits, left ++ rest), scanDigits_append ends first, ?_⟩
  simp only at check ⊢
  split at check
  · cases check
  · rename_i allowed
    cases check
    rw [if_neg allowed]
    rfl

/-- What follows does not affect a scan with its result changed if it does not affect the scan. -/
theorem map_append {α β : Type} {scan : List Symbol → Option (α × List Symbol)} (f : α → β) {b : β}
    (unaffected : ∀ {a tail}, scan cs = some (a, tail) → scan (cs ++ rest) = some (a, tail ++ rest))
    (scanned : ((scan cs).map fun (a, rest) => (f a, rest)) = some (b, tail)) :
    ((scan (cs ++ rest)).map fun (a, rest) => (f a, rest)) = some (b, tail ++ rest) := by
  obtain ⟨⟨a, left⟩, first, same⟩ := Option.map_eq_some_iff.mp scanned
  cases same
  rw [unaffected first]
  rfl

/-- Without a point there is no fraction. -/
theorem scanFraction_none (ends : EndsNumber rest) : scanFraction rest = some (none, rest) := by
  rw [scanFraction.eq_def]
  split
  · rename_i tail
    exact absurd rfl (ends '.' tail rfl).2.1
  · rfl

theorem scanFraction_append (ends : EndsNumber rest) {fraction : Option (List Char)}
    (scanned : scanFraction cs = some (fraction, tail)) :
    scanFraction (cs ++ rest) = some (fraction, tail ++ rest) := by
  rw [scanFraction.eq_def] at scanned
  split at scanned
  · exact map_append some (scanDigits_append ends) scanned
  · rename_i other
    cases scanned
    cases cs with
    | nil => exact scanFraction_none ends
    | cons s cs =>
      rw [scanFraction.eq_def]
      split
      · rename_i digits same
        cases same
        exact absurd rfl (other _)
      · rfl

theorem scanPower_append (ends : EndsNumber rest) {power : Int}
    (scanned : scanPower cs = some (power, tail)) :
    scanPower (cs ++ rest) = some (power, tail ++ rest) := by
  let value : List Char → Int := fun ds => Decimal.natOfDigits ds
  rw [scanPower.eq_def] at scanned
  split at scanned
  · exact map_append (fun ds => -(Decimal.natOfDigits ds : Int)) (scanDigits_append ends) scanned
  · exact map_append value (scanDigits_append ends) scanned
  · rename_i minus plus
    cases cs with
    | nil => cases scanned
    | cons s cs =>
      have unsigned : scanPower (s :: cs ++ rest) =
          (scanDigits (s :: cs ++ rest)).map fun found => (value found.1, found.2) := by
        rw [scanPower.eq_def]
        split
        · rename_i digits same
          cases same
          exact absurd rfl (minus _)
        · rename_i digits same
          cases same
          exact absurd rfl (plus _)
        · rfl
      exact unsigned.trans (map_append value (scanDigits_append ends) scanned)

theorem scanExponent_none (ends : EndsNumber rest) : scanExponent rest = some (none, rest) := by
  rw [scanExponent.eq_def]
  split
  · rename_i tail
    exact absurd rfl (ends 'e' tail rfl).2.2.1
  · rename_i tail
    exact absurd rfl (ends 'E' tail rfl).2.2.2
  · rfl

theorem scanExponent_append (ends : EndsNumber rest) {exponent : Option Int}
    (scanned : scanExponent cs = some (exponent, tail)) :
    scanExponent (cs ++ rest) = some (exponent, tail ++ rest) := by
  rw [scanExponent.eq_def] at scanned
  split at scanned
  · exact map_append some (scanPower_append ends) scanned
  · exact map_append some (scanPower_append ends) scanned
  · rename_i lower upper
    cases scanned
    cases cs with
    | nil => exact scanExponent_none ends
    | cons s cs =>
      rw [scanExponent.eq_def]
      split
      · rename_i power same
        cases same
        exact absurd rfl (lower _)
      · rename_i power same
        cases same
        exact absurd rfl (upper _)
      · rfl

/-- The text begins with the parts of the literal after its sign. -/
def Spells (negative : Bool) (cs : List Symbol) (n : NumberLiteral) (tail : List Symbol) : Prop :=
  ∃ whole afterWhole fraction afterFraction exponent,
    scanWhole cs = some (whole, afterWhole) ∧
      scanFraction afterWhole = some (fraction, afterFraction) ∧
      scanExponent afterFraction = some (exponent, tail) ∧
      n = { negative, whole, fraction := fraction.getD [], exponent := exponent.getD 0,
            integral := fraction.isNone && exponent.isNone }

theorem Spells.append {negative : Bool} {n : NumberLiteral} (spells : Spells negative cs n tail)
    (ends : EndsNumber rest) : Spells negative (cs ++ rest) n (tail ++ rest) := by
  obtain ⟨whole, afterWhole, fraction, afterFraction, exponent, first, second, third, rfl⟩ := spells
  exact ⟨whole, _, fraction, _, exponent, scanWhole_append ends first,
    scanFraction_append ends second, scanExponent_append ends third, rfl⟩

theorem spells_iff {negative : Bool} {n : NumberLiteral} :
    (do
      let (whole, cs) ← scanWhole cs
      let (fraction, cs) ← scanFraction cs
      let (exponent, cs) ← scanExponent cs
      return ({ negative, whole, fraction := fraction.getD [], exponent := exponent.getD 0,
                integral := fraction.isNone && exponent.isNone : NumberLiteral }, cs)) =
        some (n, tail) ↔ Spells negative cs n tail := by
  simp only [Spells, Option.bind_eq_bind, Option.bind_eq_some_iff, Prod.exists]
  constructor
  · rintro ⟨_, _, first, _, _, second, _, _, third, same⟩
    cases same
    exact ⟨_, _, _, _, _, first, second, third, rfl⟩
  · rintro ⟨_, _, _, _, _, first, second, third, rfl⟩
    exact ⟨_, _, first, _, _, second, _, _, third, rfl⟩

theorem scanNumber_minus {n : NumberLiteral} :
    scanNumber (some '-' :: cs) = some (n, tail) ↔ Spells true cs n tail :=
  spells_iff

theorem scanNumber_unsigned {n : NumberLiteral} (unsigned : ∀ body, cs ≠ some '-' :: body) :
    scanNumber cs = some (n, tail) ↔ Spells false cs n tail := by
  rw [scanNumber.eq_def]
  split
  rename_i negative body signed
  split at signed
  · exact absurd rfl (unsigned _)
  · cases signed
    exact spells_iff

/-- A literal that is followed by something else is scanned as it is on its own. -/
theorem scanNumber_append (ends : EndsNumber rest) {n : NumberLiteral}
    (scanned : scanNumber cs = some (n, tail)) :
    scanNumber (cs ++ rest) = some (n, tail ++ rest) := by
  cases cs with
  | nil => cases scanned
  | cons s cs =>
    by_cases minus : s = some '-'
    · rw [minus] at scanned ⊢
      exact scanNumber_minus.mpr ((scanNumber_minus.mp scanned).append ends)
    · have unsigned : ∀ body, s :: cs ≠ some '-' :: body := by
        intro body same
        cases same
        exact minus rfl
      have spells := (scanNumber_unsigned unsigned).mp scanned
      refine (scanNumber_unsigned fun body same => ?_).mpr (spells.append ends)
      cases same
      exact minus rfl

/-! ### Integers -/

/-- The literal that an integer is written as. -/
def integerLiteral (n : Int) : NumberLiteral :=
  ⟨decide (n < 0), Nat.toDigits 10 n.natAbs, [], 0, true⟩

theorem spanDigits_digits {ds : List Char} (digits : ∀ c ∈ ds, c.isDigit = true) :
    spanDigits (ds.map some) = (ds, []) := by
  induction ds with
  | nil => rfl
  | cons c ds ih =>
    obtain ⟨first, others⟩ := List.forall_mem_cons.mp digits
    simp [spanDigits, first, ih others]

theorem scanWhole_toDigits (n : Nat) :
    scanWhole ((Nat.toDigits 10 n).map some) = some (Nat.toDigits 10 n, []) := by
  have digits : ∀ c ∈ Nat.toDigits 10 n, c.isDigit = true := fun c =>
    Nat.isDigit_of_mem_toDigits (by decide) (by decide)
  have scanned : scanDigits ((Nat.toDigits 10 n).map some) = some (Nat.toDigits 10 n, []) := by
    simp [scanDigits, spanDigits_digits digits]
  have allowed : ¬ ((Nat.toDigits 10 n).head? == some '0' &&
      (Nat.toDigits 10 n).length != 1) = true := by
    intro leading
    rw [Bool.and_eq_true, beq_iff_eq] at leading
    obtain ⟨head, long⟩ := leading
    rw [Decimal.head?_toDigits head] at long
    exact absurd long (by decide)
  exact Option.bind_eq_some_iff.mpr ⟨_, scanned, if_neg allowed⟩

theorem spells_toDigits (negative : Bool) (n : Nat) :
    Spells negative ((Nat.toDigits 10 n).map some) ⟨negative, Nat.toDigits 10 n, [], 0, true⟩ [] :=
  ⟨_, [], none, [], none, scanWhole_toDigits n, rfl, rfl, rfl⟩

/-- The text of an integer is scanned as its literal. -/
theorem scanNumber_repr (n : Int) :
    scanNumber (n.repr.toList.map some) = some (integerLiteral n, []) := by
  rw [Int.repr_eq_if]
  by_cases positive : 0 ≤ n
  · have sign : decide (n < 0) = false := decide_eq_false (by omega)
    have magnitude : n.toNat = n.natAbs := by omega
    rw [if_pos positive, Nat.toList_repr, integerLiteral, sign, magnitude]
    refine (scanNumber_unsigned fun body same => ?_).mpr (spells_toDigits false n.natAbs)
    have digit : ('-' : Char) ∈ Nat.toDigits 10 n.natAbs := by
      have there : some '-' ∈ (Nat.toDigits 10 n.natAbs).map some := same ▸ List.mem_cons_self
      simpa using there
    exact absurd (Nat.isDigit_of_mem_toDigits (by decide) (by decide) digit) (by decide)
  · have sign : decide (n < 0) = true := decide_eq_true (by omega)
    have magnitude : (-n).toNat = n.natAbs := by omega
    rw [if_neg positive, String.toList_append, Nat.toList_repr, integerLiteral, sign, magnitude]
    exact scanNumber_minus.mpr (spells_toDigits true n.natAbs)

/-- Integers of 64 bits, signed or not, are not taken for floating-point numbers. -/
theorem integerLiteral_draft {n : Int} (low : -2 ^ 63 ≤ n) (high : n < 2 ^ 64) :
    (integerLiteral n).draft = .int n := by
  have size : UInt64.size = 2 ^ 64 := rfl
  rw [NumberLiteral.draft]
  simp only [integerLiteral, Decimal.natOfDigits_toDigits, Bool.true_and]
  by_cases negative : n < 0
  · have magnitude : n.natAbs ≠ 0 ∧ 2 * n.natAbs ≤ UInt64.size := by omega
    have same : (-(n.natAbs : Int)) = n := by omega
    rw [if_neg (by simp [negative]), if_pos (by simpa [negative] using magnitude), same]
  · have magnitude : n.natAbs < UInt64.size := by omega
    have same : (n.natAbs : Int) = n := by omega
    rw [if_pos (by simp [negative, magnitude]), same]

end Json

end GraphTransformation
