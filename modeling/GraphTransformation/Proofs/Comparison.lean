import GraphTransformation.Pattern
import GraphTransformation.Proofs.Graph.Conditions
import GraphTransformation.Proofs.Number.Rounding

/-!
Integers compared with other values.

Whatever compares an integer compares its floating-point view: the equality of values, the
conditions and the requirements of a pattern that are built on it, and the bounds of a
range. The view is the number that the integer is rounded to, so an integer is the same as
every value whose view is that number (`Value.RoundsTo`), and it lies in a range if the
rounded number does (`Condition.Between`). Between integers that are floating-point numbers
themselves, and all up to 2 ^ 53 are, the comparison is exact. Beyond, different integers
are the same, 2 ^ 53 and its successor being the first (`Value.int_compared`,
`Value.successor_same`).
-/

namespace GraphTransformation

open Number (exact nearest Representable exact_word)

/-! ### Equality -/

namespace Value

/-- The value is a number, and its view is the one that the integer is rounded to. -/
def RoundsTo (x : Int64) : Value → Prop
  | .int y => nearest y.toInt = nearest x.toInt
  | .float y => y.isFinite = true ∧ exact y = nearest x.toInt
  | .bool _ | .string _ => False

variable {x y : Int64} {v : Value}

theorem int_sameAs_iff : (int x).sameAs v = true ↔ RoundsTo x v := by
  obtain ⟨finite, view⟩ := exact_word x
  cases v with
  | bool b => exact iff_of_false Bool.false_ne_true id
  | string s => exact iff_of_false Bool.false_ne_true id
  | int y =>
    obtain ⟨finite', view'⟩ := exact_word y
    change (Float.ofInt x.toInt == Float.ofInt y.toInt) = true ↔ _
    rw [Number.beq_iff finite finite', view, view', RoundsTo, eq_comm]
  | float y =>
    change (Float.ofInt x.toInt == y) = true ↔ _
    by_cases finite' : y.isFinite = true
    · rw [Number.beq_iff finite finite', view, RoundsTo, eq_comm, and_iff_right finite']
    · exact iff_of_false (fun same => finite' (Number.isFinite_of_beq finite same))
        fun rounds => finite' rounds.1

/-- Integers that are floating-point numbers are the same only if they are equal. -/
theorem roundsTo_int_iff (first : Representable x.toInt) (second : Representable y.toInt) :
    RoundsTo x (int y) ↔ x = y := by
  rw [RoundsTo, first.nearest, second.nearest, Int.cast_inj, Int64.toInt_inj, eq_comm]

end Value

/-! ### Ranges -/

namespace Condition

/-- The bounds that are given have the number between them. -/
def Between (min max : Option Float) (q : ℚ) : Prop :=
  (∀ a ∈ min, exact a ≤ q) ∧ ∀ b ∈ max, q ≤ exact b

variable {min max : Option Float} {x : Int64}

theorem range_int_iff (below : ∀ a ∈ min, a.isFinite = true)
    (above : ∀ b ∈ max, b.isFinite = true) :
    (range min max).holds (some (.int x)) = true ↔ Between min max (nearest x.toInt) := by
  obtain ⟨finite, view⟩ := exact_word x
  change within min max (Float.ofInt x.toInt) = true ↔ _
  rw [within_iff, Inside, Between, ← view]
  refine and_congr (forall₂_congr fun a mem => ?_) (forall₂_congr fun b mem => ?_)
  · exact Number.le_iff (below a mem) finite
  · exact Number.le_iff finite (above b mem)

/-- Rounding carries no integer out of a range. -/
theorem Between.nearest (between : Between min max x.toInt) :
    Between min max (nearest x.toInt) :=
  ⟨fun a mem => Number.exact_le_nearest (between.1 a mem),
    fun b mem => Number.nearest_le_exact (between.2 b mem)⟩

end Condition

/-! ### Patterns -/

namespace Pattern

/-- A pattern admits attributes as far as it does not ask for this one. -/
def AdmitsBut (p : Pattern) (name : String) (element : Element) (own attributes : Attributes) :
    Prop :=
  (∀ other v, other ≠ name → own.get? other = some v →
    (attributes.get? other).any (·.sameAs v) = true) ∧
  (p.constraint? element).all (·.holds attributes) = true

variable {p : Pattern} {element : Element} {own attributes : Attributes} {name : String} {v : Value}

theorem admits_iff (stored : p.graph.attributes? element = some own)
    (required : own.get? name = some v) :
    p.admits element attributes = true ↔
      (attributes.get? name).any (·.sameAs v) = true ∧ p.AdmitsBut name element own attributes := by
  rw [admits, stored]
  simp only [Bool.and_eq_true, List.all_eq_true]
  rw [AdmitsBut, ← and_assoc]
  refine and_congr_left fun _ => ⟨fun all => ⟨?_, ?_⟩, ?_⟩
  · exact all (name, v) (SortedMap.mem_toList_of_get? required)
  · intro other w _ bound
    exact all (other, w) (SortedMap.mem_toList_of_get? bound)
  · rintro ⟨same, others⟩ ⟨other, w⟩ mem
    have bound := SortedMap.get?_of_mem_toList mem
    by_cases here : other = name
    · subst here
      cases required.symm.trans bound
      exact same
    · exact others other w here bound

end Pattern

/-! ### Integers -/

namespace Value

/-- An integer is compared as the number that it is rounded to: with a value, by a condition,
by a pattern that requires the value, and with finite bounds. No integer between the bounds is
excluded. Where the integers are floating-point numbers themselves, they are compared exactly. -/
theorem int_compared (x : Int64) :
    (∀ v, ((int x).sameAs v = true ↔ RoundsTo x v) ∧
      ((Condition.equals v).holds (some (int x)) = true ↔ RoundsTo x v) ∧
      ((Condition.notEquals v).holds (some (int x)) = true ↔ ¬ RoundsTo x v)) ∧
    (∀ vs, (Condition.oneOf vs).holds (some (int x)) = true ↔ ∃ v ∈ vs, RoundsTo x v) ∧
    (∀ (p : Pattern) element own attributes name v,
      p.graph.attributes? element = some own → own.get? name = some v →
      attributes.get? name = some (int x) →
      (p.admits element attributes = true ↔
        RoundsTo x v ∧ p.AdmitsBut name element own attributes)) ∧
    (∀ min max, (∀ a ∈ min, a.isFinite = true) → (∀ b ∈ max, b.isFinite = true) →
      ((Condition.range min max).holds (some (int x)) = true ↔
        Condition.Between min max (nearest x.toInt)) ∧
      (Condition.Between min max x.toInt →
        (Condition.range min max).holds (some (int x)) = true) ∧
      (Representable x.toInt →
        ((Condition.range min max).holds (some (int x)) = true ↔
          Condition.Between min max x.toInt))) ∧
    ∀ y, Representable x.toInt → Representable y.toInt → (RoundsTo x (int y) ↔ x = y) := by
  refine ⟨fun v => ⟨int_sameAs_iff, int_sameAs_iff, ?_⟩, fun vs => ?_, ?_, ?_, ?_⟩
  · rw [← int_sameAs_iff, Bool.not_eq_true, ← Bool.not_eq_true']
    rfl
  · change vs.any (fun option => (int x).sameAs option) = true ↔ _
    simp only [List.any_eq_true, int_sameAs_iff]
  · intro p element own attributes name v stored required found
    rw [Pattern.admits_iff stored required, found, Option.any_some, int_sameAs_iff]
  · intro min max below above
    have holds := @Condition.range_int_iff min max x below above
    refine ⟨holds, fun between => holds.mpr between.nearest, fun representable => ?_⟩
    rw [holds, representable.nearest]
  · exact fun y first second => roundsTo_int_iff first second

/-- A vertex whose size is 3. -/
def three : Pattern :=
  .ofGraph (Graph.empty.insertVertex ⟨⟨0⟩, .ofList [("size", .int 3)]⟩) .directed

theorem three_compared :
    three.admits (.vertex ⟨0⟩) (.ofList [("size", .int 3)]) = true ∧
    Condition.Between (some 1.5) none (Int64.toInt 3) ∧ ¬ RoundsTo 3 (int 4) := by
  have small : Representable (Int64.toInt 3) := Number.representable_small (by decide)
  have small' : Representable (Int64.toInt 4) := Number.representable_small (by decide)
  obtain ⟨-, -, admitted, ranges, equal⟩ := int_compared 3
  refine ⟨?_, ?_, ?_⟩
  · refine (admitted three (.vertex ⟨0⟩) (.ofList [("size", .int 3)]) _ "size" (int 3)
      rfl rfl rfl).mpr ⟨rfl, fun other v apart bound => ?_, rfl⟩
    -- No other attribute is required.
    have missing : SortedMap.get? (.ofList [("size", int 3)]) other = none :=
      SortedMap.get?_insert.trans (if_neg apart)
    cases missing.symm.trans bound
  · have finite : ∀ a ∈ some (1.5 : Float), a.isFinite = true := by
      rintro a ⟨⟩
      decide
    have unbounded : ∀ b ∈ (none : Option Float), b.isFinite = true := by
      rintro b ⟨⟩
    exact ((ranges (some 1.5) none finite unbounded).2.2 small).mp (by decide)
  · rw [equal 4 small small']
    decide

/-- The successor of 2 ^ 53 is the same as 2 ^ 53, and a range up to 2 ^ 53 has it. -/
theorem successor_same :
    (int 9007199254740993).sameAs (int 9007199254740992) = true ∧
    (¬ ∀ x y : Int64, (int x).sameAs (int y) = true ↔ x = y) ∧
    (Condition.range none (some 9007199254740992)).holds (some (int 9007199254740993)) = true ∧
    ¬ Condition.Between none (some 9007199254740992) (Int64.toInt 9007199254740993) := by
  have same : (int 9007199254740993).sameAs (int 9007199254740992) = true := by decide
  refine ⟨same, fun only => absurd ((only _ _).mp same) (by decide), by decide, fun between => ?_⟩
  have bound : exact 9007199254740992 = 9007199254740992 :=
    (@Number.exact_ofNat 9007199254740992 (by decide)).2.trans (Number.nearest_small (by decide))
  have below := between.2 _ rfl
  rw [bound] at below
  exact absurd below (by decide)

end Value

end GraphTransformation
