import GraphTransformation.Random.Choice
import Mathlib

/-!
The range of random choices.

Whatever words are drawn, a number chosen below `n` is below `n` (`below_lt`),
also when the words run out, and an order of the numbers below a count lists each
of them once (`order_perm`).
-/

namespace GraphTransformation.Random

/-! ### Numbers below a bound -/

theorem scaled_lt {bits word n : Nat} (fits : word < 2 ^ bits) (positive : 0 < n) :
    word * n / Nat.pow 2 bits < n :=
  Nat.div_lt_of_lt_mul (Nat.mul_lt_mul_of_pos_right fits positive)

theorem below_lt {bits n redraws : Nat} {draw : Generator → Nat × Generator}
    (fits : ∀ g, (draw g).1 < 2 ^ bits) (positive : 0 < n) (g : Generator) :
    (below bits draw n redraws g).1 < n := by
  induction redraws generalizing g with
  | zero => exact scaled_lt (fits g) positive
  | succ redraws ih =>
    have redraw : below bits draw n (redraws + 1) g =
        if (draw g).1 * n % Nat.pow 2 bits ≤ zone bits n then
          ((draw g).1 * n / Nat.pow 2 bits, (draw g).2)
        else below bits draw n redraws (draw g).2 := rfl
    rw [redraw]
    split
    · exact scaled_lt (fits g) positive
    · exact ih _

namespace Generator

variable {g : Generator} {count n : Nat}

theorem below64_lt (positive : 0 < n) : (g.below64 n).1 < n :=
  below_lt (fun h => h.draw64.1.toNat_lt) positive g

/-- A choice among some is one of them. -/
theorem select_lt (some : 0 < count) : ∃ i < count, (g.select count).1 = .some i := by
  rw [select, if_neg (Nat.ne_of_gt some)]
  exact ⟨_, below64_lt some, rfl⟩

/-! ### Orders -/

theorem swap_perm (order : Array Nat) (i j : Nat) : (order.swapIfInBounds i j).Perm order := by
  rw [Array.swapIfInBounds_def]
  split
  · split
    · exact Array.swap_perm ..
    · exact .refl _
  · exact .refl _

theorem shuffleFrom_perm (last : Nat) (order : Array Nat) (g : Generator) :
    (shuffleFrom last order g).1.Perm order := by
  induction last generalizing order g with
  | zero => exact .refl _
  | succ i ih => exact (ih _ _).trans (swap_perm ..)

/-- A random order has every number below the count once. -/
theorem order_perm : (g.order count).1.Perm (List.range count) := by
  have shuffled := (shuffleFrom_perm (count - 1) (Array.range count) g).toList
  rw [Array.toList_range] at shuffled
  exact shuffled

end Generator

end GraphTransformation.Random
