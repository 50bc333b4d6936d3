/-!
Finite maps kept in key order.

A `SortedMap` is the list of its bindings in strictly increasing key order, so a
map has exactly one representation: two maps with the same lookups are equal
(`ext_get?`). Each operation is described by its effect on lookups
(`get?_insert`, `get?_erase`). A set is a map to the one-element type.
-/

namespace GraphTransformation

universe u v

/-- A finite map, held as its bindings in strictly increasing key order. -/
structure SortedMap (κ : Type u) (α : Type v) [Ord κ] where
  toList : List (κ × α)
  increasing : toList.Pairwise fun x y => compare x.1 y.1 = .lt

/-- A finite set in increasing order. -/
abbrev SortedSet (κ : Type u) [Ord κ] := SortedMap κ Unit

namespace SortedMap

variable {κ : Type u} {α : Type v} [Ord κ]

/-! ### Bindings -/

/-- The value bound to `k` in a list of bindings. -/
def lookupIn (k : κ) : List (κ × α) → Option α
  | [] => none
  | (j, a) :: rest => if compare k j = .eq then some a else lookupIn k rest

/-- Binds `k` at its place in an increasing list of bindings, replacing an
earlier binding of it. -/
def insertIn (k : κ) (a : α) : List (κ × α) → List (κ × α)
  | [] => [(k, a)]
  | (j, b) :: rest =>
    match compare k j with
    | .lt => (k, a) :: (j, b) :: rest
    | .eq => (k, a) :: rest
    | .gt => (j, b) :: insertIn k a rest

theorem mem_insertIn {k : κ} {a : α} {p : κ × α} :
    ∀ {l : List (κ × α)}, p ∈ insertIn k a l → p = (k, a) ∨ p ∈ l
  | [], mem => by simpa [insertIn] using mem
  | (j, b) :: rest, mem => by
    unfold insertIn at mem
    split at mem
    · simpa using mem
    · rcases List.mem_cons.mp mem with here | there
      · exact .inl here
      · exact .inr (List.mem_cons_of_mem _ there)
    · rcases List.mem_cons.mp mem with here | there
      · exact .inr (here ▸ List.mem_cons_self)
      · exact (mem_insertIn there).imp id (List.mem_cons_of_mem _)

theorem insertIn_increasing [Std.TransOrd κ] {k : κ} {a : α} :
    ∀ {l : List (κ × α)}, (l.Pairwise fun x y => compare x.1 y.1 = .lt) →
      (insertIn k a l).Pairwise fun x y => compare x.1 y.1 = .lt
  | [], _ => by simp [insertIn]
  | (j, b) :: rest, inc => by
    have ⟨first, tail⟩ := List.pairwise_cons.mp inc
    unfold insertIn
    split
    · rename_i lt
      refine List.pairwise_cons.mpr ⟨fun p mem => ?_, inc⟩
      rcases List.mem_cons.mp mem with rfl | there
      · exact lt
      · exact Std.TransCmp.lt_trans lt (first p there)
    · rename_i eq
      exact List.pairwise_cons.mpr
        ⟨fun p mem => Std.TransCmp.lt_of_eq_of_lt eq (first p mem), tail⟩
    · rename_i gt
      refine List.pairwise_cons.mpr ⟨fun p mem => ?_, insertIn_increasing tail⟩
      rcases mem_insertIn mem with rfl | there
      · exact Std.OrientedCmp.lt_of_gt gt
      · exact first p there

theorem lookupIn_insertIn [Std.TransOrd κ] {k j : κ} {a : α} :
    ∀ {l : List (κ × α)},
      lookupIn j (insertIn k a l) = if compare j k = .eq then some a else lookupIn j l
  | [] => by simp [insertIn, lookupIn]
  | (i, b) :: rest => by
    unfold insertIn
    split
    · simp [lookupIn]
    · rename_i eq
      have same : compare j k = compare j i := Std.TransCmp.congr_right eq
      by_cases h : compare j i = .eq <;> simp [lookupIn, same, h]
    · rename_i gt
      simp only [lookupIn, lookupIn_insertIn]
      by_cases h : compare j i = .eq
      · have : compare j k ≠ .eq := fun eq => by
          have : compare k i = .eq := Std.TransCmp.eq_trans (Std.OrientedCmp.eq_symm eq) h
          simp [gt] at this
        simp [h, this]
      · simp [h]

/-! ### Maps -/

instance [DecidableEq κ] [DecidableEq α] : DecidableEq (SortedMap κ α)
  | ⟨l, _⟩, ⟨r, _⟩ =>
    if h : l = r then isTrue (by subst h; rfl) else isFalse fun eq => h (congrArg toList eq)

/-- The map that binds nothing. -/
def empty : SortedMap κ α := ⟨[], .nil⟩

instance : Inhabited (SortedMap κ α) := ⟨empty⟩

/-- The value bound to `k`, if any. -/
def get? (m : SortedMap κ α) (k : κ) : Option α := lookupIn k m.toList

/-- Whether `k` is bound. -/
def contains (m : SortedMap κ α) (k : κ) : Bool := (m.get? k).isSome

/-- The keys in increasing order. -/
def keys (m : SortedMap κ α) : List κ := m.toList.map (·.1)

/-- The values in the order of their keys. -/
def values (m : SortedMap κ α) : List α := m.toList.map (·.2)

/-- The number of bindings. -/
def size (m : SortedMap κ α) : Nat := m.toList.length

/-- Whether nothing is bound. -/
def isEmpty (m : SortedMap κ α) : Bool := m.toList.isEmpty

/-- Binds `k` to `a`, replacing an earlier binding of `k`. -/
def insert [Std.TransOrd κ] (m : SortedMap κ α) (k : κ) (a : α) : SortedMap κ α :=
  ⟨insertIn k a m.toList, insertIn_increasing m.increasing⟩

/-- Binds every pair of the list in turn, so a later pair replaces an earlier one. -/
def insertAll [Std.TransOrd κ] (m : SortedMap κ α) (pairs : List (κ × α)) : SortedMap κ α :=
  pairs.foldl (fun m p => m.insert p.1 p.2) m

/-- The map that binds the pairs of the list; of two pairs with one key the later counts. -/
def ofList [Std.TransOrd κ] (pairs : List (κ × α)) : SortedMap κ α := empty.insertAll pairs

/-- Drops the binding of `k`. -/
def erase (m : SortedMap κ α) (k : κ) : SortedMap κ α :=
  ⟨m.toList.filter fun p => compare k p.1 != .eq, m.increasing.filter _⟩

/-- Replaces the value bound to `k` by its image under `f`; an unbound key stays unbound. -/
def modify [Std.TransOrd κ] (m : SortedMap κ α) (k : κ) (f : α → α) : SortedMap κ α :=
  match m.get? k with
  | some a => m.insert k (f a)
  | none => m

/-- The members of a list in increasing order, each once. -/
def distinct [Std.TransOrd κ] (xs : List κ) : List κ := (ofList (xs.map fun x => (x, ()))).keys

/-! ### Lookups -/

theorem mem_toList_of_get? [Std.LawfulEqOrd κ] {m : SortedMap κ α} {k : κ} {a : α}
    (found : m.get? k = some a) : (k, a) ∈ m.toList := by
  suffices h : ∀ l : List (κ × α), lookupIn k l = some a → (k, a) ∈ l from h _ found
  intro l
  induction l with
  | nil => simp [lookupIn]
  | cons p rest ih =>
    obtain ⟨j, b⟩ := p
    intro found
    by_cases h : compare k j = .eq
    · have := Std.LawfulEqCmp.eq_of_compare h
      simp_all [lookupIn]
    · exact List.mem_cons_of_mem _ (ih (by simpa [lookupIn, h] using found))

theorem get?_of_mem_toList [Std.TransOrd κ] {m : SortedMap κ α} {k : κ} {a : α}
    (mem : (k, a) ∈ m.toList) : m.get? k = some a := by
  suffices h : ∀ l : List (κ × α), (l.Pairwise fun x y => compare x.1 y.1 = .lt) →
      (k, a) ∈ l → lookupIn k l = some a from h _ m.increasing mem
  intro l
  induction l with
  | nil => simp
  | cons p rest ih =>
    intro inc mem
    have ⟨first, tail⟩ := List.pairwise_cons.mp inc
    rcases List.mem_cons.mp mem with rfl | there
    · simp [lookupIn, Std.ReflCmp.compare_self]
    · have lt := first _ there
      have : compare k p.1 ≠ .eq := fun eq => by
        rw [Std.OrientedCmp.eq_symm eq] at lt
        simp at lt
      simp [lookupIn, this, ih tail there]

theorem get?_eq_some_iff [Std.TransOrd κ] [Std.LawfulEqOrd κ] {m : SortedMap κ α} {k : κ}
    {a : α} : m.get? k = some a ↔ (k, a) ∈ m.toList :=
  ⟨mem_toList_of_get?, get?_of_mem_toList⟩

@[simp] theorem get?_empty {k : κ} : (empty : SortedMap κ α).get? k = none := rfl

theorem get?_insert [Std.TransOrd κ] [Std.LawfulEqOrd κ] [DecidableEq κ] {m : SortedMap κ α}
    {k j : κ} {a : α} : (m.insert k a).get? j = if j = k then some a else m.get? j := by
  have := lookupIn_insertIn (k := k) (j := j) (a := a) (l := m.toList)
  simpa [get?, insert, Std.LawfulEqCmp.compare_eq_iff_eq] using this

theorem get?_erase [Std.TransOrd κ] [Std.LawfulEqOrd κ] [DecidableEq κ] {m : SortedMap κ α}
    {k j : κ} : (m.erase k).get? j = if j = k then none else m.get? j := by
  suffices h : ∀ l : List (κ × α), lookupIn j (l.filter fun p => compare k p.1 != .eq) =
      if j = k then none else lookupIn j l from h _
  intro l
  induction l with
  | nil => simp [lookupIn]
  | cons p rest ih =>
    obtain ⟨i, b⟩ := p
    by_cases hk : compare k i = .eq
    · have := Std.LawfulEqCmp.eq_of_compare hk
      subst this
      by_cases hj : j = k <;> simp_all [lookupIn, Std.LawfulEqCmp.compare_eq_iff_eq]
    · have ne : k ≠ i := fun eq => hk (by simp [eq, Std.ReflCmp.compare_self])
      by_cases hj : j = k
      · subst hj
        simp [lookupIn, hk, ih]
      · simp [lookupIn, hk, ih, hj]

theorem get?_modify [Std.TransOrd κ] [Std.LawfulEqOrd κ] [DecidableEq κ] {m : SortedMap κ α}
    {k j : κ} {f : α → α} :
    (m.modify k f).get? j = if j = k then (m.get? k).map f else m.get? j := by
  unfold modify
  split
  · rename_i a found
    simp [get?_insert, found]
  · rename_i missing
    by_cases h : j = k
    · subst h; simp [missing]
    · simp [h]

/-- A map is determined by its lookups. -/
theorem ext_get? [Std.TransOrd κ] [Std.LawfulEqOrd κ] {m n : SortedMap κ α}
    (same : ∀ k, m.get? k = n.get? k) : m = n := by
  have mem : ∀ p, p ∈ m.toList ↔ p ∈ n.toList := fun p => by
    rw [← get?_eq_some_iff (m := m), ← get?_eq_some_iff (m := n), same]
  suffices h : ∀ l r : List (κ × α), (l.Pairwise fun x y => compare x.1 y.1 = .lt) →
      (r.Pairwise fun x y => compare x.1 y.1 = .lt) → (∀ p, p ∈ l ↔ p ∈ r) → l = r by
    have := h _ _ m.increasing n.increasing mem
    cases m; cases n; simp_all
  have irrefl : ∀ p : κ × α, ¬ compare p.1 p.1 = .lt := fun p h => by
    simp [Std.ReflCmp.compare_self] at h
  have asymm : ∀ p q : κ × α, compare p.1 q.1 = .lt → ¬ compare q.1 p.1 = .lt := fun p q h h' =>
    irrefl p (Std.TransCmp.lt_trans h h')
  intro l
  induction l with
  | nil =>
    intro r _ _ mem
    exact (List.eq_nil_iff_forall_not_mem.mpr fun p hp => by simpa using (mem p).mpr hp).symm
  | cons x xs ih =>
    intro r incL incR mem
    cases r with
    | nil => exact absurd ((mem x).mp List.mem_cons_self) (by simp)
    | cons y ys =>
      have ⟨firstL, tailL⟩ := List.pairwise_cons.mp incL
      have ⟨firstR, tailR⟩ := List.pairwise_cons.mp incR
      have heads : x = y := by
        rcases List.mem_cons.mp ((mem x).mp List.mem_cons_self) with eq | inYs
        · exact eq
        · rcases List.mem_cons.mp ((mem y).mpr List.mem_cons_self) with eq | inXs
          · exact eq.symm
          · exact absurd (firstR x inYs) (asymm _ _ (firstL y inXs))
      subst heads
      congr 1
      refine ih ys tailL tailR fun p => ⟨fun hp => ?_, fun hp => ?_⟩
      · rcases List.mem_cons.mp ((mem p).mp (List.mem_cons_of_mem _ hp)) with rfl | there
        · exact absurd (firstL p hp) (irrefl p)
        · exact there
      · rcases List.mem_cons.mp ((mem p).mpr (List.mem_cons_of_mem _ hp)) with rfl | there
        · exact absurd (firstR p hp) (irrefl p)
        · exact there

end SortedMap

end GraphTransformation
