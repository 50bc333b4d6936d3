import GraphTransformation.SortedMap
import Mathlib.Data.List.Nodup

/-!
Membership and order in finite maps.

A key is bound, listed among the keys and contained in the map all at once
(`contains_iff`, `mem_keys`), and each operation says which keys it leaves. Two
increasing lists with the same members are one list (`eq_of_increasing`), so a
list of keys is known once its members are.
-/

namespace GraphTransformation.SortedMap

universe u v

variable {κ : Type u} {α : Type v} [Ord κ]

/-! ### Increasing lists -/

/-- A list in strictly increasing order. -/
def Increasing (l : List κ) : Prop := l.Pairwise fun j k => compare j k = .lt

theorem nodup_of_increasing_keys [Std.TransOrd κ] {β : Type v} {key : β → κ} {l : List β}
    (inc : Increasing (l.map key)) : l.Nodup := by
  refine List.Pairwise.imp ?_ (List.pairwise_map.mp inc)
  intro a b lt eq
  simp [eq, Std.ReflCmp.compare_self] at lt

theorem Increasing.nodup [Std.TransOrd κ] {l : List κ} (inc : Increasing l) : l.Nodup :=
  nodup_of_increasing_keys (l.map_id.symm ▸ inc)

theorem Increasing.filter {l : List κ} (inc : Increasing l) (p : κ → Bool) :
    Increasing (l.filter p) :=
  List.Pairwise.filter p inc

theorem Increasing.append {l r : List κ} (incL : Increasing l) (incR : Increasing r)
    (before : ∀ j ∈ l, ∀ k ∈ r, compare j k = .lt) : Increasing (l ++ r) :=
  List.pairwise_append.mpr ⟨incL, incR, before⟩

/-- A list whose keys increase is determined by its members. -/
theorem eq_of_increasing_keys [Std.TransOrd κ] {β : Type v} {key : β → κ} {l r : List β}
    (incL : Increasing (l.map key)) (incR : Increasing (r.map key))
    (same : ∀ b, b ∈ l ↔ b ∈ r) : l = r := by
  have perm : l.Perm r := (List.perm_ext_iff_of_nodup (nodup_of_increasing_keys incL)
    (nodup_of_increasing_keys incR)).mpr same
  refine perm.eq_of_pairwise (fun a b _ _ lt gt => ?_) (List.pairwise_map.mp incL)
    (List.pairwise_map.mp incR)
  simp [Std.OrientedCmp.gt_of_lt gt] at lt

/-- An increasing list is determined by its members. -/
theorem eq_of_increasing [Std.TransOrd κ] {l r : List κ} (incL : Increasing l)
    (incR : Increasing r) (same : ∀ k, k ∈ l ↔ k ∈ r) : l = r :=
  eq_of_increasing_keys (l.map_id.symm ▸ incL) (r.map_id.symm ▸ incR) same

/-- In an increasing list the first member that passes a test is the least that does. -/
theorem Increasing.find?_least [Std.TransOrd κ] {l : List κ} (inc : Increasing l)
    {test : κ → Bool} {k : κ} (found : l.find? test = some k) :
    k ∈ l ∧ test k = true ∧ ∀ j ∈ l, compare j k = .lt → test j = false := by
  obtain ⟨passes, before, after, rfl, fail⟩ := List.find?_eq_some_iff_append.mp found
  refine ⟨by simp, passes, fun j mem lt => ?_⟩
  obtain ⟨-, later, -⟩ := List.pairwise_append.mp inc
  have following := (List.pairwise_cons.mp later).1
  rcases List.mem_append.mp mem with earlier | there
  · simpa using fail j earlier
  · rcases List.mem_cons.mp there with rfl | beyond
    · simp [Std.ReflCmp.compare_self] at lt
    · simp [Std.OrientedCmp.gt_of_lt (following j beyond)] at lt

/-! ### Keys and values -/

variable {m : SortedMap κ α} {j k : κ} {a : α}

theorem contains_iff : m.contains k = true ↔ ∃ a, m.get? k = some a :=
  Option.isSome_iff_exists

theorem contains_of_get? (found : m.get? k = some a) : m.contains k = true :=
  contains_iff.mpr ⟨a, found⟩

theorem get?_eq_none_of_not_contains (missing : ¬ m.contains k = true) : m.get? k = none :=
  Option.not_isSome_iff_eq_none.mp missing

theorem keys_increasing (m : SortedMap κ α) : Increasing m.keys :=
  List.pairwise_map.mpr m.increasing

theorem keys_nodup [Std.TransOrd κ] (m : SortedMap κ α) : m.keys.Nodup := (keys_increasing m).nodup

@[simp] theorem contains_empty : (empty : SortedMap κ α).contains k = false := rfl

variable [Std.TransOrd κ]

theorem distinct_increasing (xs : List κ) : Increasing (distinct xs) := keys_increasing _

variable [Std.LawfulEqOrd κ]

theorem mem_keys : k ∈ m.keys ↔ m.contains k = true := by
  rw [contains_iff]
  constructor
  · intro mem
    obtain ⟨⟨j, a⟩, binding, rfl⟩ := List.mem_map.mp mem
    exact ⟨a, get?_of_mem_toList binding⟩
  · rintro ⟨a, found⟩
    exact List.mem_map.mpr ⟨(k, a), mem_toList_of_get? found, rfl⟩

/-- A map has as many keys as any list of them without repetitions. -/
theorem size_eq_length {ks : List κ} (distinct : ks.Nodup)
    (same : ∀ k, m.contains k = true ↔ k ∈ ks) : m.size = ks.length := by
  have perm : m.keys.Perm ks := by
    refine (List.perm_ext_iff_of_nodup m.keys_nodup distinct).mpr fun k => ?_
    rw [mem_keys, same]
  rw [← perm.length_eq, keys, List.length_map, size]

theorem mem_values : a ∈ m.values ↔ ∃ k, m.get? k = some a := by
  constructor
  · intro mem
    obtain ⟨⟨k, b⟩, binding, rfl⟩ := List.mem_map.mp mem
    exact ⟨k, get?_of_mem_toList binding⟩
  · rintro ⟨k, found⟩
    exact List.mem_map.mpr ⟨(k, a), mem_toList_of_get? found, rfl⟩

/-- Where each value knows its own key, the values are listed under these keys. -/
theorem mem_values_iff {key : α → κ} (own : ∀ {k a}, m.get? k = some a → key a = k) :
    a ∈ m.values ↔ m.get? (key a) = some a := by
  rw [mem_values]
  constructor
  · rintro ⟨k, found⟩
    rw [own found]
    exact found
  · intro found
    exact ⟨key a, found⟩

omit [Std.LawfulEqOrd κ] in
theorem values_map_eq_keys {key : α → κ} (own : ∀ {k a}, m.get? k = some a → key a = k) :
    m.values.map key = m.keys := by
  rw [values, keys, List.map_map]
  refine List.map_congr_left fun pair mem => ?_
  exact own (get?_of_mem_toList mem)

omit [Std.LawfulEqOrd κ] in
theorem values_map_eq_toList {key : α → κ} (own : ∀ {k a}, m.get? k = some a → key a = k) :
    m.values.map (fun a => (key a, a)) = m.toList := by
  rw [values, List.map_map]
  refine (List.map_congr_left fun pair mem => ?_).trans (List.map_id _)
  exact Prod.ext (own (get?_of_mem_toList mem)) rfl

/-- No value is repeated exactly when no two keys are bound to one value. -/
theorem values_nodup_iff :
    m.values.Nodup ↔ ∀ {j k a}, m.get? j = some a → m.get? k = some a → j = k := by
  have distinct : m.toList.Nodup := nodup_of_increasing_keys (keys_increasing m)
  rw [values, List.nodup_map_iff_inj_on distinct]
  constructor
  · intro injective j k a atJ atK
    have same := injective _ (mem_toList_of_get? atJ) _ (mem_toList_of_get? atK) rfl
    exact congrArg Prod.fst same
  · rintro injective ⟨j, a⟩ atJ ⟨k, b⟩ atK rfl
    have same : j = k := injective (get?_of_mem_toList atJ) (get?_of_mem_toList atK)
    rw [same]

variable [DecidableEq κ]

@[simp] theorem contains_insert :
    (m.insert k a).contains j = true ↔ j = k ∨ m.contains j = true := by
  rw [contains, get?_insert]
  by_cases eq : j = k <;> simp [eq, contains]

@[simp] theorem contains_erase :
    (m.erase k).contains j = true ↔ j ≠ k ∧ m.contains j = true := by
  rw [contains, get?_erase]
  by_cases eq : j = k <;> simp [eq, contains]

@[simp] theorem contains_modify {f : α → α} : (m.modify k f).contains j = m.contains j := by
  rw [contains, get?_modify]
  by_cases eq : j = k
  · simp [eq, contains]
  · simp [eq, contains]

theorem keys_erase : (m.erase k).keys = m.keys.filter (· ≠ k) := by
  refine eq_of_increasing (keys_increasing _) ((keys_increasing m).filter _) fun j => ?_
  rw [mem_keys, contains_erase, List.mem_filter, mem_keys, and_comm]
  simp

/-- A new binding is taken back by dropping it. -/
theorem erase_insert (new : m.get? k = none) : (m.insert k a).erase k = m := by
  refine ext_get? fun j => ?_
  rw [get?_erase, get?_insert]
  by_cases here : j = k
  · rw [if_pos here, here, new]
  · rw [if_neg here, if_neg here]

theorem contains_insertAll {pairs : List (κ × α)} :
    (m.insertAll pairs).contains k = true ↔ m.contains k = true ∨ ∃ p ∈ pairs, p.1 = k := by
  induction pairs generalizing m with
  | nil => simp [insertAll]
  | cons p rest ih =>
    have step : m.insertAll (p :: rest) = (m.insert p.1 p.2).insertAll rest := rfl
    rw [step, ih, contains_insert]
    simp only [List.mem_cons, exists_eq_or_imp, eq_comm (a := k)]
    rw [or_comm (a := p.1 = k), or_assoc]

/-- Where no key is repeated, each pair of the list is bound, and what was bound before stays
under all other keys. -/
theorem get?_insertAll {pairs : List (κ × α)} (distinct : (pairs.map (·.1)).Nodup) :
    (m.insertAll pairs).get? k = some a ↔
      (k, a) ∈ pairs ∨ (m.get? k = some a ∧ ∀ p ∈ pairs, p.1 ≠ k) := by
  induction pairs generalizing m with
  | nil => simp [insertAll]
  | cons p rest ih =>
    obtain ⟨j, b⟩ := p
    obtain ⟨new, distinct⟩ := List.nodup_cons.mp distinct
    have step : m.insertAll ((j, b) :: rest) = (m.insert j b).insertAll rest := rfl
    rw [step, ih distinct, get?_insert, List.mem_cons, List.forall_mem_cons]
    by_cases here : k = j
    · subst here
      have apart : ∀ p ∈ rest, p.1 ≠ k := by
        intro p mem eq
        exact new (List.mem_map.mpr ⟨p, mem, eq⟩)
      have absent : (k, a) ∉ rest := fun mem => apart _ mem rfl
      rw [if_pos rfl, or_iff_right absent, and_iff_left apart]
      simp [absent, eq_comm]
    · simp [here, Ne.symm here]

/-- A map is the one that binds all its bindings. -/
theorem ofList_toList (m : SortedMap κ α) : ofList m.toList = m := by
  refine ext_get? fun k => Option.ext fun a => ?_
  rw [ofList, get?_insertAll (keys_nodup m), get?_empty, get?_eq_some_iff]
  simp

/-- Pairs with different keys are the bindings of the map that is made of them. -/
theorem mem_ofList {pairs : List (κ × α)} (distinct : (pairs.map (·.1)).Nodup) {p : κ × α} :
    p ∈ (ofList pairs).toList ↔ p ∈ pairs := by
  rw [← get?_eq_some_iff, ofList, get?_insertAll distinct, get?_empty]
  simp

/-- A map filled with values under distinct keys of theirs binds just these. -/
theorem get?_ofList_keyed {key : α → κ} {l : List α} (distinct : (l.map key).Nodup) :
    (ofList (l.map fun a => (key a, a))).get? k = some a ↔ a ∈ l ∧ key a = k := by
  have keys : (l.map fun a => (key a, a)).map (·.1) = l.map key := by
    rw [List.map_map]
    rfl
  rw [get?_eq_some_iff, mem_ofList (keys ▸ distinct), List.mem_map]
  constructor
  · rintro ⟨b, mem, same⟩
    cases same
    exact ⟨mem, rfl⟩
  · rintro ⟨mem, rfl⟩
    exact ⟨a, mem, rfl⟩

/-- A map filled with the values of a partial function at some keys binds these keys, as far as
the function is defined. -/
theorem get?_ofList_filterMap {keys : List κ} (distinct : keys.Nodup) {f : κ → Option α} :
    (ofList (keys.filterMap fun k => (f k).map (k, ·))).get? k = some a ↔
      k ∈ keys ∧ f k = some a := by
  have bound : ((keys.filterMap fun k => (f k).map (k, ·)).map (·.1)).Nodup := by
    have defined : (fun k => ((f k).map (k, ·)).map (·.1)) = Option.guard fun k => (f k).isSome := by
      funext k
      cases value : f k with
      | none => simp [Option.guard, value]
      | some a => simp [Option.guard, value]
    rw [List.map_filterMap, defined, List.filterMap_eq_filter]
    exact distinct.filter _
  rw [get?_eq_some_iff, mem_ofList bound, List.mem_filterMap]
  constructor
  · rintro ⟨j, mem, found⟩
    obtain ⟨b, value, same⟩ := Option.map_eq_some_iff.mp found
    cases same
    exact ⟨mem, value⟩
  · rintro ⟨mem, value⟩
    exact ⟨k, mem, by rw [value, Option.map_some]⟩

omit [DecidableEq κ] in
/-- A set is determined by its members. -/
theorem eq_of_contains {s t : SortedSet κ}
    (same : ∀ k, s.contains k = true ↔ t.contains k = true) : s = t := by
  refine ext_get? fun k => ?_
  have alike : (s.get? k).isSome = (t.get? k).isSome := Bool.eq_iff_iff.mpr (same k)
  cases here : s.get? k with
  | none =>
    rw [here] at alike
    exact (Option.isNone_iff_eq_none.mp (by simpa using alike.symm)).symm
  | some _ =>
    rw [here] at alike
    obtain ⟨_, there⟩ := Option.isSome_iff_exists.mp alike.symm
    exact there.symm

/-! ### Distinct members -/

theorem mem_distinct {xs : List κ} : k ∈ distinct xs ↔ k ∈ xs := by
  rw [distinct, mem_keys, ofList, contains_insertAll]
  simp

end GraphTransformation.SortedMap
