import GraphTransformation.Json.Codec
import GraphTransformation.Proofs.Graph.Consistency

/-!
Codecs that read back what they write.

`Codec.Restores c Written` says that of the values that `c` writes, those with the property are
read back as they are, and the others are refused. It passes from a codec to arrays of its values
(`Restores.list`) and to optional values (`Restores.nullable`). A record is read back field by
field, whatever has become of each field on its own (`record_read_write`).
-/

namespace GraphTransformation

namespace Json

theorem drafts_eq_map (items : List Json) : drafts items = items.map draft := by
  induction items with
  | nil => rfl
  | cons j rest ih => rw [drafts, ih, List.map_cons]

end Json

/-- What is done with the result of a step that succeeds. -/
theorem map_eq_ok {ε α β : Type} {x : Except ε α} {f : α → β} {b : β} :
    x.map f = .ok b ↔ ∃ a, x = .ok a ∧ b = f a := by
  cases x with
  | error e => simp [Except.map]
  | ok a => simp [Except.map, eq_comm]

namespace Codec

variable {α β : Type} {c : Codec α} {Written : α → Prop}

/-- Exactly the values with the property are read back from what is written of them. -/
def Restores (c : Codec α) (Written : α → Prop) : Prop :=
  ∀ source a b, c.read source (c.write a).draft = .ok b ↔ Written a ∧ b = a

/-- Values with the property are read back, and all others are refused. -/
theorem Restores.of_cases
    (reads : ∀ source a, Written a → c.read source (c.write a).draft = .ok a)
    (refuses : ∀ source a, ¬ Written a → ∃ e, c.read source (c.write a).draft = .error e) :
    c.Restores Written := by
  intro source a b
  by_cases written : Written a
  · rw [reads source a written, Except.ok.injEq, and_iff_right written]
    exact eq_comm
  · obtain ⟨e, refused⟩ := refuses source a written
    rw [refused]
    simp [written]

theorem word_restores : word.Restores fun _ => True := by
  refine .of_cases (fun source n _ => ?_) fun _ _ absurd => (absurd trivial).elim
  have range : 0 ≤ (n.toNat : Int) ∧ (n.toNat : Int).toNat < UInt64.size :=
    ⟨Int.natCast_nonneg _, n.toNat_lt⟩
  have same : (n.toNat : Int).toNat.toUInt64 = n := UInt64.ofNat_toNat
  simp only [word, Json.draft, if_pos range, same]

/-! ### Arrays and optional values -/

theorem Restores.list (restores : c.Restores Written) :
    c.list.Restores fun as => ∀ a ∈ as, Written a := by
  intro source as bs
  simp only [Codec.list, Json.draft, Json.drafts_eq_map, List.map_map]
  induction as generalizing bs with
  | nil =>
    simp only [List.map_nil, readAll]
    constructor
    · intro read
      cases read
      simp
    · rintro ⟨-, rfl⟩
      rfl
  | cons a rest ih =>
    simp only [List.map_cons, readAll, Function.comp_apply, bind_eq_ok, restores source a]
    constructor
    · rintro ⟨_, ⟨first, rfl⟩, tail, others, done⟩
      obtain ⟨written, rfl⟩ := (ih tail).mp others
      cases done
      exact ⟨List.forall_mem_cons.mpr ⟨first, written⟩, rfl⟩
    · rintro ⟨written, rfl⟩
      obtain ⟨first, others⟩ := List.forall_mem_cons.mp written
      exact ⟨a, ⟨first, rfl⟩, rest, (ih rest).mpr ⟨others, rfl⟩, rfl⟩

/-- An optional value is read back if no value is written as `null`. -/
theorem Restores.nullable (restores : c.Restores Written)
    (present : ∀ a, (c.write a).draft ≠ .null) :
    c.nullable.Restores fun o => ∀ a ∈ o, Written a := by
  intro source o b
  cases o with
  | none => simp [Codec.nullable, Json.draft, eq_comm]
  | some a =>
    have inner : c.nullable.read source (c.write a).draft =
        (c.read source (c.write a).draft).map some := by
      cases shape : (c.write a).draft with
      | null => exact absurd shape (present a)
      | _ => rfl
    change c.nullable.read source (c.write a).draft = .ok b ↔ _
    rw [inner, map_eq_ok]
    simp only [restores source a]
    constructor
    · rintro ⟨_, ⟨written, rfl⟩, rfl⟩
      exact ⟨by simpa using written, rfl⟩
    · rintro ⟨written, rfl⟩
      exact ⟨a, ⟨written a rfl, rfl⟩, rfl⟩

/-! ### Records -/

/-- What the field of `b` becomes when that of `a` is written and read again. -/
def Field.copy (f : Field α) (source : Source) (a b : α) : Except DocumentFault α :=
  match f.write a with
  | some j => f.read source j.draft b
  | none => .ok b

theorem Field.copy_always {restoring : Codec β} {P : β → Prop} (restores : restoring.Restores P)
    {required : Bool} {name : String} {get : α → β} {set : α → β → α} {source : Source}
    {a b d : α} :
    (Field.always required name restoring get set).copy source a b = .ok d ↔
      P (get a) ∧ d = set b (get a) := by
  simp only [Field.copy, Field.always, map_eq_ok, restores source (get a)]
  constructor
  · rintro ⟨_, ⟨written, rfl⟩, rfl⟩
    exact ⟨written, rfl⟩
  · rintro ⟨written, rfl⟩
    exact ⟨_, ⟨written, rfl⟩, rfl⟩

theorem find?_name {fields : List (Field α)} (distinct : (fields.map (·.name)).Nodup)
    {f : Field α} (mem : f ∈ fields) : fields.find? (·.name == f.name) = some f := by
  cases found : fields.find? (·.name == f.name) with
  | none => simpa using List.find?_eq_none.mp found f mem
  | some k =>
    have same : k.name = f.name := by simpa using List.find?_some found
    rw [List.inj_on_of_nodup_map distinct (List.mem_of_find?_eq_some found) mem same]

/-- No later field has the name of one that is read, if all names differ. -/
theorem names_apart {front rest : List (Field α)} {f : Field α} {seen : List String}
    (distinct : ((front ++ f :: rest).map (·.name)).Nodup) (new : ∀ k ∈ rest, k.name ∉ seen) :
    ∀ k ∈ rest, k.name ∉ f.name :: seen := by
  intro k there
  rw [List.map_append, List.map_cons] at distinct
  obtain ⟨-, distinct, -⟩ := List.nodup_append.mp distinct
  obtain ⟨alone, -⟩ := List.nodup_cons.mp distinct
  rw [List.mem_cons, not_or]
  exact ⟨fun same => alone (List.mem_map.mpr ⟨k, there, same⟩), new k there⟩

/-- What is written of some fields. -/
def writtenFields (fields : List (Field α)) (a : α) : List (String × Json) :=
  fields.filterMap fun f => (f.write a).map (f.name, ·)

/-- Where some fields have been read, reading what is written of the others copies these. -/
theorem readFields_written {source : Source} {a : α} {front left : List (Field α)}
    {seen : List String} {b : α} (distinct : ((front ++ left).map (·.name)).Nodup)
    (new : ∀ f ∈ left, f.name ∉ seen)
    (given : ∀ f ∈ left, f.required = true → (f.write a).isSome = true)
    (done : ∀ f ∈ front, f.required = true → f.name ∈ seen) :
    readFields source (front ++ left) .closed seen (Json.fieldDrafts (writtenFields left a)) b =
      left.foldlM (fun b f => f.copy source a b) b := by
  induction left generalizing front seen b with
  | nil =>
    have complete : (front ++ []).find? (fun f : Field α => f.required && !seen.contains f.name) =
        none := by
      simpa using done
    simp only [writtenFields, List.filterMap_nil, Json.fieldDrafts, readFields, complete]
    rfl
  | cons f rest ih =>
    have mem : f ∈ front ++ f :: rest := by simp
    have split : front ++ f :: rest = (front ++ [f]) ++ rest := by simp
    obtain ⟨fresh, later⟩ := List.forall_mem_cons.mp new
    obtain ⟨first, others⟩ := List.forall_mem_cons.mp given
    cases written : f.write a with
    | none =>
      have optional : f.required = true → f.name ∈ seen := by
        intro required
        simpa [written] using first required
      have same : Field.copy f source a b = .ok b := by rw [Field.copy, written]
      simp only [writtenFields, List.filterMap_cons, written, Option.map_none, List.foldlM_cons,
        same]
      rw [split]
      rw [split] at distinct
      refine ih distinct later others ?_
      simpa [or_imp, forall_and] using ⟨done, optional⟩
    | some j =>
      have unseen : seen.contains f.name = false := by simpa using fresh
      have same : Field.copy f source a b = f.read source j.draft b := by
        rw [Field.copy, written]
      simp only [writtenFields, List.filterMap_cons, written, Option.map_some, Json.fieldDrafts,
        readFields, find?_name distinct mem, unseen, List.foldlM_cons, same]
      refine congrArg (f.read source j.draft b >>= ·) (funext fun d => ?_)
      have apart := names_apart distinct later
      rw [split]
      rw [split] at distinct
      refine ih distinct apart others ?_
      intro k there required
      rcases List.mem_append.mp there with before | here
      · exact List.mem_cons_of_mem _ (done k before required)
      · rw [List.mem_singleton.mp here]
        exact List.mem_cons_self

/-- What is written of a record is read field by field, into a record of the missing values. -/
theorem record_read_write {blank a : α} {fields : List (Field α)} {source : Source}
    (distinct : (fields.map (·.name)).Nodup)
    (given : ∀ f ∈ fields, f.required = true → (f.write a).isSome = true) :
    (record blank fields).read source ((record blank fields).write a).draft =
      fields.foldlM (fun b f => f.copy source a b) blank :=
  @readFields_written _ source a [] fields [] blank distinct (by simp) given (by simp)

end Codec

end GraphTransformation
