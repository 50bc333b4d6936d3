import GraphTransformation.Proofs.Graph.Saving
import GraphTransformation.Proofs.Number.Order

/-!
Conditions that are saved and loaded again.

A condition is saved as a variant that holds its values. A value that is not finite
is refused when it is loaded, as in an attribute; but a bound that is not finite is
written as `null`, which stands for a missing bound. So a condition is loaded with
all its values, except that such bounds are gone (`Condition.read_written`). The
loaded condition still holds of the same attributes if its bounds were finite, or if
one was infinite on the open side and the other one finite (`Condition.stored_agrees`).
In all other cases a range silently admits more than the one that was saved
(`Condition.survives_iff`, `Condition.unbounded_admits`).
-/

namespace GraphTransformation

open Codec (Restores)
open Number (infinity)

/-! ### Variants -/

namespace Codec

variable {α : Type} {variants : List (Variant α)} {name : String} {source : Source} {d : Json.Draft}

/-- A variant is read from its name and what it holds, whatever it is read from. -/
theorem readVariant_held {read : Source → Json.Draft → Except DocumentFault α}
    (found : content variants name = .ok (.held read)) :
    readVariant variants source (.object [(some name, d)] .closed) = read source d := by
  cases source with
  | document =>
    rw [readVariant, found]
    rfl
  | text =>
    simp only [readVariant, found]
    change (read .text d >>= fun a => pure a) = _
    rw [bind_pure]

end Codec

/-! ### Bounds -/

/-- What is loaded of a bound. -/
def kept (bound : Option Float) : Option Float := bound.filter (·.isFinite)

theorem read_bound {source : Source} {bound : Option Float} :
    Codec.float.nullable.read source (Codec.float.nullable.write bound).draft =
      .ok (kept bound) := by
  cases bound with
  | none => rfl
  | some x =>
    rw [kept, Option.filter_some]
    by_cases finite : x.isFinite = true
    · simp [Codec.nullable, Codec.float, finite, Json.draft, Except.map]
    · simp [Codec.nullable, Codec.float, finite, Json.draft]

theorem copy_bound {source : Source} {name : String}
    {get : Option Float × Option Float → Option Float}
    {set : Option Float × Option Float → Option Float → Option Float × Option Float}
    {a b : Option Float × Option Float} :
    (Codec.Field.optional name Codec.float.nullable get set).copy source a b =
      .ok (set b (kept (get a))) := by
  simp only [Codec.Field.copy, Codec.Field.optional, Codec.Field.always, read_bound]
  rfl

theorem read_bounds {source : Source} {min max : Option Float} :
    Condition.boundsCodec.read source (Condition.boundsCodec.write (min, max)).draft =
      .ok (kept min, kept max) := by
  let fields : List (Codec.Field (Option Float × Option Float)) :=
    [.optional "min" (.nullable .float) (·.1) fun b min => (min, b.2),
     .optional "max" (.nullable .float) (·.2) fun b max => (b.1, max)]
  have object : Condition.boundsCodec.read source (Condition.boundsCodec.write (min, max)).draft =
      (Codec.record (none, none) fields).read source
        ((Codec.record (none, none) fields).write (min, max)).draft := by
    cases source <;> rfl
  rw [object, Codec.record_read_write (by decide) (by simp [fields, Codec.Field.optional,
    Codec.Field.always])]
  simp only [fields, List.foldlM_cons, List.foldlM_nil, copy_bound]
  rfl

namespace Condition

/-- The condition that is loaded where this one was saved. -/
def stored : Condition → Condition
  | .range min max => .range (kept min) (kept max)
  | c => c

/-- The values that are compared with are finite, if they are numbers. -/
def Finite : Condition → Prop
  | .equals v | .notEquals v => v.Finite
  | .oneOf vs => ∀ v ∈ vs, v.Finite
  | .range _ _ | .present | .absent => True

variable {c d : Condition} {source : Source}

/-- What is loaded of a condition that holds a value, if the value is read back. -/
theorem read_holding {α : Type} {holding : Codec α} {Written : α → Prop}
    (restores : holding.Restores Written) {make : α → Condition} {a : α} :
    (holding.read source (holding.write a).draft).map make = .ok d ↔ Written a ∧ d = make a := by
  rw [map_eq_ok]
  simp only [restores source a]
  constructor
  · rintro ⟨_, ⟨written, rfl⟩, rfl⟩
    exact ⟨written, rfl⟩
  · rintro ⟨written, rfl⟩
    exact ⟨_, ⟨written, rfl⟩, rfl⟩

/-- A condition is loaded unless it compares with a value that is not finite. Bounds that are
not finite are gone then. -/
theorem read_written :
    codec.read source (codec.write c).draft = .ok d ↔ c.Finite ∧ d = c.stored := by
  cases c with
  | equals v =>
    change Codec.readVariant _ source (.object [(some "equals", (Value.codec.write v).draft)]
      .closed) = _ ↔ _
    rw [Codec.readVariant_held rfl]
    exact read_holding Value.codec_restores
  | notEquals v =>
    change Codec.readVariant _ source (.object [(some "not_equals", (Value.codec.write v).draft)]
      .closed) = _ ↔ _
    rw [Codec.readVariant_held rfl]
    exact read_holding Value.codec_restores
  | range min max =>
    change Codec.readVariant _ source (.object [(some "range",
      (boundsCodec.write (min, max)).draft)] .closed) = _ ↔ _
    rw [Codec.readVariant_held rfl, read_bounds]
    simp [Except.map, Finite, stored, eq_comm]
  | oneOf vs =>
    change Codec.readVariant _ source (.object [(some "one_of", (Value.codec.list.write vs).draft)]
      .closed) = _ ↔ _
    rw [Codec.readVariant_held rfl]
    exact read_holding Value.codec_restores.list
  | present =>
    have named : codec.read source (codec.write .present).draft = .ok .present := by
      cases source <;> rfl
    rw [named]
    simp [Finite, stored, eq_comm]
  | absent =>
    have named : codec.read source (codec.write .absent).draft = .ok .absent := by
      cases source <;> rfl
    rw [named]
    simp [Finite, stored, eq_comm]

/-! ### What the loaded condition holds of -/

/-- A number lies between the bounds that are given. -/
def Inside (min max : Option Float) (x : Float) : Prop :=
  (∀ a ∈ min, a ≤ x) ∧ ∀ b ∈ max, x ≤ b

theorem within_iff {min max : Option Float} {x : Float} :
    within min max x = true ↔ Inside min max x := by
  rw [within, Bool.and_eq_true, Inside]
  cases min <;> cases max <;> simp

theorem kept_of_isFinite {x : Float} (finite : x.isFinite = true) : kept (some x) = some x := by
  rw [kept, Option.filter_some, if_pos finite]

theorem kept_cases (bound : Option Float) :
    kept bound = bound ∨ kept bound = none ∧ ∃ x, bound = some x ∧ x.isFinite = false := by
  cases bound with
  | none => exact .inl rfl
  | some x =>
    by_cases finite : x.isFinite = true
    · exact .inl (kept_of_isFinite finite)
    · exact .inr ⟨by rw [kept, Option.filter_some, if_neg finite], x, rfl, by simpa using finite⟩

theorem le_of_mem_kept {bound : Option Float} {x : Float} (mem : x ∈ kept bound) :
    x ∈ bound ∧ x.isFinite = true := by
  rw [kept, Option.mem_filter_iff] at mem
  exact mem

variable {min max : Option Float}

/-- A number that lies above the lower bound that is kept, if no upper one is. -/
theorem exists_inside_below (missing : kept max = none) :
    ∃ x, x.isFinite = true ∧ Inside (kept min) (kept max) x := by
  rw [missing]
  cases bound : kept min with
  | none => exact ⟨0, by decide, by simp [Inside]⟩
  | some a =>
    have finite := (le_of_mem_kept bound).2
    exact ⟨a, finite, by simp [Inside, Number.le_iff finite finite]⟩

/-- A number that lies below the upper bound that is kept, if no lower one is. -/
theorem exists_inside_above (missing : kept min = none) :
    ∃ x, x.isFinite = true ∧ Inside (kept min) (kept max) x := by
  rw [missing]
  cases bound : kept max with
  | none => exact ⟨0, by decide, by simp [Inside]⟩
  | some b =>
    have finite := (le_of_mem_kept bound).2
    exact ⟨b, finite, by simp [Inside, Number.le_iff finite finite]⟩

/-- Without bounds everything is inside, even a NaN. -/
theorem nan_inside {min max : Option Float} (noMin : min = none) (noMax : max = none) :
    ∃ x : Float, x.isNaN = true ∧ Inside min max x :=
  ⟨0 / 0, by decide, by simp [Inside, noMin, noMax]⟩

/-- The bounds of a range are finite, or one of them is infinite on its open side and the other
one finite. -/
def Faithful : Condition → Prop
  | .range min max =>
    (kept min = min ∧ kept max = max) ∨
      (min = some (-infinity) ∧ ∃ b, max = some b ∧ b.isFinite = true) ∨
      (max = some infinity ∧ ∃ a, min = some a ∧ a.isFinite = true)
  | _ => True

/-- A lower bound is lost without a trace only if it is the least number and an upper bound
stays. -/
theorem lower_lost (same : ∀ x, Inside (kept min) (kept max) x → Inside min max x)
    (lost : kept min ≠ min) :
    min = some (-infinity) ∧ ∃ b, max = some b ∧ b.isFinite = true := by
  obtain kept | ⟨missing, a, rfl, infinite⟩ := kept_cases min
  · exact absurd kept lost
  obtain ⟨x, finite, inside⟩ := exists_inside_above missing
  have below : a ≤ x := (same x inside).1 a rfl
  have least : a = -infinity := by
    rcases Number.infinite_cases a with isFinite | nan | rfl | rfl
    · rw [isFinite] at infinite
      cases infinite
    · exact absurd below (Number.unordered_of_isNaN nan).1
    · exact absurd below (Number.not_infinity_le finite)
    · rfl
  subst least
  refine ⟨rfl, ?_⟩
  cases bound : kept max with
  | some b =>
    obtain ⟨mem, isFinite⟩ := le_of_mem_kept bound
    exact ⟨b, mem, isFinite⟩
  | none =>
    obtain ⟨x, nan, inside⟩ := nan_inside missing bound
    exact absurd ((same x inside).1 _ rfl) (Number.unordered_of_isNaN nan).2

/-- An upper bound is lost without a trace only if it is the greatest number and a lower bound
stays. -/
theorem upper_lost (same : ∀ x, Inside (kept min) (kept max) x → Inside min max x)
    (lost : kept max ≠ max) :
    max = some infinity ∧ ∃ a, min = some a ∧ a.isFinite = true := by
  obtain kept | ⟨missing, b, rfl, infinite⟩ := kept_cases max
  · exact absurd kept lost
  obtain ⟨x, finite, inside⟩ := exists_inside_below missing
  have above : x ≤ b := (same x inside).2 b rfl
  have greatest : b = infinity := by
    rcases Number.infinite_cases b with isFinite | nan | rfl | rfl
    · rw [isFinite] at infinite
      cases infinite
    · exact absurd above (Number.unordered_of_isNaN nan).2
    · rfl
    · exact absurd above (Number.not_le_neg_infinity finite)
  subst greatest
  refine ⟨rfl, ?_⟩
  cases bound : kept min with
  | some a =>
    obtain ⟨mem, isFinite⟩ := le_of_mem_kept bound
    exact ⟨a, mem, isFinite⟩
  | none =>
    obtain ⟨x, nan, inside⟩ := nan_inside bound missing
    exact absurd ((same x inside).2 _ rfl) (Number.unordered_of_isNaN nan).1

/-- The bounds that are kept admit no more than all of them exactly if the range is faithful. -/
theorem faithful_iff : (range min max).Faithful ↔
    ∀ x, Inside (kept min) (kept max) x → Inside min max x := by
  constructor
  · rintro (⟨lower, upper⟩ | ⟨rfl, b, rfl, finite⟩ | ⟨rfl, a, rfl, finite⟩) x inside
    · rwa [lower, upper] at inside
    · have below : x ≤ b := inside.2 b (kept_of_isFinite finite)
      refine ⟨fun a mem => ?_, fun b' mem => ?_⟩
      · cases mem
        rw [Number.neg_infinity_le]
        exact Bool.eq_false_iff.mpr fun nan => (Number.unordered_of_isNaN nan).1 below
      · cases mem
        exact below
    · have above : a ≤ x := inside.1 a (kept_of_isFinite finite)
      refine ⟨fun a' mem => ?_, fun b mem => ?_⟩
      · cases mem
        exact above
      · cases mem
        rw [Number.le_infinity]
        exact Bool.eq_false_iff.mpr fun nan => (Number.unordered_of_isNaN nan).2 above
  · intro same
    by_cases lower : kept min = min
    · by_cases upper : kept max = max
      · exact .inl ⟨lower, upper⟩
      · exact .inr (.inr (upper_lost same upper))
    · exact .inr (.inl (lower_lost same lower))

/-- The bounds that are kept admit whatever all of them admit. -/
theorem Inside.kept {x : Float} (inside : Inside min max x) : Inside (kept min) (kept max) x :=
  ⟨fun a mem => inside.1 a (le_of_mem_kept mem).1, fun b mem => inside.2 b (le_of_mem_kept mem).1⟩

/-- The loaded condition holds of the same attributes exactly if the saved one is faithful. -/
theorem stored_agrees : (∀ v, c.stored.holds v = c.holds v) ↔ c.Faithful := by
  cases c with
  | range min max =>
    rw [faithful_iff]
    constructor
    · intro same x inside
      have loaded : (stored (range min max)).holds (some (.float x)) = true :=
        within_iff.mpr inside
      rw [same] at loaded
      exact within_iff.mp loaded
    · intro same v
      have views : ∀ x, within (kept min) (kept max) x = within min max x := fun x => by
        rw [Bool.eq_iff_iff, within_iff, within_iff]
        exact ⟨same x, Inside.kept⟩
      rw [stored, holds, holds, funext views]
  | _ => exact iff_of_true (fun _ => rfl) trivial

/-! ### Saved conditions -/

/-- Loading reports an error, or gives a condition that holds of the same attributes, present
ones and a missing one. -/
def Survives (c : Condition) (loaded : Except DocumentFault Condition) : Prop :=
  ∀ d, loaded = .ok d → ∀ v, d.holds v = c.holds v

/-- The finite numbers of the condition are read back from their texts. -/
def ReadBack : Condition → Prop
  | .equals v | .notEquals v => v.ReadsBack
  | .range min max => ∀ x, x ∈ min ∨ x ∈ max → x.isFinite = true → Json.ReadsBack x
  | .oneOf vs => ∀ v ∈ vs, v.ReadsBack
  | .present | .absent => True

theorem bound_legible {bound : Option Float} {room : Nat}
    (readBack : ∀ x ∈ bound, x.isFinite = true → Json.ReadsBack x) :
    (Codec.float.nullable.write bound).Legible room := by
  cases bound with
  | none => trivial
  | some x =>
    by_cases finite : x.isFinite = true
    · simp only [Codec.nullable, Codec.float, if_pos finite]
      exact readBack x rfl finite
    · simp only [Codec.nullable, Codec.float, if_neg finite]
      trivial

theorem write_legible (readBack : c.ReadBack) (room : Nat) :
    (codec.write c).Legible (room + 2) := by
  cases c with
  | equals v => exact ⟨Nat.succ_pos _, Value.write_legible readBack _, trivial⟩
  | notEquals v => exact ⟨Nat.succ_pos _, Value.write_legible readBack _, trivial⟩
  | range min max =>
    have lower : (Codec.float.nullable.write min).Legible room :=
      bound_legible fun x mem => readBack x (.inl mem)
    have upper : (Codec.float.nullable.write max).Legible room :=
      bound_legible fun x mem => readBack x (.inr mem)
    exact ⟨Nat.succ_pos _, ⟨Nat.succ_pos _, lower, upper, trivial⟩, trivial⟩
  | oneOf vs =>
    have values : (Value.codec.list.write vs).Legible (room + 1) :=
      Codec.list_legible fun v mem => Value.write_legible (readBack v mem) room
    exact ⟨Nat.succ_pos _, values, trivial⟩
  | present => trivial
  | absent => trivial

/-- Where a condition is loaded as it is stored, or refused for a value that is not finite, it
survives exactly if it is faithful. -/
theorem survives_iff_of_read {loaded : Except DocumentFault Condition}
    (read : ∀ d, loaded = .ok d ↔ c.Finite ∧ d = c.stored) : c.Survives loaded ↔ c.Faithful := by
  rw [← stored_agrees]
  constructor
  · intro survives
    by_cases finite : c.Finite
    · exact survives c.stored ((read _).mpr ⟨finite, rfl⟩)
    · -- only the bounds of a range are ever changed, and a range is never refused
      cases c with
      | range min max => exact absurd trivial finite
      | _ => exact fun _ => rfl
  · intro agrees d isLoaded
    obtain ⟨-, rfl⟩ := (read d).mp isLoaded
    exact agrees

/-- A condition that is saved and loaded again never holds of other attributes than before,
without an error, exactly if its bounds, if it has any, are finite, or one is infinite on its open
side and the other one finite. From a text it is loaded as from a document, provided that numbers
keep their values in their texts. -/
theorem survives_iff (c : Condition) :
    (∀ source, c.Survives (codec.read source (codec.write c).draft) ↔ c.Faithful) ∧
      (c.ReadBack → (c.Survives (codec.decode (codec.write c).compact) ↔ c.Faithful)) := by
  refine ⟨fun source => survives_iff_of_read fun d => read_written, fun readBack => ?_⟩
  rw [Codec.decode_compact codec (write_legible readBack 125)]
  exact survives_iff_of_read fun d => read_written

/-- A range from one and a half survives as a text. -/
theorem half_survives : (range (some 1.5) none).ReadBack ∧
    (range (some 1.5) none).Survives
      (codec.decode (codec.write (range (some 1.5) none)).compact) := by
  have readBack : (range (some 1.5) none).ReadBack := by
    rintro x (mem | mem) -
    · cases mem
      exact Json.readsBack_half
    · cases mem
  have faithful : (range (some 1.5) none).Faithful := .inl ⟨kept_of_isFinite (by decide), rfl⟩
  exact ⟨readBack, ((survives_iff _).2 readBack).mpr faithful⟩

/-- A range that only an infinite number lies in is written like one without bounds, and so it is
loaded: then it holds of every number. -/
theorem unbounded_admits : ∃ d, codec.decode (codec.write (range (some infinity) none)).compact =
      .ok d ∧ d.holds (some (.int 1)) = true ∧
    (range (some infinity) none).holds (some (.int 1)) = false ∧
    ¬ (range (some infinity) none).Survives
      (codec.decode (codec.write (range (some infinity) none)).compact) := by
  have readBack : (range (some infinity) none).ReadBack := by
    rintro x (mem | mem) finite
    · cases mem
      cases finite
    · cases mem
  have loaded : codec.decode (codec.write (range (some infinity) none)).compact =
      .ok (range none none) := by
    rw [Codec.decode_compact codec (write_legible readBack 125)]
    exact read_written.mpr ⟨trivial, rfl⟩
  have admitted : (range none none).holds (some (.int 1)) = true := rfl
  have refused : (range (some infinity) none).holds (some (.int 1)) = false := by decide
  refine ⟨_, loaded, admitted, refused, fun survives => ?_⟩
  have same := survives _ loaded (some (.int 1))
  rw [admitted, refused] at same
  cases same

end Condition

end GraphTransformation
