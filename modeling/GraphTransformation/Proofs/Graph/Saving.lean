import GraphTransformation.Graph.Document
import GraphTransformation.Proofs.Graph.Loading
import GraphTransformation.Proofs.History
import GraphTransformation.Proofs.Json.Restoration
import GraphTransformation.Proofs.Json.Scanning

/-!
Graphs that are saved and loaded again.

A graph is saved as the document of its snapshot. Integers, floating-point numbers, flags and texts
are different nodes of a document, so every attribute is read back with its kind; only a number
without a finite value is not, as `null` is written for it. A counter is loaded unless it is the
last word. Hence a graph is loaded from what was saved of it exactly if it is `Storable`, and then
it is the same graph, indexes and counters included (`restores_saved`).

The reader of numbers rounds twice when it multiplies by a power of ten, so a floating-point number
need not be read back from its shortest text. `ReadBack` says of a graph that this happens to none
of its attributes. It is needed for texts only, not for documents that are known as a whole.
-/

namespace GraphTransformation

open Codec (Restores)

/-! ### Attributes -/

/-- The value is not a floating-point number without a finite value. -/
def Value.Finite : Value → Prop
  | .float x => x.isFinite = true
  | _ => True

theorem Value.codec_restores : Value.codec.Restores Value.Finite := by
  refine .of_cases (fun source v finite => ?_) fun source v infinite => ?_
  · cases v with
    | bool flag => rfl
    | int n =>
      have range : Int64.minValue.toInt ≤ n.toInt ∧ n.toInt ≤ Int64.maxValue.toInt :=
        ⟨n.minValue_le_toInt, n.toInt_le⟩
      simp only [codec, Json.draft, Json.Draft.document?, ofDocument, if_pos range,
        Int64.ofInt_toInt]
    | float x =>
      have finite : x.isFinite = true := finite
      simp only [codec, if_pos finite, Json.draft, Json.Draft.document?, ofDocument]
    | string s => rfl
  · cases v with
    | float x =>
      have infinite : ¬ x.isFinite = true := infinite
      simp only [codec, if_neg infinite]
      exact ⟨_, rfl⟩
    | _ => exact absurd trivial infinite

namespace Attributes

/-- No attribute is a floating-point number without a finite value. -/
def Finite (attributes : Attributes) : Prop := ∀ p ∈ attributes.toList, p.2.Finite

theorem readInto_written {source : Source} {pairs : List (String × Value)} {start b : Attributes} :
    readInto source .closed start
        (Json.fieldDrafts (pairs.map fun (name, v) => (name, Value.codec.write v))) = .ok b ↔
      (∀ p ∈ pairs, p.2.Finite) ∧ b = start.insertAll pairs := by
  induction pairs generalizing start with
  | nil =>
    constructor
    · intro read
      cases read
      exact ⟨by simp, rfl⟩
    · rintro ⟨-, rfl⟩
      rfl
  | cons p rest ih =>
    obtain ⟨name, v⟩ := p
    have step : start.insertAll ((name, v) :: rest) = (start.insert name v).insertAll rest := rfl
    simp only [List.map_cons, Json.fieldDrafts, readInto, bind_eq_ok,
      Value.codec_restores source v, List.forall_mem_cons, step]
    constructor
    · rintro ⟨_, ⟨finite, rfl⟩, others⟩
      obtain ⟨allFinite, rfl⟩ := ih.mp others
      exact ⟨⟨finite, allFinite⟩, rfl⟩
    · rintro ⟨⟨finite, allFinite⟩, rfl⟩
      exact ⟨v, ⟨finite, rfl⟩, ih.mpr ⟨allFinite, rfl⟩⟩

theorem codec_restores : Attributes.codec.Restores Attributes.Finite := by
  intro source attributes b
  have whole : SortedMap.empty.insertAll attributes.toList = attributes :=
    SortedMap.ofList_toList attributes
  have read := @readInto_written source attributes.toList .empty b
  rw [whole] at read
  exact read

end Attributes

/-! ### Elements -/

theorem Handle.codec_restores {kind : Kind} :
    (Handle.codec : Codec (Handle kind)).Restores fun _ => True := by
  intro source h b
  simp only [Handle.codec, map_eq_ok, Codec.word_restores source h.word]
  constructor
  · rintro ⟨_, ⟨-, rfl⟩, rfl⟩
    exact ⟨trivial, rfl⟩
  · rintro ⟨-, rfl⟩
    exact ⟨_, ⟨trivial, rfl⟩, rfl⟩

theorem Vertex.codec_restores : Vertex.codec.Restores fun v => v.attributes.Finite := by
  intro source v b
  rw [Vertex.codec, Codec.record_read_write (by decide) (by simp [Codec.Field.needed,
    Codec.Field.optional, Codec.Field.always])]
  simp only [List.foldlM_cons, List.foldlM_nil, bind_eq_ok, Codec.Field.needed,
    Codec.Field.optional, Codec.Field.copy_always Handle.codec_restores,
    Codec.Field.copy_always Attributes.codec_restores]
  constructor
  · rintro ⟨_, ⟨-, rfl⟩, _, ⟨finite, rfl⟩, done⟩
    cases done
    exact ⟨finite, rfl⟩
  · rintro ⟨finite, rfl⟩
    exact ⟨_, ⟨trivial, rfl⟩, _, ⟨finite, rfl⟩, rfl⟩

theorem Edge.codec_restores : Edge.codec.Restores fun e => e.attributes.Finite := by
  intro source e b
  rw [Edge.codec, Codec.record_read_write (by decide) (by simp [Codec.Field.needed,
    Codec.Field.optional, Codec.Field.always])]
  simp only [List.foldlM_cons, List.foldlM_nil, bind_eq_ok, Codec.Field.needed,
    Codec.Field.optional, Codec.Field.copy_always Handle.codec_restores,
    Codec.Field.copy_always Attributes.codec_restores]
  constructor
  · rintro ⟨_, ⟨-, rfl⟩, _, ⟨-, rfl⟩, _, ⟨-, rfl⟩, _, ⟨finite, rfl⟩, done⟩
    cases done
    exact ⟨finite, rfl⟩
  · rintro ⟨finite, rfl⟩
    exact ⟨_, ⟨trivial, rfl⟩, _, ⟨trivial, rfl⟩, _, ⟨trivial, rfl⟩, _, ⟨finite, rfl⟩, rfl⟩

/-! ### Graphs -/

/-- All attributes of the listed elements are finite. -/
def Snapshot.Finite (s : Snapshot) : Prop :=
  (∀ v ∈ s.vertices, v.attributes.Finite) ∧ ∀ e ∈ s.edges, e.attributes.Finite

theorem Snapshot.codec_restores : Snapshot.codec.Restores Snapshot.Finite := by
  intro source s b
  have counter : Codec.word.nullable.Restores fun o => ∀ n ∈ o, True :=
    Codec.word_restores.nullable fun n => by simp [Codec.word, Json.draft]
  rw [Snapshot.codec, Codec.record_read_write (by decide) (by simp [Codec.Field.needed,
    Codec.Field.optional, Codec.Field.always])]
  simp only [List.foldlM_cons, List.foldlM_nil, bind_eq_ok, Codec.Field.needed,
    Codec.Field.optional, Codec.Field.copy_always Vertex.codec_restores.list,
    Codec.Field.copy_always Edge.codec_restores.list, Codec.Field.copy_always counter]
  constructor
  · rintro ⟨_, ⟨vertices, rfl⟩, _, ⟨edges, rfl⟩, _, ⟨-, rfl⟩, _, ⟨-, rfl⟩, done⟩
    cases done
    exact ⟨⟨vertices, edges⟩, rfl⟩
  · rintro ⟨⟨vertices, edges⟩, rfl⟩
    exact ⟨_, ⟨vertices, rfl⟩, _, ⟨edges, rfl⟩, _, ⟨by simp, rfl⟩, _, ⟨by simp, rfl⟩, rfl⟩

namespace Graph

variable {g h : Graph}

/-- No attribute is a floating-point number without a finite value, and either counter has a
handle left to give out. -/
structure Storable (g : Graph) : Prop where
  vertices : ∀ v ∈ g.vertices, v.attributes.Finite
  edges : ∀ e ∈ g.edges, e.attributes.Finite
  nextVertex : g.nextVertex ≠ lastWord
  nextEdge : g.nextEdge ≠ lastWord

theorem codec_restores (cons : g.Consistent) (source : Source) :
    Graph.codec.read source (Graph.codec.write g).draft = .ok h ↔ g.Storable ∧ h = g := by
  have read : Graph.codec.read source (Graph.codec.write g).draft = .ok h ↔
      g.snapshot.Finite ∧ g.snapshot.load = .ok h := by
    simp only [Graph.codec, bind_eq_ok, Snapshot.codec_restores source g.snapshot]
    constructor
    · rintro ⟨_, ⟨finite, rfl⟩, loaded⟩
      split at loaded
      · rename_i k done
        cases loaded
        exact ⟨finite, done⟩
      · cases loaded
    · rintro ⟨finite, loaded⟩
      exact ⟨_, ⟨finite, rfl⟩, by rw [loaded]; rfl⟩
  rw [read, cons.load_snapshot]
  constructor
  · rintro ⟨⟨vertices, edges⟩, loaded⟩
    split at loaded
    · cases loaded
    · rename_i free
      obtain ⟨nextVertex, nextEdge⟩ := not_or.mp free
      cases loaded
      exact ⟨⟨vertices, edges, nextVertex, nextEdge⟩, rfl⟩
  · rintro ⟨storable, rfl⟩
    refine ⟨⟨storable.vertices, storable.edges⟩, if_neg ?_⟩
    exact not_or.mpr ⟨storable.nextVertex, storable.nextEdge⟩

end Graph

/-! ### Texts -/

/-- If the value is a finite floating-point number, its text is read back. -/
def Value.ReadsBack : Value → Prop
  | .float x => x.isFinite = true → Json.ReadsBack x
  | _ => True

theorem Value.write_legible {v : Value} (readsBack : v.ReadsBack) (room : Nat) :
    (Value.codec.write v).Legible room := by
  cases v with
  | bool flag => trivial
  | int n =>
    have low := n.le_toInt
    have high := n.toInt_lt
    exact ⟨low, by omega⟩
  | float x =>
    by_cases finite : x.isFinite = true
    · simp only [codec, if_pos finite]
      exact readsBack finite
    · simp only [codec, if_neg finite]
      trivial
  | string s => trivial

/-- All finite floating-point numbers among the attributes are read back from their texts. -/
def Attributes.ReadBack (attributes : Attributes) : Prop := ∀ p ∈ attributes.toList, p.2.ReadsBack

theorem Attributes.write_legible {attributes : Attributes} (readBack : attributes.ReadBack)
    (room : Nat) : (Attributes.codec.write attributes).Legible (room + 1) := by
  refine ⟨Nat.succ_pos room, Json.legibleFields_iff.mpr ?_⟩
  intro f member
  obtain ⟨p, listed, rfl⟩ := List.mem_map.mp member
  exact Value.write_legible (readBack p listed) room

theorem Codec.word_legible (n : UInt64) (room : Nat) : (Codec.word.write n).Legible room := by
  have small := n.toNat_lt
  exact ⟨by simp, by omega⟩

theorem Vertex.write_legible {v : Vertex} (readBack : v.attributes.ReadBack) (room : Nat) :
    (Vertex.codec.write v).Legible (room + 2) :=
  ⟨Nat.succ_pos _, Codec.word_legible v.id.word _, Attributes.write_legible readBack room, trivial⟩

theorem Edge.write_legible {e : Edge} (readBack : e.attributes.ReadBack) (room : Nat) :
    (Edge.codec.write e).Legible (room + 2) :=
  ⟨Nat.succ_pos _, Codec.word_legible e.id.word _, Codec.word_legible e.source.word _,
    Codec.word_legible e.target.word _, Attributes.write_legible readBack room, trivial⟩

theorem Codec.list_legible {α : Type} {c : Codec α} {as : List α} {room : Nat}
    (legible : ∀ a ∈ as, (c.write a).Legible room) : (c.list.write as).Legible (room + 1) := by
  refine ⟨Nat.succ_pos room, Json.legibleItems_iff.mpr ?_⟩
  intro j member
  obtain ⟨a, listed, rfl⟩ := List.mem_map.mp member
  exact legible a listed

namespace Graph

/-- All finite floating-point numbers among the attributes are read back from their texts. -/
structure ReadBack (g : Graph) : Prop where
  vertices : ∀ v ∈ g.vertices, v.attributes.ReadBack
  edges : ∀ e ∈ g.edges, e.attributes.ReadBack

theorem write_legible {g : Graph} (readBack : g.ReadBack) (room : Nat) :
    (Graph.codec.write g).Legible (room + 4) :=
  have vertices : (Vertex.codec.list.write g.vertices).Legible (room + 3) :=
    Codec.list_legible fun v member => Vertex.write_legible (readBack.vertices v member) room
  have edges : (Edge.codec.list.write g.edges).Legible (room + 3) :=
    Codec.list_legible fun e member => Edge.write_legible (readBack.edges e member) room
  ⟨Nat.succ_pos _, vertices, edges, Codec.word_legible g.nextVertex _,
    Codec.word_legible g.nextEdge _, trivial⟩

/-- A graph is loaded from what was saved of it exactly if it is storable, and the loaded graph is
the saved one. From a text it is read as from a document, provided that numbers keep their values
in their texts. -/
theorem restores_saved {g h : Graph} (reach : g.Reachable) :
    (∀ source, Graph.codec.read source (Graph.codec.write g).draft = .ok h ↔
        g.Storable ∧ h = g) ∧
      (g.ReadBack → (Graph.codec.decode (Graph.codec.write g).compact = .ok h ↔
        g.Storable ∧ h = g)) := by
  have restored := Graph.codec_restores (h := h) reach.consistent
  refine ⟨restored, fun readBack => ?_⟩
  rw [Codec.decode_compact Graph.codec (write_legible readBack 123)]
  exact restored .text

/-- One attribute of each kind. -/
def labels (x : Float) : Attributes :=
  .ofList [("hops", .int (-7)), ("name", .string "a \"b\""), ("open", .bool true),
    ("weight", .float x)]

/-- The arrow with labels on its edge. -/
def weighted (x : Float) : Graph := (arrow.perform (.edit (fun _ => labels x) (.edge ⟨0⟩))).1

theorem weighted_reachable (x : Float) : (weighted x).Reachable := .step _ arrow_reachable

theorem forall_labels {x : Float} {P : Value → Prop} :
    (∀ p ∈ (labels x).toList, P p.2) ↔
      P (.int (-7)) ∧ P (.string "a \"b\"") ∧ P (.bool true) ∧ P (.float x) := by
  simp [labels, SortedMap.mem_ofList]

theorem weighted_vertices (x : Float) :
    (weighted x).vertices = [⟨⟨0⟩, .empty⟩, ⟨⟨1⟩, .empty⟩] := rfl

theorem weighted_edges (x : Float) : (weighted x).edges = [⟨⟨0⟩, ⟨0⟩, ⟨1⟩, labels x⟩] := rfl

theorem weighted_storable {x : Float} : (weighted x).Storable ↔ x.isFinite = true := by
  constructor
  · intro storable
    have finite : (labels x).Finite := storable.edges _ (List.mem_singleton.mpr rfl)
    exact (forall_labels.mp finite).2.2.2
  · intro finite
    have labelled : (labels x).Finite := forall_labels.mpr ⟨trivial, trivial, trivial, finite⟩
    refine ⟨?_, ?_, ?_, ?_⟩
    · simp [weighted_vertices, Attributes.Finite, SortedMap.empty]
    · simpa [weighted_edges] using labelled
    · exact (by decide : (2 : UInt64) ≠ lastWord)
    · exact (by decide : (1 : UInt64) ≠ lastWord)

theorem weighted_readBack {x : Float} (readsBack : Json.ReadsBack x) : (weighted x).ReadBack := by
  have labelled : (labels x).ReadBack :=
    forall_labels.mpr ⟨trivial, trivial, trivial, fun _ => readsBack⟩
  refine ⟨?_, ?_⟩
  · simp [weighted_vertices, Attributes.ReadBack, SortedMap.empty]
  · simpa [weighted_edges] using labelled

/-- With a weight of one and a half the arrow is restored from its text; with an infinite weight it
is not restored. -/
theorem weighted_restored :
    (weighted 1.5).Reachable ∧ (weighted 1.5).ReadBack ∧
      Graph.codec.decode (Graph.codec.write (weighted 1.5)).compact = .ok (weighted 1.5) ∧
      ∀ source h, Graph.codec.read source (Graph.codec.write (weighted (1 / 0))).draft ≠ .ok h := by
  have readBack : (weighted 1.5).ReadBack := weighted_readBack Json.readsBack_half
  refine ⟨weighted_reachable 1.5, readBack, ?_, ?_⟩
  · have storable : (weighted 1.5).Storable := weighted_storable.mpr (by decide)
    exact ((restores_saved (weighted_reachable 1.5)).2 readBack).mpr ⟨storable, rfl⟩
  · intro source h restored
    have storable := (((restores_saved (weighted_reachable (1 / 0))).1 source).mp restored).1
    exact absurd (weighted_storable.mp storable) (by decide)

end Graph

end GraphTransformation
