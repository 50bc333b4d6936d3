import GraphTransformation.Proofs.Production.Structure
import GraphTransformation.Proofs.Search.Pruning

/-!
Graphs that come after one another.

`Graph.Follows` says what a later graph may have of the handles of an earlier one:
an element of both is the same element, and all others of the later graph stand
under handles that the earlier one had still to give out. It is transitive on
consistent graphs (`Follows.trans`), and the result of an application follows its
host (`Production.apply_follows`).
-/

namespace GraphTransformation

namespace Graph

variable {g h k : Graph} {element : Element}

/-- The handle lies below the counter of its kind: the graph has given it out already. -/
def Issued (g : Graph) : Element → Prop
  | .vertex id => id.word < g.nextVertex
  | .edge id => id.word < g.nextEdge

theorem Consistent.issued (cons : g.Consistent) (member : g.contains element = true) :
    g.Issued element := by
  cases element with
  | vertex id => exact cons.vertex_below member
  | edge id => exact cons.edge_below member

/-- What has been given out stays so while no counter goes down. -/
theorem Issued.mono (earlier : g.Issued element) (nextVertex : g.nextVertex ≤ h.nextVertex)
    (nextEdge : g.nextEdge ≤ h.nextEdge) : h.Issued element := by
  cases element with
  | vertex id => exact UInt64.lt_of_lt_of_le earlier nextVertex
  | edge id => exact UInt64.lt_of_lt_of_le earlier nextEdge

/-- What is in `h` was in `g` or stands under a handle that `g` had still to give out, and
an edge of both has the same ends in both. -/
structure Follows (g h : Graph) : Prop where
  issued : ∀ element, g.Issued element → h.Issued element
  new : ∀ element, h.contains element = true → g.contains element = true ∨ ¬ g.Issued element
  ends : ∀ {k x y}, g.edge? k = some x → h.edge? k = some y → y.ends = x.ends

theorem Follows.refl (g : Graph) : Follows g g where
  issued _ := id
  new _ := .inl
  ends before after := by
    cases before.symm.trans after
    rfl

/-- An element that is gone in between does not come back, as its handle had been given out. -/
theorem Follows.trans (cons : g.Consistent) (first : Follows g h) (second : Follows h k) :
    Follows g k where
  issued element := second.issued element ∘ first.issued element
  new element member := by
    rcases second.new element member with between | fresh
    · exact first.new element between
    · exact .inr fun earlier => fresh (first.issued element earlier)
  ends {e x y} before after := by
    have member : k.contains (.edge e) = true := SortedMap.contains_of_get? after
    rcases second.new _ member with between | fresh
    · obtain ⟨z, stored⟩ := SortedMap.contains_iff.mp between
      exact (second.ends stored after).trans (first.ends before stored)
    · have earlier : g.Issued (.edge e) := cons.edge_below (SortedMap.contains_of_get? before)
      exact absurd (first.issued _ earlier) fresh

end Graph

namespace Production

open GraphTransformation.Graph

variable {p : Production} {host result : Graph} {m : Match}

/-- An application lowers no counter. -/
theorem apply_grow (cons : host.Consistent) (applied : p.apply host m = .ok result) :
    host.nextVertex ≤ result.nextVertex ∧ host.nextEdge ≤ result.nextEdge := by
  have room := apply_hasRoom cons applied
  obtain ⟨nextVertex, nextEdge, -, -, -⟩ := apply_frame cons applied
  constructor
  · rw [UInt64.le_iff_toNat_le, nextVertex, Handle.toNat_word_add room.1]
    omega
  · rw [UInt64.le_iff_toNat_le, nextEdge, Handle.toNat_word_add room.2]
    omega

theorem apply_follows (cons : host.Consistent) (applied : p.apply host m = .ok result) :
    Follows host result := by
  obtain ⟨vertexGrows, edgeGrows⟩ := apply_grow cons applied
  obtain ⟨-, -, vertices, newEdge, oldEdge⟩ := apply_frame cons applied
  obtain ⟨vertexRoom, edgeRoom⟩ := apply_hasRoom cons applied
  constructor
  case issued => exact fun _ earlier => earlier.mono vertexGrows edgeGrows
  case new =>
    intro element member
    cases element with
    | vertex v =>
      rcases (vertices v).mp member with ⟨before, -⟩ | ⟨i, lt, rfl⟩
      · exact .inl before
      · exact .inr (Handle.issued_not_below (by omega))
    | edge k =>
      by_cases new : ∃ i < p.newEdges.length, k = host.freshEdge i
      · obtain ⟨i, lt, rfl⟩ := new
        exact .inr (Handle.issued_not_below (by omega))
      · obtain ⟨y, stored⟩ := SortedMap.contains_iff.mp member
        have apart : ∀ i < p.newEdges.length, k ≠ host.freshEdge i := fun i lt eq => new ⟨i, lt, eq⟩
        have left := (oldEdge k apart y.source y.target).mp (ends_eq_some.mpr ⟨y, stored, rfl, rfl⟩)
        obtain ⟨x, before, -⟩ := ends_eq_some.mp left.1
        exact .inl (SortedMap.contains_of_get? before)
  case ends =>
    intro k x y before after
    have earlier := cons.edge_below (SortedMap.contains_of_get? before)
    have apart : ∀ i < p.newEdges.length, k ≠ host.freshEdge i := by
      rintro i lt rfl
      exact Handle.issued_not_below (by omega) earlier
    have left := (oldEdge k apart y.source y.target).mp (ends_eq_some.mpr ⟨y, after, rfl, rfl⟩)
    obtain ⟨x', before', source, target⟩ := ends_eq_some.mp left.1
    cases before.symm.trans before'
    exact Prod.ext source.symm target.symm

end Production

end GraphTransformation
