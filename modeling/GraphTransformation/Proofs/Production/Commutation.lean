import GraphTransformation.Proofs.Graph.Succession
import GraphTransformation.Proofs.Production.Independence

/-!
Independent applications commute.

`Diamond` holds two applications at matches apart from one another, in both orders.
What is left of the host is the same in both (`Diamond.vertex_old`,
`Diamond.edge_old`). What an application creates depends on the order only through
the block of handles that it gets, so the results are one another renamed
(`Diamond.renames`).
-/

namespace GraphTransformation.Production

open GraphTransformation.Graph

variable {p q : Production} {host a b ab ba : Graph} {m n : Embedding}

/-! ### Both orders -/

/-- Two applications at matches apart from one another, in both orders, with room for all
that they create. -/
structure Diamond (p q : Production) (host : Graph) (m n : Embedding) (a b ab ba : Graph) :
    Prop where
  cons : host.Consistent
  firstOccurs : m.Occurs p.lhs host
  secondOccurs : n.Occurs q.lhs host
  apart : m.hostVertices.Disjoint n.hostVertices
  firstPlain : p.Plain
  secondPlain : q.Plain
  vertexRoom : host.nextVertex.toNat + (p.newVertices.length + q.newVertices.length) < UInt64.size
  edgeRoom : host.nextEdge.toNat + (p.newEdges.length + q.newEdges.length) < UInt64.size
  first : p.Effect host m a
  second : q.Effect host n b
  firstThen : q.Effect a n ab
  secondThen : p.Effect b m ba

/-- The vertex handle of what an application creates, as it is when the other comes first. -/
def moveVertex (p q : Production) (host : Graph) : VertexId → VertexId :=
  Handle.swapBlocks host.nextVertex p.newVertices.length q.newVertices.length

/-- The edge handle of what an application creates, as it is when the other comes first. -/
def moveEdge (p q : Production) (host : Graph) : EdgeId → EdgeId :=
  Handle.swapBlocks host.nextEdge p.newEdges.length q.newEdges.length

theorem moveVertex_old {v : VertexId} (old : v.word < host.nextVertex) :
    p.moveVertex q host v = v := Handle.swapBlocks_old old

theorem moveEdge_old {k : EdgeId} (old : k.word < host.nextEdge) : p.moveEdge q host k = k :=
  Handle.swapBlocks_old old

namespace Diamond

theorem symm (d : Diamond p q host m n a b ab ba) : Diamond q p host n m b a ba ab where
  cons := d.cons
  firstOccurs := d.secondOccurs
  secondOccurs := d.firstOccurs
  apart := d.apart.symm
  firstPlain := d.secondPlain
  secondPlain := d.firstPlain
  vertexRoom := by
    have := d.vertexRoom
    omega
  edgeRoom := by
    have := d.edgeRoom
    omega
  first := d.second
  second := d.first
  firstThen := d.secondThen
  secondThen := d.firstThen

variable (d : Diamond p q host m n a b ab ba)
include d

theorem agree : n.Agree host a := d.first.agree d.cons d.firstOccurs d.secondOccurs d.apart

/-! ### Old elements -/

theorem vertex_after {v : VertexId} (old : v.word < host.nextVertex) : ab.vertex? v =
    ((host.vertex? v).bind (p.keptVertex ⟨host, m⟩)).bind (q.keptVertex ⟨host, n⟩) := by
  have later := d.first.vertex_issued (Nat.lt_add_right _ (UInt64.lt_iff_toNat_lt.mp old))
  rw [d.firstThen.oldVertex v later, d.first.oldVertex v old, d.agree.keptVertex d.secondPlain]

theorem edge_after {k : EdgeId} (old : k.word < host.nextEdge) : ab.edge? k =
    ((host.edge? k).bind (p.keptEdge ⟨host, m⟩)).bind (q.keptEdge ⟨host, n⟩) := by
  have later := d.first.edge_issued (Nat.lt_add_right _ (UInt64.lt_iff_toNat_lt.mp old))
  rw [d.firstThen.oldEdge k later, d.first.oldEdge k old, d.agree.keptEdge d.secondPlain]

theorem vertex_old {v : VertexId} (old : v.word < host.nextVertex) :
    ba.vertex? v = ab.vertex? v := by
  rw [d.vertex_after old, d.symm.vertex_after old]
  cases host.vertex? v with
  | none => rfl
  | some x => exact (keptVertex_comm d.apart x).symm

theorem edge_old {k : EdgeId} (old : k.word < host.nextEdge) : ba.edge? k = ab.edge? k := by
  rw [d.edge_after old, d.symm.edge_after old]
  cases stored : host.edge? k with
  | none => rfl
  | some x =>
    have same : x.id = k := d.cons.edge_id stored
    exact (keptEdge_comm d.firstOccurs d.secondOccurs d.apart (same.symm ▸ stored)).symm

/-- An old edge runs between old vertices. -/
theorem ends_old {k : EdgeId} {x : Edge} (old : k.word < host.nextEdge)
    (stored : ab.edge? k = some x) :
    x.source.word < host.nextVertex ∧ x.target.word < host.nextVertex := by
  rw [d.edge_after old] at stored
  obtain ⟨y, left, again⟩ := Option.bind_eq_some_iff.mp stored
  obtain ⟨z, before, once⟩ := Option.bind_eq_some_iff.mp left
  obtain ⟨-, source, target⟩ := keptEdge_ends again
  obtain ⟨-, source', target'⟩ := keptEdge_ends once
  rw [source, source', target, target']
  exact ⟨d.cons.vertex_below (d.cons.outgoing.member before),
    d.cons.vertex_below (d.cons.incoming.member before)⟩

/-! ### New elements -/

theorem vertex_off {i : Nat} (lt : i < p.newVertices.length) :
    host.freshVertex i ∉ n.hostVertices := by
  have room := d.vertexRoom
  intro mem
  exact Handle.ne_issued (by omega) (d.secondOccurs.vertex_below d.cons mem) rfl

theorem edge_off {i : Nat} (lt : i < p.newEdges.length) : host.freshEdge i ∉ n.hostEdges := by
  have room := d.edgeRoom
  intro mem
  exact Handle.ne_issued (by omega) (d.secondOccurs.edge_below d.cons mem) rfl

/-- No vertex of the second match stands for a replacement vertex of the first. -/
theorem standIn_off {r v : VertexId} (stands : p.standIn host m r = some v) :
    v ∉ n.hostVertices := by
  rcases standIn_range stands with image | ⟨j, lt, rfl⟩
  · exact d.apart image
  · exact d.vertex_off lt

/-- What the first application creates is left by the second. -/
theorem vertex_first {i : Nat} (lt : i < p.newVertices.length) :
    ab.vertex? (host.freshVertex i) = p.createdVertex ⟨host, m⟩ host i := by
  have room := d.vertexRoom
  have word : (host.freshVertex i).word.toNat = host.nextVertex.toNat + i :=
    Handle.toNat_word_add (by omega)
  have later := d.first.vertex_issued (by rw [word]; omega)
  rw [d.firstThen.oldVertex _ later, d.first.newVertex i (by omega)]
  cases made : p.createdVertex ⟨host, m⟩ host i with
  | none => rfl
  | some x => exact keptVertex_off ((createdVertex_id made).symm ▸ d.vertex_off lt)

theorem edge_first {i : Nat} (lt : i < p.newEdges.length) :
    ab.edge? (host.freshEdge i) = p.createdEdge ⟨host, m⟩ host i := by
  have room := d.edgeRoom
  have word : (host.freshEdge i).word.toNat = host.nextEdge.toNat + i :=
    Handle.toNat_word_add (by omega)
  have later := d.first.edge_issued (by rw [word]; omega)
  rw [d.firstThen.oldEdge _ later, d.first.newEdge i (by omega)]
  cases made : p.createdEdge ⟨host, m⟩ host i with
  | none => rfl
  | some x =>
    obtain ⟨id, ⟨r, source⟩, ⟨s, target⟩⟩ := createdEdge_parts made
    exact keptEdge_apart (id.symm ▸ d.edge_off lt) (d.standIn_off source) (d.standIn_off target)

/-- What the second application creates is created as in the host, under later handles. -/
theorem vertex_second {i : Nat} (lt : i < q.newVertices.length) :
    ab.vertex? (a.freshVertex i) = q.createdVertex ⟨host, n⟩ a i := by
  have room := d.vertexRoom
  have next := d.first.nextVertex
  rw [d.firstThen.newVertex i (by omega), d.agree.createdVertex d.secondPlain]

theorem edge_second {i : Nat} (lt : i < q.newEdges.length) :
    ab.edge? (a.freshEdge i) = q.createdEdge ⟨host, n⟩ a i := by
  have room := d.edgeRoom
  have next := d.first.nextEdge
  rw [d.firstThen.newEdge i (by omega), d.agree.createdEdge d.secondPlain]

/-! ### Where a handle of the first order is in the second -/

theorem nextVertex_eq : ba.nextVertex = ab.nextVertex := by
  refine UInt64.toNat_inj.mp ?_
  rw [d.secondThen.nextVertex, d.second.nextVertex, d.firstThen.nextVertex, d.first.nextVertex]
  omega

theorem nextEdge_eq : ba.nextEdge = ab.nextEdge := by
  refine UInt64.toNat_inj.mp ?_
  rw [d.secondThen.nextEdge, d.second.nextEdge, d.firstThen.nextEdge, d.first.nextEdge]
  omega

theorem vertex_cases (v : VertexId) : v.word < host.nextVertex ∨
    (∃ i < p.newVertices.length, v = host.freshVertex i) ∨
      (∃ i < q.newVertices.length, v = a.freshVertex i) ∨
        host.nextVertex.toNat + (p.newVertices.length + q.newVertices.length) ≤ v.word.toNat := by
  simp only [d.first.freshVertex]
  exact Handle.block_cases host.nextVertex p.newVertices.length q.newVertices.length v

theorem edge_cases (k : EdgeId) : k.word < host.nextEdge ∨
    (∃ i < p.newEdges.length, k = host.freshEdge i) ∨
      (∃ i < q.newEdges.length, k = a.freshEdge i) ∨
        host.nextEdge.toNat + (p.newEdges.length + q.newEdges.length) ≤ k.word.toNat := by
  simp only [d.first.freshEdge]
  exact Handle.block_cases host.nextEdge p.newEdges.length q.newEdges.length k

theorem moveVertex_first {i : Nat} (lt : i < p.newVertices.length) :
    p.moveVertex q host (host.freshVertex i) = b.freshVertex i := by
  rw [d.second.freshVertex]
  exact Handle.swapBlocks_first d.vertexRoom lt

theorem moveVertex_second {i : Nat} (lt : i < q.newVertices.length) :
    p.moveVertex q host (a.freshVertex i) = host.freshVertex i := by
  rw [d.first.freshVertex]
  exact Handle.swapBlocks_second d.vertexRoom lt

theorem moveEdge_first {i : Nat} (lt : i < p.newEdges.length) :
    p.moveEdge q host (host.freshEdge i) = b.freshEdge i := by
  rw [d.second.freshEdge]
  exact Handle.swapBlocks_first d.edgeRoom lt

theorem moveEdge_second {i : Nat} (lt : i < q.newEdges.length) :
    p.moveEdge q host (a.freshEdge i) = host.freshEdge i := by
  rw [d.first.freshEdge]
  exact Handle.swapBlocks_second d.edgeRoom lt

/-! ### One result renamed to the other -/

theorem vertex_renamed (left : ab.Consistent) (right : ba.Consistent) (v : VertexId) :
    ba.vertex? (p.moveVertex q host v) =
      (ab.vertex? v).map (Vertex.rename (p.moveVertex q host)) := by
  rcases d.vertex_cases v with old | ⟨i, lt, rfl⟩ | ⟨i, lt, rfl⟩ | behind
  · have fixed : p.moveVertex q host v = v := moveVertex_old old
    rw [fixed, d.vertex_old old]
    cases stored : ab.vertex? v with
    | none => rfl
    | some x =>
      have same : x.id = v := left.vertex_id stored
      exact congrArg some (Vertex.rename_of_fixed (same.symm ▸ fixed)).symm
  · calc ba.vertex? (p.moveVertex q host (host.freshVertex i))
        = ba.vertex? (b.freshVertex i) := by rw [d.moveVertex_first lt]
      _ = p.createdVertex ⟨host, m⟩ b i := d.symm.vertex_second lt
      _ = (p.createdVertex ⟨host, m⟩ host i).map _ := createdVertex_rename (d.moveVertex_first lt)
      _ = (ab.vertex? (host.freshVertex i)).map _ := by rw [d.vertex_first lt]
  · calc ba.vertex? (p.moveVertex q host (a.freshVertex i))
        = ba.vertex? (host.freshVertex i) := by rw [d.moveVertex_second lt]
      _ = q.createdVertex ⟨host, n⟩ host i := d.symm.vertex_first lt
      _ = (q.createdVertex ⟨host, n⟩ a i).map _ := createdVertex_rename (d.moveVertex_second lt)
      _ = (ab.vertex? (a.freshVertex i)).map _ := by rw [d.vertex_second lt]
  · have fixed : p.moveVertex q host v = v := Handle.swapBlocks_behind behind
    have beyond : ¬ v.word < ab.nextVertex := by
      rw [UInt64.lt_iff_toNat_lt, d.firstThen.nextVertex, d.first.nextVertex]
      omega
    rw [fixed, left.vertex_fresh beyond, right.vertex_fresh (d.nextVertex_eq ▸ beyond)]
    rfl

theorem edge_renamed (left : ab.Consistent) (right : ba.Consistent) (k : EdgeId) :
    ba.edge? (p.moveEdge q host k) =
      (ab.edge? k).map (Edge.rename (p.moveVertex q host) (p.moveEdge q host)) := by
  rcases d.edge_cases k with old | ⟨i, lt, rfl⟩ | ⟨i, lt, rfl⟩ | behind
  · have fixed : p.moveEdge q host k = k := moveEdge_old old
    rw [fixed, d.edge_old old]
    cases stored : ab.edge? k with
    | none => rfl
    | some x =>
      have same : x.id = k := left.edge_id stored
      obtain ⟨source, target⟩ := d.ends_old old stored
      exact congrArg some (Edge.rename_of_fixed (same.symm ▸ fixed)
        (moveVertex_old source) (moveVertex_old target)).symm
  · calc ba.edge? (p.moveEdge q host (host.freshEdge i))
        = ba.edge? (b.freshEdge i) := by rw [d.moveEdge_first lt]
      _ = p.createdEdge ⟨host, m⟩ b i := d.symm.edge_second lt
      _ = (p.createdEdge ⟨host, m⟩ host i).map _ :=
          createdEdge_rename (fun v mem => moveVertex_old (d.firstOccurs.vertex_below d.cons mem))
            (fun j => d.moveVertex_first)
            (d.moveEdge_first lt)
      _ = (ab.edge? (host.freshEdge i)).map _ := by rw [d.edge_first lt]
  · calc ba.edge? (p.moveEdge q host (a.freshEdge i))
        = ba.edge? (host.freshEdge i) := by rw [d.moveEdge_second lt]
      _ = q.createdEdge ⟨host, n⟩ host i := d.symm.edge_first lt
      _ = (q.createdEdge ⟨host, n⟩ a i).map _ :=
          createdEdge_rename (fun v mem => moveVertex_old (d.secondOccurs.vertex_below d.cons mem))
            (fun j => d.moveVertex_second)
            (d.moveEdge_second lt)
      _ = (ab.edge? (a.freshEdge i)).map _ := by rw [d.edge_second lt]
  · have fixed : p.moveEdge q host k = k := Handle.swapBlocks_behind behind
    have beyond : ¬ k.word < ab.nextEdge := by
      rw [UInt64.lt_iff_toNat_lt, d.firstThen.nextEdge, d.first.nextEdge]
      omega
    rw [fixed, left.edge_fresh beyond, right.edge_fresh (d.nextEdge_eq ▸ beyond)]
    rfl

theorem renames (left : ab.Consistent) (right : ba.Consistent) :
    Renames ab ba (Handle.blockSwap d.vertexRoom) (Handle.blockSwap d.edgeRoom) :=
  left.renames right (d.vertex_renamed left right) (d.edge_renamed left right) d.nextVertex_eq
    d.nextEdge_eq

end Diamond

/-- A match stays one after an application at a match apart from it. -/
theorem WellFormed.verify_after {m n : Match} (whole : p.WellFormed) (cons : host.Consistent)
    (applied : p.apply host m = .ok a)
    (verified : q.verify host n = .ok ())
    (apart : m.embedding.hostVertices.Disjoint n.embedding.hostVertices) :
    a.Consistent ∧ q.verify a n = .ok () := by
  obtain ⟨-, occurs⟩ := (verify_eq_ok cons).mp (apply_eq_ok.mp applied).1
  obtain ⟨own, other⟩ := (verify_eq_ok cons).mp verified
  have after := apply_consistent cons applied
  have agree := (whole.apply_effect cons applied).agree cons occurs other apart
  exact ⟨after, (verify_eq_ok after).mpr ⟨own, other.transfer agree⟩⟩

/-- What is left of the room for two applications after the first. -/
theorem Effect.hasRoom {m : Embedding} (effect : p.Effect host m a)
    (vertexRoom :
      host.nextVertex.toNat + (p.newVertices.length + q.newVertices.length) < UInt64.size)
    (edgeRoom : host.nextEdge.toNat + (p.newEdges.length + q.newEdges.length) < UInt64.size) :
    q.HasRoom a := by
  constructor
  · rw [effect.nextVertex]
    omega
  · rw [effect.nextEdge]
    omega

/-- Applications that cascade, by plain rules and at matches that share no vertex, commute:
each match is still one after the other application, both orders succeed, and their results
have the same elements under all old handles and are renamed to one another in the rest. -/
theorem apply_commutes {m n : Match} (first : p.Accepted) (second : q.Accepted)
    (reach : host.Reachable) (firstCascades : p.dangling = .cascade)
    (secondCascades : q.dangling = .cascade) (firstPlain : p.Plain) (secondPlain : q.Plain)
    (firstVerified : p.verify host m = .ok ()) (secondVerified : q.verify host n = .ok ())
    (apart : m.embedding.hostVertices.Disjoint n.embedding.hostVertices)
    (vertexRoom :
      host.nextVertex.toNat + (p.newVertices.length + q.newVertices.length) < UInt64.size)
    (edgeRoom : host.nextEdge.toNat + (p.newEdges.length + q.newEdges.length) < UInt64.size) :
    ∃ a b ab ba, p.apply host m = .ok a ∧ q.apply host n = .ok b ∧
      q.verify a n = .ok () ∧ p.verify b m = .ok () ∧
      q.apply a n = .ok ab ∧ p.apply b m = .ok ba ∧
      (∃ σ τ, Renames ab ba σ τ ∧ (∀ v, host.Issued (.vertex v) → σ v = v) ∧
        ∀ k, host.Issued (.edge k) → τ k = k) ∧
      (∀ v, host.contains (.vertex v) = true → ba.vertex? v = ab.vertex? v) ∧
      ∀ k, host.contains (.edge k) = true → ba.edge? k = ab.edge? k := by
  have wholeFirst := first.wellFormed
  have wholeSecond := second.wellFormed
  have cons := reach.consistent
  have room : p.HasRoom host := ⟨by omega, by omega⟩
  have roomSecond : q.HasRoom host := ⟨by omega, by omega⟩
  obtain ⟨a, toA⟩ := wholeFirst.apply_total cons room firstCascades firstVerified
  obtain ⟨b, toB⟩ := wholeSecond.apply_total cons roomSecond secondCascades secondVerified
  obtain ⟨consA, verifiedA⟩ := wholeFirst.verify_after cons toA secondVerified apart
  obtain ⟨consB, verifiedB⟩ := wholeSecond.verify_after cons toB firstVerified apart.symm
  have effectA := wholeFirst.apply_effect cons toA
  have effectB := wholeSecond.apply_effect cons toB
  have roomA : q.HasRoom a := effectA.hasRoom vertexRoom edgeRoom
  have roomB : p.HasRoom b := effectB.hasRoom (by omega) (by omega)
  obtain ⟨ab, toAB⟩ := wholeSecond.apply_total consA roomA secondCascades verifiedA
  obtain ⟨ba, toBA⟩ := wholeFirst.apply_total consB roomB firstCascades verifiedB
  have d : Diamond p q host m.embedding n.embedding a b ab ba :=
    { cons, apart, firstPlain, secondPlain, vertexRoom, edgeRoom
      firstOccurs := ((verify_eq_ok cons).mp firstVerified).2
      secondOccurs := ((verify_eq_ok cons).mp secondVerified).2
      first := effectA
      second := effectB
      firstThen := wholeSecond.apply_effect consA toAB
      secondThen := wholeFirst.apply_effect consB toBA }
  have renamed := d.renames (apply_consistent consA toAB) (apply_consistent consB toBA)
  refine ⟨a, b, ab, ba, toA, toB, verifiedA, verifiedB, toAB, toBA, ?_, ?_, ?_⟩
  · exact ⟨_, _, renamed, fun v => moveVertex_old, fun k => moveEdge_old⟩
  · exact fun v member => d.vertex_old (cons.vertex_below member)
  · exact fun k member => d.edge_old (cons.edge_below member)

theorem regrow_beside_commutes :
    let p : Production := { regrow with dangling := .cascade }
    let host : Graph := [.addVertex .empty, .addVertex .empty, .addEdge ⟨2⟩ ⟨3⟩ .empty,
      .addEdge ⟨1⟩ ⟨3⟩ .empty].foldl (fun g op => (g.perform op).1) .arrow
    ∃ m n a b ab ba, p.apply host m = .ok a ∧ p.apply host n = .ok b ∧
      p.apply a n = .ok ab ∧ p.apply b m = .ok ba ∧ ∃ σ τ, Renames ab ba σ τ ∧ σ ⟨0⟩ = ⟨0⟩ := by
  intro p host
  have accepted : p.Accepted := regrow_accepted .cascade
  have reach : host.Reachable := .step _ (.step _ (.step _ (.step _ arrow_reachable)))
  let m : Match := ⟨⟨0⟩, .ofList [(⟨0⟩, ⟨0⟩), (⟨1⟩, ⟨1⟩)], .ofList [(⟨0⟩, ⟨0⟩)]⟩
  let n : Match := ⟨⟨0⟩, .ofList [(⟨0⟩, ⟨2⟩), (⟨1⟩, ⟨3⟩)], .ofList [(⟨0⟩, ⟨1⟩)]⟩
  have plain : p.Plain := by simp [Plain, p, regrow]
  have apart : m.embedding.hostVertices.Disjoint n.embedding.hostVertices :=
    List.disjoint_left.mpr (by decide)
  have old : (⟨0⟩ : VertexId).word < host.nextVertex := by decide
  obtain ⟨a, b, ab, ba, toA, toB, -, -, toAB, toBA, ⟨σ, τ, renamed, fixed, -⟩, -, -⟩ :=
    apply_commutes (m := m) (n := n) accepted accepted reach rfl rfl plain plain (by decide)
      (by decide) apart (by decide) (by decide)
  exact ⟨m, n, a, b, ab, ba, toA, toB, toAB, toBA, σ, τ, renamed, fixed _ old⟩

end GraphTransformation.Production
