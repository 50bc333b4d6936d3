import GraphTransformation.Proofs.Production.Stages
import Mathlib.Logic.Equiv.Defs

/-!
Graphs that differ in the names of their elements.

`Handle.blockSwap` exchanges two blocks of handles that follow a counter: it takes the
handles that two users get in one order to those they get in the other.
`Graph.Renames` says that a renaming of its handles makes one graph the other. It is
enough to look at the elements, since the indexes are determined by them
(`Consistent.renames`).
-/

namespace GraphTransformation

/-! ### Exchanging blocks of handles -/

namespace Handle

variable {kind : Kind} {counter : UInt64} {n k i : Nat} {h : Handle kind}

/-- The handles that follow a counter which has moved on by `n`. -/
theorem issued_moved {later : UInt64} (moved : later.toNat = counter.toNat + n) (i : Nat) :
    (issued later i : Handle kind) = issued counter (n + i) := by
  have bound := later.toNat_lt_size
  have same : later = counter + UInt64.ofNat n := by
    refine UInt64.toNat_inj.mp ?_
    rw [toNat_word_add (by omega), moved]
  rw [issued, issued, same, UInt64.ofNat_add, UInt64.add_assoc]

/-- Puts the first `n` handles after the counter behind the `k` that follow them. -/
def swapBlocks (counter : UInt64) (n k : Nat) (h : Handle kind) : Handle kind :=
  let i := h.word.toNat - counter.toNat
  if h.word < counter then h
  else if i < n then issued counter (k + i)
  else if i < n + k then issued counter (i - n)
  else h

/-- A handle was given out, is in one of the two blocks that follow, or is behind them. -/
theorem block_cases (counter : UInt64) (n k : Nat) (h : Handle kind) :
    h.word < counter ∨ (∃ i < n, h = issued counter i) ∨ (∃ i < k, h = issued counter (n + i)) ∨
      counter.toNat + (n + k) ≤ h.word.toNat := by
  have bound := h.word.toNat_lt
  have atPlace : ∀ i, counter.toNat + i = h.word.toNat → h = issued counter i := by
    intro i eq
    refine congrArg Handle.mk (UInt64.toNat_inj.mp ?_)
    rw [toNat_word_add (by rw [eq]; exact bound), eq]
  rw [UInt64.lt_iff_toNat_lt]
  by_cases old : h.word.toNat < counter.toNat
  · exact .inl old
  · by_cases first : h.word.toNat - counter.toNat < n
    · exact .inr (.inl ⟨_, first, atPlace _ (by omega)⟩)
    · by_cases second : h.word.toNat - counter.toNat < n + k
      · exact .inr (.inr (.inl ⟨h.word.toNat - counter.toNat - n, by omega, atPlace _ (by omega)⟩))
      · exact .inr (.inr (.inr (by omega)))

theorem swapBlocks_old (old : h.word < counter) : swapBlocks counter n k h = h := if_pos old

theorem swapBlocks_behind (behind : counter.toNat + (n + k) ≤ h.word.toNat) :
    swapBlocks counter n k h = h := by
  simp only [swapBlocks]
  rw [if_neg (by rw [UInt64.lt_iff_toNat_lt]; omega), if_neg (by omega), if_neg (by omega)]

/-- Where the handle `i` places after the counter goes. -/
theorem swapBlocks_issued (room : counter.toNat + i < UInt64.size) :
    swapBlocks counter n k (issued counter i : Handle kind) =
      if i < n then issued counter (k + i)
      else if i < n + k then issued counter (i - n)
      else issued counter i := by
  have word : (issued counter i : Handle kind).word.toNat = counter.toNat + i :=
    toNat_word_add room
  simp only [swapBlocks, word, Nat.add_sub_cancel_left]
  rw [if_neg (by rw [UInt64.lt_iff_toNat_lt, word]; omega)]

theorem swapBlocks_first (room : counter.toNat + (n + k) < UInt64.size) (lt : i < n) :
    swapBlocks counter n k (issued counter i : Handle kind) = issued counter (k + i) := by
  rw [swapBlocks_issued (by omega), if_pos lt]

theorem swapBlocks_second (room : counter.toNat + (n + k) < UInt64.size) (lt : i < k) :
    swapBlocks counter n k (issued counter (n + i) : Handle kind) = issued counter i := by
  rw [swapBlocks_issued (by omega), if_neg (by omega), if_pos (by omega), Nat.add_sub_cancel_left]

theorem swapBlocks_swapBlocks (room : counter.toNat + (n + k) < UInt64.size) (h : Handle kind) :
    swapBlocks counter k n (swapBlocks counter n k h) = h := by
  have back : counter.toNat + (k + n) < UInt64.size := by omega
  rcases block_cases counter n k h with old | ⟨i, lt, rfl⟩ | ⟨i, lt, rfl⟩ | behind
  · rw [swapBlocks_old old, swapBlocks_old old]
  · rw [swapBlocks_first room lt, swapBlocks_second back lt]
  · rw [swapBlocks_second room lt, swapBlocks_first back lt]
  · rw [swapBlocks_behind behind, swapBlocks_behind (by omega)]

/-- The exchange as a renaming, if the counter can give out both blocks. -/
def blockSwap (room : counter.toNat + (n + k) < UInt64.size) : Handle kind ≃ Handle kind where
  toFun := swapBlocks counter n k
  invFun := swapBlocks counter k n
  left_inv := swapBlocks_swapBlocks room
  right_inv := swapBlocks_swapBlocks (by omega)

end Handle

/-! ### Renamed graphs -/

/-- The vertex under another handle. -/
def Vertex.rename (σ : VertexId → VertexId) (x : Vertex) : Vertex := { x with id := σ x.id }

/-- The edge under another handle, between the vertices under their other handles. -/
def Edge.rename (σ : VertexId → VertexId) (τ : EdgeId → EdgeId) (x : Edge) : Edge :=
  ⟨τ x.id, σ x.source, σ x.target, x.attributes⟩

theorem Vertex.rename_of_fixed {σ : VertexId → VertexId} {x : Vertex} (fixed : σ x.id = x.id) :
    x.rename σ = x := by
  rw [Vertex.rename, fixed]

theorem Edge.rename_of_fixed {σ : VertexId → VertexId} {τ : EdgeId → EdgeId} {x : Edge}
    (fixed : τ x.id = x.id) (source : σ x.source = x.source) (target : σ x.target = x.target) :
    x.rename σ τ = x := by
  rw [Edge.rename, fixed, source, target]

namespace Graph

/-- The one graph is the other with its vertices renamed by `σ` and its edges by `τ`. -/
structure Renames (g h : Graph) (σ : VertexId ≃ VertexId) (τ : EdgeId ≃ EdgeId) : Prop where
  vertex : ∀ v, h.vertex? (σ v) = (g.vertex? v).map (Vertex.rename σ)
  edge : ∀ k, h.edge? (τ k) = (g.edge? k).map (Edge.rename σ τ)
  outgoing : ∀ v k, τ k ∈ h.outgoing (σ v) ↔ k ∈ g.outgoing v
  incoming : ∀ v k, τ k ∈ h.incoming (σ v) ↔ k ∈ g.incoming v
  nextVertex : h.nextVertex = g.nextVertex
  nextEdge : h.nextEdge = g.nextEdge

/-- The indexes follow the elements. -/
theorem Consistent.renames {g h : Graph} {σ : VertexId ≃ VertexId} {τ : EdgeId ≃ EdgeId}
    (before : g.Consistent) (after : h.Consistent)
    (vertex : ∀ v, h.vertex? (σ v) = (g.vertex? v).map (Vertex.rename σ))
    (edge : ∀ k, h.edge? (τ k) = (g.edge? k).map (Edge.rename σ τ))
    (nextVertex : h.nextVertex = g.nextVertex) (nextEdge : h.nextEdge = g.nextEdge) :
    Renames g h σ τ where
  vertex := vertex
  edge := edge
  outgoing v k := by
    rw [after.mem_outgoing, before.mem_outgoing, edge]
    simp [Edge.rename]
  incoming v k := by
    rw [after.mem_incoming, before.mem_incoming, edge]
    simp [Edge.rename]
  nextVertex := nextVertex
  nextEdge := nextEdge

end Graph

end GraphTransformation
