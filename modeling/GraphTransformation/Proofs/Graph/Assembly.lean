import GraphTransformation.Graph.Snapshot
import GraphTransformation.Proofs.Graph.Consistency

/-!
Graphs put together from lists of elements are consistent.

Loading a snapshot and extracting a sub-structure fill a blank graph by raw
insertions, at counters that are set beforehand. What each insertion needs of the
counters comes from the choice of the counters, the recorded ones raised above the
listed handles (`nextHandle_eq_ok`), or from the graph the elements are taken from.
-/

namespace GraphTransformation

/-! ### Snapshots -/

namespace Snapshot

/-- The recorded counter, zero if there is none, or the successor of the highest of the words if
that is larger. -/
def firstFree (recorded : Option UInt64) (words : List UInt64) : Nat :=
  words.foldl (fun n w => max n (w.toNat + 1)) (recorded.getD 0).toNat

theorem foldl_max_succ_le {words : List UInt64} {start n : Nat} :
    words.foldl (fun n w => max n (w.toNat + 1)) start ≤ n ↔
      start ≤ n ∧ ∀ w ∈ words, w.toNat < n := by
  induction words generalizing start with
  | nil => simp
  | cons w rest ih =>
    rw [List.foldl_cons, ih, List.forall_mem_cons, Nat.max_le, Nat.succ_le_iff, and_assoc]

/-- The first free number is the least that is neither below the recorded counter nor taken by
or below one of the words. -/
theorem firstFree_le_iff {recorded : Option UInt64} {words : List UInt64} {n : Nat} :
    firstFree recorded words ≤ n ↔
      (recorded.getD 0).toNat ≤ n ∧ ∀ w ∈ words, w.toNat < n :=
  foldl_max_succ_le

theorem firstFree_above (recorded : Option UInt64) (words : List UInt64) :
    (recorded.getD 0).toNat ≤ firstFree recorded words ∧
      ∀ w ∈ words, w.toNat < firstFree recorded words :=
  firstFree_le_iff.mp (Nat.le_refl _)

theorem lastWord_toNat : lastWord.toNat = UInt64.size - 1 := rfl

theorem toNat_max {a b : UInt64} : (max a b).toNat = max a.toNat b.toNat := by
  have unfolded : max a b = if a ≤ b then b else a := rfl
  rw [unfolded]
  split
  · rename_i le
    exact (Nat.max_eq_right le).symm
  · rename_i gt
    exact (Nat.max_eq_left (Nat.le_of_lt (UInt64.not_le.mp gt))).symm

/-- The counter is raised above the words one after another, unless one of them is the last. -/
theorem successor_eq_ok {words : List UInt64} {start n : UInt64} :
    successor start words = .ok n ↔ lastWord ∉ words ∧
      n.toNat = words.foldl (fun n w => max n (w.toNat + 1)) start.toNat := by
  induction words generalizing start with
  | nil =>
    rw [successor, Except.ok.injEq, List.foldl_nil, UInt64.toNat_inj, eq_comm]
    simp
  | cons w rest ih =>
    rw [successor, List.mem_cons, not_or, List.foldl_cons]
    split
    · rename_i last
      simp [last]
    · rename_i inRange
      have next : (max start (w + 1)).toNat = max start.toNat (w.toNat + 1) := by
        have notLast : w.toNat ≠ lastWord.toNat := fun eq => inRange (UInt64.toNat_inj.mp eq)
        rw [lastWord_toNat] at notLast
        have : w.toNat < UInt64.size := w.toNat_lt
        rw [toNat_max, UInt64.toNat_add]
        have : (1 : UInt64).toNat = 1 := rfl
        have : UInt64.size = 2 ^ 64 := rfl
        omega
      rw [ih, next, and_iff_right (Ne.symm inRange)]

/-- A counter is chosen exactly if the first free number is a word and not the last one. -/
theorem nextHandle_eq_ok {recorded : Option UInt64} {words : List UInt64} {n : UInt64} :
    nextHandle recorded words = .ok n ↔
      n.toNat = firstFree recorded words ∧ firstFree recorded words < lastWord.toNat := by
  rw [nextHandle, bind_eq_ok]
  have last : ∀ w : UInt64, w = lastWord ↔ w.toNat = lastWord.toNat := fun w =>
    UInt64.toNat_inj.symm
  constructor
  · rintro ⟨next, raised, done⟩
    obtain ⟨-, value⟩ := successor_eq_ok.mp raised
    split at done
    · cases done
    · rename_i free
      cases done
      have : n.toNat < UInt64.size := n.toNat_lt
      rw [last, lastWord_toNat] at free
      rw [lastWord_toNat, firstFree, ← value]
      exact ⟨rfl, by omega⟩
  · rintro ⟨value, inRange⟩
    have noLast : lastWord ∉ words := fun mem => by
      have := (firstFree_above recorded words).2 _ mem
      omega
    refine ⟨n, successor_eq_ok.mpr ⟨noLast, value⟩, ?_⟩
    rw [if_neg fun eq => ?_]
    · rfl
    · rw [last] at eq
      omega

theorem nextHandle_isOk {recorded : Option UInt64} {words : List UInt64} :
    (∃ n, nextHandle recorded words = .ok n) ↔ firstFree recorded words < lastWord.toNat := by
  simp only [nextHandle_eq_ok, exists_and_right, and_iff_right_iff_imp]
  intro inRange
  refine ⟨UInt64.ofNat (firstFree recorded words), ?_⟩
  rw [UInt64.toNat_ofNat', Nat.mod_eq_of_lt]
  rw [lastWord_toNat] at inRange
  have : UInt64.size = 2 ^ 64 := rfl
  omega

/-- The chosen counter leaves room for the handle it stands for and lies above all the listed
ones. -/
theorem nextHandle_above {recorded : Option UInt64} {words : List UInt64} {n : UInt64}
    (chosen : nextHandle recorded words = .ok n) :
    n.toNat + 1 < UInt64.size ∧ ∀ w ∈ words, w < n := by
  obtain ⟨value, inRange⟩ := nextHandle_eq_ok.mp chosen
  rw [← value, lastWord_toNat] at inRange
  exact ⟨Nat.add_lt_of_lt_sub inRange, (firstFree_le_iff.mp (Nat.le_of_eq value.symm)).2⟩

/-- A recorded counter above all listed handles is kept, unless it is the last word. -/
theorem nextHandle_recorded {words : List UInt64} {n : UInt64} (below : ∀ w ∈ words, w < n) :
    nextHandle (some n) words =
      if n = lastWord then .error (.invalidSnapshot .exhausted) else .ok n := by
  have noLast : lastWord ∉ words := fun mem => by
    have : lastWord.toNat < n.toNat := below _ mem
    have : n.toNat < UInt64.size := n.toNat_lt
    rw [lastWord_toNat] at *
    omega
  have unraised : firstFree (some n) words = n.toNat :=
    Nat.le_antisymm (firstFree_le_iff.mpr ⟨Nat.le_refl _, below⟩)
      (firstFree_above (some n) words).1
  have kept : successor n words = .ok n := successor_eq_ok.mpr ⟨noLast, unraised.symm⟩
  rw [nextHandle, Option.getD_some, kept]
  rfl

variable {g h : Graph}

theorem loadVertices_consistent {vs : List Vertex} (cons : g.Consistent)
    (below : ∀ v ∈ vs, v.id.word < g.nextVertex) (loaded : loadVertices g vs = .ok h) :
    h.Consistent ∧ h.nextVertex = g.nextVertex ∧ h.nextEdge = g.nextEdge := by
  induction vs generalizing g with
  | nil =>
    cases loaded
    exact ⟨cons, rfl, rfl⟩
  | cons v rest ih =>
    rw [loadVertices] at loaded
    split at loaded
    · cases loaded
    · have ⟨first, others⟩ := List.forall_mem_cons.mp below
      have after := ih (cons.insertVertex first) others loaded
      exact after

theorem loadEdges_consistent {es : List Edge} (cons : g.Consistent)
    (below : ∀ e ∈ es, e.id.word < g.nextEdge) (loaded : loadEdges g es = .ok h) :
    h.Consistent := by
  induction es generalizing g with
  | nil =>
    cases loaded
    exact cons
  | cons e rest ih =>
    rw [loadEdges] at loaded
    split at loaded
    · cases loaded
    · rename_i fresh
      obtain ⟨_, checked, others⟩ := bind_eq_ok.mp loaded
      obtain ⟨source, target⟩ := Graph.checkEndpoints_pair.mp checked
      have ⟨first, rest⟩ := List.forall_mem_cons.mp below
      refine ih (cons.insertEdge first source target ?_) rest others
      intro old stored
      exact absurd (SortedMap.contains_of_get? stored) fresh

/-- Every graph that a snapshot stands for is consistent, and can give out a
handle of either kind. -/
theorem load_consistent {s : Snapshot} (loaded : s.load = .ok g) :
    g.Consistent := by
  obtain ⟨nextVertex, vertexChosen, rest⟩ := bind_eq_ok.mp loaded
  obtain ⟨nextEdge, edgeChosen, rest⟩ := bind_eq_ok.mp rest
  obtain ⟨k, vertices, edges⟩ := bind_eq_ok.mp rest
  obtain ⟨-, vertexAbove⟩ := nextHandle_above vertexChosen
  obtain ⟨-, edgeAbove⟩ := nextHandle_above edgeChosen
  obtain ⟨cons, -, edgeCounter⟩ := loadVertices_consistent (Graph.blank_consistent _ _)
    (fun v mem => vertexAbove _ (List.mem_map_of_mem mem)) vertices
  refine loadEdges_consistent cons (fun e mem => ?_) edges
  rw [edgeCounter]
  exact edgeAbove _ (List.mem_map_of_mem mem)

end Snapshot

/-! ### Sub-structures -/

namespace Graph

variable {g part h : Graph}

theorem takeVertices_consistent {ids : List VertexId} (cons : g.Consistent)
    (partCons : part.Consistent) (counter : part.nextVertex = g.nextVertex)
    (taken : g.takeVertices part ids = .ok h) :
    h.Consistent ∧ h.edgeMap = part.edgeMap ∧ h.nextEdge = part.nextEdge := by
  induction ids generalizing part with
  | nil =>
    cases taken
    exact ⟨partCons, rfl, rfl⟩
  | cons id rest ih =>
    rw [takeVertices] at taken
    split at taken
    · cases taken
    · rename_i v stored
      have below : v.id.word < part.nextVertex := by
        rw [counter, cons.vertex_id stored]
        exact cons.vertex_below (SortedMap.contains_of_get? stored)
      have after := ih (partCons.insertVertex below) counter taken
      exact after

theorem takeEdges_consistent {ids : List EdgeId} (cons : g.Consistent)
    (partCons : part.Consistent) (counter : part.nextEdge = g.nextEdge)
    (copied : ∀ k e, part.edge? k = some e → g.edge? k = some e)
    (taken : g.takeEdges part ids = .ok h) : h.Consistent := by
  induction ids generalizing part with
  | nil =>
    cases taken
    exact partCons
  | cons id rest ih =>
    rw [takeEdges] at taken
    split at taken
    · cases taken
    · rename_i e stored
      obtain ⟨_, checked, others⟩ := bind_eq_ok.mp taken
      obtain ⟨source, target⟩ := checkEndpoints_pair.mp checked
      have key := cons.edge_id stored
      have below : e.id.word < part.nextEdge := by
        rw [counter, key]
        exact cons.edge_below (SortedMap.contains_of_get? stored)
      -- an edge taken twice is the same edge of `g` both times
      have same : ∀ old, part.edge? e.id = some old → old.source = e.source ∧
          old.target = e.target := by
        intro old present
        have := copied _ _ present
        rw [key, stored] at this
        cases this
        exact ⟨rfl, rfl⟩
      refine ih (partCons.insertEdge below source target same)
        counter (fun k old present => ?_) others
      rw [edge?, Graph.insertEdge, SortedMap.get?_insert] at present
      split at present
      · rename_i eq
        cases present
        rw [eq, key]
        exact stored
      · exact copied k old present

theorem Consistent.subgraph (cons : g.Consistent) {vertices : List VertexId}
    {edges : List EdgeId} (taken : g.subgraph vertices edges = .ok h) : h.Consistent := by
  obtain ⟨k, first, second⟩ := bind_eq_ok.mp taken
  obtain ⟨partCons, edgeMap, counter⟩ :=
    takeVertices_consistent cons (blank_consistent g.nextVertex g.nextEdge) rfl first
  refine takeEdges_consistent cons partCons counter (fun k e present => ?_) second
  rw [edge?, edgeMap] at present
  simp [empty] at present

end Graph

end GraphTransformation
