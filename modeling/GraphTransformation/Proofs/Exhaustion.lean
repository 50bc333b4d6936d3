import GraphTransformation.Proofs.Allocation

/-!
Counters that come to an end.

No history gives out a handle twice or the handle of a member: once a counter has come to the
last word, what would need its next handle stops instead. It does so exactly if it does not fail
for another reason and the counters leave no room for what it adds (`perform_overflow_iff`). The
counters of a loaded graph leave room for one more handle of each kind (`handedOut_new`) and may
leave no more: a snapshot that starts one below the last word is accepted, and the second vertex
that is added then finds no handle (`nearlySpent_overflows`).
-/

namespace GraphTransformation

namespace Operation

/-- The number of vertices that the operation adds if it is not stopped. -/
def vertexDemand : Operation → Nat
  | .addVertex _ | .add (.vertex _) => 1
  | .apply p _ => p.newVertices.length
  | _ => 0

/-- The number of edges that the operation adds if it is not stopped. -/
def edgeDemand : Operation → Nat
  | .addEdge _ _ _ | .add (.edge _ _ _) => 1
  | .apply p _ => p.newEdges.length
  | _ => 0

end Operation

namespace Graph

variable {g h k : Graph} {op : Operation}

/-! ### Room for an operation -/

/-- The counters leave room for what the operation adds. -/
def HasRoom (g : Graph) (op : Operation) : Prop :=
  g.nextVertex.toNat + op.vertexDemand < UInt64.size ∧
    g.nextEdge.toNat + op.edgeDemand < UInt64.size

theorem settle_done {r : Except Stop Graph} (done : (g.settle r).2 = none) : ∃ k, r = .ok k := by
  cases r with
  | ok k => exact ⟨k, rfl⟩
  | error s => cases done

theorem settle_map_done {α : Type} {r : Except Stop (α × Graph)}
    (done : (g.settle (r.map (·.2))).2 = none) : ∃ a k, r = .ok (a, k) := by
  cases r with
  | ok pair => exact ⟨pair.1, pair.2, rfl⟩
  | error s => cases done

/-- An operation that goes through gives out a handle for each element that it adds. -/
theorem handsOut_demand (done : (g.perform op).2 = none) :
    (g.handsOut op).countP Element.isVertex = op.vertexDemand ∧
      (g.handsOut op).countP Element.isEdge = op.edgeDemand := by
  cases op with
  | addVertex attributes =>
    obtain ⟨id, k, added⟩ := settle_map_done done
    rw [handsOut, added]
    exact ⟨rfl, rfl⟩
  | addEdge source target attributes =>
    obtain ⟨id, k, added⟩ := settle_map_done done
    rw [handsOut, added]
    exact ⟨rfl, rfl⟩
  | add new =>
    obtain ⟨element, k, added⟩ := settle_map_done done
    rw [handsOut, added]
    cases new with
    | vertex attributes =>
      obtain ⟨_, -, rest⟩ := bind_eq_ok.mp added
      cases rest
      exact ⟨rfl, rfl⟩
    | edge source target attributes =>
      obtain ⟨_, -, rest⟩ := bind_eq_ok.mp added
      cases rest
      exact ⟨rfl, rfl⟩
  | apply p m =>
    obtain ⟨k, applied⟩ := settle_done done
    exact countP_handsOut_apply applied
  | _ => exact ⟨rfl, rfl⟩

/-- What goes through has had room. -/
theorem perform_hasRoom (cons : g.Consistent) (done : (g.perform op).2 = none) :
    g.HasRoom op := by
  have yields := perform_yields cons op
  obtain ⟨vertices, edges⟩ := handsOut_demand done
  rw [HasRoom, ← vertices, ← edges, ← yields.vertexCounter, ← yields.edgeCounter]
  exact ⟨UInt64.toNat_lt _, UInt64.toNat_lt _⟩

theorem settle_eq_overflow {r : Except Stop Graph} (stopped : (g.settle r).2 = some .overflow) :
    r = .error .overflow := by
  cases r with
  | ok k => cases stopped
  | error s => exact congrArg Except.error (Option.some.inj stopped)

theorem map_snd_eq_overflow {α : Type} {r : Except Stop (α × Graph)}
    (stopped : r.map (·.2) = .error .overflow) : r = .error .overflow := by
  cases r with
  | ok pair => cases stopped
  | error s =>
    cases stopped
    rfl

theorem failing_not_overflow (r : Graph × Option Error) : (failing r).2 ≠ some .overflow := by
  simp [failing]

/-- What stops for want of a handle has had no room. -/
theorem perform_overflow (cons : g.Consistent) (stopped : (g.perform op).2 = some .overflow) :
    ¬ g.HasRoom op := by
  rintro ⟨vertexRoom, edgeRoom⟩
  cases op with
  | addVertex attributes =>
    have added := map_snd_eq_overflow (settle_eq_overflow stopped)
    exact (addVertex_eq_error.mp added).2 vertexRoom
  | addEdge source target attributes =>
    have added := map_snd_eq_overflow (settle_eq_overflow stopped)
    exact (addEdge_overflow.mp added).2.2 edgeRoom
  | add new =>
    have added := map_snd_eq_overflow (settle_eq_overflow stopped)
    cases new with
    | vertex attributes =>
      rcases bind_eq_error.mp added with inner | ⟨_, -, done⟩
      · exact (addVertex_eq_error.mp inner).2 vertexRoom
      · cases done
    | edge source target attributes =>
      rcases bind_eq_error.mp added with inner | ⟨_, -, done⟩
      · exact (addEdge_overflow.mp inner).2.2 edgeRoom
      · cases done
  | apply p m =>
    exact Production.apply_overflow cons (settle_eq_overflow stopped) ⟨vertexRoom, edgeRoom⟩
  | edit f element => cases stopped
  | removeEdge id => exact failing_not_overflow _ stopped
  | removeVertex id policy => exact failing_not_overflow _ stopped
  | remove element => exact failing_not_overflow _ stopped
  | removeWithPolicy policy element => exact failing_not_overflow _ stopped
  | subgraph vertices edges => exact failing_not_overflow _ stopped
  | reload => exact failing_not_overflow _ stopped

/-- An operation that does not fail carries a counter past the last word exactly if there is no
room for what it adds. -/
theorem perform_overflow_iff (cons : g.Consistent) : (g.perform op).2 = some .overflow ↔
    ¬ g.HasRoom op ∧ ∀ e, (g.perform op).2 ≠ some (.failed e) := by
  constructor
  · intro stopped
    exact ⟨perform_overflow cons stopped, by simp [stopped]⟩
  · rintro ⟨full, unfailing⟩
    cases outcome : (g.perform op).2 with
    | none => exact absurd (perform_hasRoom cons outcome) full
    | some s =>
      cases s with
      | failed e => exact absurd outcome (unfailing e)
      | overflow => rfl

/-! ### Handles along a history -/

/-- The graph that the operations lead to, performed one after another. -/
def performAll (g : Graph) : List Operation → Graph
  | [] => g
  | op :: rest => (g.perform op).1.performAll rest

/-- The handles that are given out along the way, in their order. -/
def handedOut (g : Graph) : List Operation → List Element
  | [] => []
  | op :: rest => g.handsOut op ++ (g.perform op).1.handedOut rest

/-- What all operations of a history do together. -/
theorem performAll_allocates (cons : g.Consistent) (ops : List Operation) :
    (g.performAll ops).Consistent ∧ Allocates g (g.performAll ops) (g.handedOut ops) := by
  induction ops generalizing g with
  | nil => exact ⟨cons, .refl g⟩
  | cons op rest ih =>
    obtain ⟨last, run⟩ := ih (perform_consistent cons op)
    exact ⟨last, (perform_yields cons op).toAllocates.trans run⟩

theorem performAll_append (g : Graph) (before after : List Operation) :
    g.performAll (before ++ after) = (g.performAll before).performAll after := by
  induction before generalizing g with
  | nil => rfl
  | cons op rest ih => exact ih (g.perform op).1

/-- What is given out was in none of the graphs before. -/
theorem handsOut_absent {earlier between : List Operation} {element : Element}
    (cons : g.Consistent) (out : element ∈ (g.performAll (earlier ++ between)).handsOut op) :
    ¬ (g.performAll earlier).contains element = true := by
  intro member
  obtain ⟨there, -⟩ := performAll_allocates cons earlier
  obtain ⟨here, run⟩ := performAll_allocates there between
  -- a member has been given out, and stays so up to the operation
  have issued := run.issues (there.issued member)
  rw [performAll_append] at out
  exact (perform_yields here op).fresh element out issued

/-! ### Histories from the start -/

/-- A graph that a history starts from: the empty one, or one that is loaded. -/
def Initial (g : Graph) : Prop := g = .empty ∨ ∃ s : Snapshot, s.load = .ok g

theorem Initial.consistent (start : g.Initial) : g.Consistent := by
  rcases start with rfl | ⟨s, loaded⟩
  · exact blank_consistent 0 0
  · exact Snapshot.load_consistent loaded

/-- The first handle of either kind can be given out. -/
theorem Initial.room (start : g.Initial) :
    g.nextVertex.toNat + 1 < UInt64.size ∧ g.nextEdge.toNat + 1 < UInt64.size := by
  rcases start with rfl | ⟨s, loaded⟩
  · constructor <;> decide
  · obtain ⟨vertexChosen, edgeChosen⟩ := Snapshot.load_counters loaded
    exact ⟨(Snapshot.nextHandle_above vertexChosen).1, (Snapshot.nextHandle_above edgeChosen).1⟩

/-- A history from the start can give out one handle of each kind. However it goes on, no handle
is given out twice or stands for a member of any graph before, and the counters go up by what is
given out. An operation that does not fail carries a counter past the last word exactly if what
it adds does not fit there. -/
theorem handedOut_new (start : g.Initial) :
    (g.nextVertex.toNat + 1 < UInt64.size ∧ g.nextEdge.toNat + 1 < UInt64.size) ∧
      ∀ ops, (g.handedOut ops).Nodup ∧
        (g.performAll ops).nextVertex.toNat =
          g.nextVertex.toNat + (g.handedOut ops).countP Element.isVertex ∧
        (g.performAll ops).nextEdge.toNat =
          g.nextEdge.toNat + (g.handedOut ops).countP Element.isEdge ∧
        ∀ before op after, ops = before ++ op :: after →
          (((g.performAll before).perform op).2 = some .overflow ↔
            ¬ (g.performAll before).HasRoom op ∧
              ∀ e, ((g.performAll before).perform op).2 ≠ some (.failed e)) ∧
          ∀ element ∈ (g.performAll before).handsOut op, ∀ earlier, earlier <+: before →
            ¬ (g.performAll earlier).contains element = true := by
  have cons := start.consistent
  refine ⟨start.room, fun ops => ?_⟩
  obtain ⟨-, run⟩ := performAll_allocates cons ops
  refine ⟨run.distinct, run.vertexCounter, run.edgeCounter, ?_⟩
  rintro before op after rfl
  obtain ⟨there, -⟩ := performAll_allocates cons before
  refine ⟨perform_overflow_iff there, ?_⟩
  rintro element out earlier ⟨between, rfl⟩
  exact handsOut_absent cons out

/-- A vertex under the first handle, and the vertex counter one below the last word. -/
def nearlySpent : Snapshot := ⟨[⟨⟨0⟩, .empty⟩], [], some 0xFFFFFFFFFFFFFFFE, some 0⟩

theorem nearlySpent_once : ∃ g, nearlySpent.load = .ok g ∧
    g.handedOut [.addVertex .empty, .addVertex .empty] = [.vertex ⟨0xFFFFFFFFFFFFFFFE⟩] ∧
      (g.performAll [.addVertex .empty]).nextVertex.toNat = UInt64.size - 1 ∧
      ¬ g.contains (.vertex ⟨0xFFFFFFFFFFFFFFFE⟩) = true := by
  obtain ⟨g, loaded⟩ : ∃ g, nearlySpent.load = .ok g := ⟨_, rfl⟩
  have start : g.Initial := .inr ⟨nearlySpent, loaded⟩
  obtain ⟨-, histories⟩ := handedOut_new start
  obtain ⟨-, vertexCounter, -, each⟩ := histories [.addVertex .empty]
  have first : g.handedOut [.addVertex .empty] = [.vertex ⟨0xFFFFFFFFFFFFFFFE⟩] := by
    cases loaded
    rfl
  have counter : g.nextVertex = 0xFFFFFFFFFFFFFFFE := by
    cases loaded
    rfl
  refine ⟨g, loaded, ?_, ?_, ?_⟩
  · cases loaded
    rfl
  · rw [vertexCounter, counter, first]
    rfl
  · refine (each [] _ [] rfl).2 _ ?_ [] (List.prefix_refl _)
    cases loaded
    exact List.mem_singleton.mpr rfl

/-- The first addition takes the last handle, and the second carries the counter past the last
word. -/
theorem nearlySpent_overflows : ∃ g, nearlySpent.load = .ok g ∧
    (g.perform (.addVertex .empty)).2 = none ∧
    ((g.performAll [.addVertex .empty]).perform (.addVertex .empty)).2 = some .overflow :=
  ⟨_, rfl, rfl, rfl⟩

end Graph

end GraphTransformation
