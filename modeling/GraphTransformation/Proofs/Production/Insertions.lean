import GraphTransformation.Proofs.Production.Drafts

/-!
Insertions into a correspondence.

A correspondence is filled in place, one insertion after another, and goes on after one that fails.
An insertion (`Pairing.put`) looks at both sides before it writes one direction and then the other,
so one that fails has written nothing (`put_run`). The invariant of a run is that both pairings are
one-to-one. With it an insertion fails exactly if it has a side in common with a pair of the
correspondence (`OneToOne.insert_eq_error`), whichever of the two directions would tell. The pairs
are then those that were inserted (`attemptAll_pairs`), and nothing of those that failed.
-/

namespace GraphTransformation

/-- A pair to be inserted into a correspondence. -/
inductive Insertion where
  | vertex (l r : VertexId)
  | edge (l r : EdgeId)
  deriving DecidableEq

namespace Insertion

/-- The pairs are of one kind and have a side in common. -/
def Clashes : Insertion → Insertion → Prop
  | .vertex l r, .vertex l' r' => l = l' ∨ r = r'
  | .edge l r, .edge l' r' => l = l' ∨ r = r'
  | _, _ => False

/-- What a failure to insert the pair says. -/
def fault : Insertion → ProductionFault
  | .vertex l r => .vertexPairClash l r
  | .edge l r => .edgePairClash l r

end Insertion

namespace Pairing

variable {κ : Type} [Ord κ] [Std.TransOrd κ] {p : Pairing κ} {l r : κ} {fault : ProductionFault}

/-- Pairs `l` with `r` in place. What is written before a failure stays. -/
def put (fault : ProductionFault) (l r : κ) : EStateM Error (Pairing κ) Unit := do
  let p ← get
  if p.forward.contains l || p.backward.contains r then
    throw (.illFormedProduction fault)
  modify fun p => { p with forward := p.forward.insert l r }
  modify fun p => { p with backward := p.backward.insert r l }

/-- A pairing that is changed in place is left as it was by a failure: that comes before the first
write. -/
theorem put_run : (put fault l r).run p =
    match p.insert? l r with
    | some q => .ok () q
    | none => .error (.illFormedProduction fault) p := by
  rw [insert?]
  by_cases taken : (p.forward.contains l || p.backward.contains r) = true
  · rw [if_pos taken]
    exact congrFun (if_pos taken) p
  · rw [if_neg taken]
    exact congrFun (if_neg taken) p

end Pairing

/-- Two keys cannot be added to a one-to-one pairing exactly if a pair has one of them on its
side. -/
theorem Pairing.OneToOne.insert?_eq_none {κ : Type} [Ord κ] [Std.TransOrd κ] {p : Pairing κ}
    (inverse : p.OneToOne) {l r : κ} :
    p.insert? l r = none ↔ ∃ i j, p.right? i = some j ∧ (i = l ∨ j = r) := by
  have taken : p.insert? l r = none ↔ (∃ j, p.right? l = some j) ∨ ∃ i, p.left? r = some i := by
    rw [Pairing.insert?, right?, left?, SortedMap.contains, SortedMap.contains]
    cases p.forward.get? l with
    | some _ => simp
    | none => simp [Option.isSome_iff_exists]
  rw [taken]
  constructor
  · rintro (⟨j, forth⟩ | ⟨i, back⟩)
    · exact ⟨l, j, forth, .inl rfl⟩
    · exact ⟨i, r, (inverse i r).mpr back, .inr rfl⟩
  · rintro ⟨i, j, forth, rfl | rfl⟩
    · exact .inl ⟨j, forth⟩
    · exact .inr ⟨i, (inverse i j).mp forth⟩

namespace Correspondence

/-! ### Insertions in place -/

/-- Inserts a pair of either kind. -/
def insert (c : Correspondence) : Insertion → Except Error Correspondence
  | .vertex l r => c.insertVertex l r
  | .edge l r => c.insertEdge l r

/-- What the insertion, made in place, leaves of the correspondence, and its failure if it
fails. -/
def attempt (c : Correspondence) : Insertion → Correspondence × Option Error
  | .vertex l r =>
    match (Pairing.put (.vertexPairClash l r) l r).run c.vertices with
    | .ok _ vertices => ({ c with vertices }, none)
    | .error cause vertices => ({ c with vertices }, some cause)
  | .edge l r =>
    match (Pairing.put (.edgePairClash l r) l r).run c.edges with
    | .ok _ edges => ({ c with edges }, none)
    | .error cause edges => ({ c with edges }, some cause)

/-- What is left after insertions one after another, whether they succeed or fail. -/
def attemptAll (c : Correspondence) : List Insertion → Correspondence
  | [] => c
  | call :: rest => (c.attempt call).1.attemptAll rest

/-- The insertions that succeed when they are attempted one after another. -/
def accepted (c : Correspondence) : List Insertion → List Insertion
  | [] => []
  | call :: rest =>
    match c.attempt call with
    | (d, none) => call :: d.accepted rest
    | (d, some _) => d.accepted rest

/-- The right side of the pair is the partner of its left side. -/
def Pairs (c : Correspondence) : Insertion → Prop
  | .vertex l r => c.vertices.right? l = some r
  | .edge l r => c.edges.right? l = some r

/-- In either pairing the two directions are inverse to each other. -/
structure OneToOne (c : Correspondence) : Prop where
  vertices : c.vertices.OneToOne
  edges : c.edges.OneToOne

variable {c d : Correspondence} {call pair : Insertion} {cause : Error}

theorem empty_oneToOne : (empty : Correspondence).OneToOne :=
  ⟨Pairing.empty_oneToOne, Pairing.empty_oneToOne⟩

theorem not_empty_pairs : ¬ empty.Pairs pair := by
  cases pair with
  | vertex l r => nofun
  | edge l r => nofun

/-! ### One insertion -/

theorem OneToOne.insert (inverse : c.OneToOne) (inserted : c.insert call = .ok d) :
    d.OneToOne := by
  cases call with
  | vertex l r =>
    obtain ⟨vertices, paired, rfl⟩ := insertVertex_eq_ok.mp inserted
    exact ⟨inverse.vertices.insert? paired, inverse.edges⟩
  | edge l r =>
    obtain ⟨edges, paired, rfl⟩ := insertEdge_eq_ok.mp inserted
    exact ⟨inverse.vertices, inverse.edges.insert? paired⟩

/-- What succeeds adds its pair, and only that. -/
theorem insert_pairs (inserted : c.insert call = .ok d) :
    d.Pairs pair ↔ c.Pairs pair ∨ pair = call := by
  cases call with
  | vertex l r =>
    obtain ⟨vertices, paired, rfl⟩ := insertVertex_eq_ok.mp inserted
    cases pair with
    | vertex i j => simp [Pairs, Pairing.right?_insert? paired]
    | edge i j => simp [Pairs]
  | edge l r =>
    obtain ⟨edges, paired, rfl⟩ := insertEdge_eq_ok.mp inserted
    cases pair with
    | vertex i j => simp [Pairs]
    | edge i j => simp [Pairs, Pairing.right?_insert? paired]

/-- An insertion fails exactly if the correspondence has a pair that shares a side with it. -/
theorem OneToOne.insert_eq_error (inverse : c.OneToOne) : c.insert call = .error cause ↔
    (∃ pair, c.Pairs pair ∧ pair.Clashes call) ∧ cause = .illFormedProduction call.fault := by
  cases call with
  | vertex l r =>
    rw [Correspondence.insert, insertVertex_eq_error, inverse.vertices.insert?_eq_none]
    refine and_congr_left fun _ => ?_
    constructor
    · rintro ⟨i, j, forth, shared⟩
      exact ⟨.vertex i j, forth, shared⟩
    · rintro ⟨i | i, forth, shared⟩
      · exact ⟨_, _, forth, shared⟩
      · cases shared
  | edge l r =>
    rw [Correspondence.insert, insertEdge_eq_error, inverse.edges.insert?_eq_none]
    refine and_congr_left fun _ => ?_
    constructor
    · rintro ⟨i, j, forth, shared⟩
      exact ⟨.edge i j, forth, shared⟩
    · rintro ⟨i | i, forth, shared⟩
      · cases shared
      · exact ⟨_, _, forth, shared⟩

/-- Made in place, an insertion leaves what it gives if it succeeds, and all as it was if it
fails. -/
theorem attempt_eq : c.attempt call =
    match c.insert call with
    | .ok d => (d, none)
    | .error cause => (c, some cause) := by
  cases call with
  | vertex l r =>
    rw [attempt, Pairing.put_run, insert, insertVertex]
    cases c.vertices.insert? l r <;> rfl
  | edge l r =>
    rw [attempt, Pairing.put_run, insert, insertEdge]
    cases c.edges.insert? l r <;> rfl

theorem attempt_eq_some : (c.attempt call).2 = some cause ↔ c.insert call = .error cause := by
  rw [attempt_eq]
  cases c.insert call with
  | ok d => simp
  | error _ => simp

/-- An insertion that fails leaves all as it was. -/
theorem attempt_failed (failed : (c.attempt call).2 = some cause) : (c.attempt call).1 = c := by
  rw [attempt_eq, attempt_eq_some.mp failed]

/-! ### Runs of insertions -/

theorem OneToOne.attemptAll (inverse : c.OneToOne) (calls : List Insertion) :
    (c.attemptAll calls).OneToOne := by
  induction calls generalizing c with
  | nil => exact inverse
  | cons call rest ih =>
    refine ih ?_
    rw [attempt_eq]
    cases outcome : c.insert call with
    | ok d => exact inverse.insert outcome
    | error _ => exact inverse

/-- A run adds the pairs that it accepts, and nothing of the others. -/
theorem attemptAll_pairs (calls : List Insertion) :
    (c.attemptAll calls).Pairs pair ↔ c.Pairs pair ∨ pair ∈ c.accepted calls := by
  induction calls generalizing c with
  | nil => simp [attemptAll, accepted]
  | cons call rest ih =>
    rw [attemptAll, accepted, ih, attempt_eq]
    cases outcome : c.insert call with
    | ok d => simp only [insert_pairs outcome, List.mem_cons, or_assoc]
    | error _ => rfl

theorem attemptAll_empty_pairs (calls : List Insertion) :
    (empty.attemptAll calls).Pairs pair ↔ pair ∈ empty.accepted calls := by
  rw [attemptAll_pairs, or_iff_right not_empty_pairs]

/-- After any insertions into the empty correspondence, whether they succeeded or failed, both
pairings are one-to-one and the pairs are those whose insertion succeeded. One more insertion
fails exactly if one of these shares a side with it, and then nothing has changed. So a
correspondence is made of lists of pairs exactly if none repeats a key on one side, and it is the
same for all orders of the lists. -/
theorem insertions_exact (calls : List Insertion) :
    let c := empty.attemptAll calls
    (∀ l r, c.vertices.right? l = some r ↔ c.vertices.left? r = some l) ∧
      (∀ l r, c.edges.right? l = some r ↔ c.edges.left? r = some l) ∧
      (∀ pair, c.Pairs pair ↔ pair ∈ empty.accepted calls) ∧
      (∀ call cause, (c.attempt call).2 = some cause ↔
        (∃ pair ∈ empty.accepted calls, pair.Clashes call) ∧
          cause = .illFormedProduction call.fault) ∧
      (∀ call, (c.attempt call).2 ≠ none → (c.attempt call).1 = c) ∧
      ∀ vertices edges,
        ((∃ d, ofPairs vertices edges = .ok d) ↔
          ((vertices.map (·.1)).Nodup ∧ (vertices.map (·.2)).Nodup) ∧
            (edges.map (·.1)).Nodup ∧ (edges.map (·.2)).Nodup) ∧
        ∀ d, ofPairs vertices edges = .ok d →
          (∀ l r, d.vertices.right? l = some r ↔ (l, r) ∈ vertices) ∧
          (∀ l r, d.edges.right? l = some r ↔ (l, r) ∈ edges) ∧
          ∀ vertices' edges', vertices'.Perm vertices → edges'.Perm edges →
            ofPairs vertices' edges' = .ok d := by
  intro c
  have inverse : c.OneToOne := empty_oneToOne.attemptAll calls
  have pairs : ∀ pair, c.Pairs pair ↔ pair ∈ empty.accepted calls :=
    fun _ => attemptAll_empty_pairs calls
  refine ⟨inverse.vertices, inverse.edges, pairs, fun call cause => ?_, fun call failed => ?_,
    fun vertices edges => ⟨ofPairs_isOk, fun d made => ?_⟩⟩
  · rw [attempt_eq_some, inverse.insert_eq_error]
    simp only [pairs]
  · obtain ⟨cause, failed⟩ := Option.ne_none_iff_exists'.mp failed
    exact attempt_failed failed
  · obtain ⟨vertexPairs, edgePairs⟩ := ofPairs_right? made
    exact ⟨fun _ _ => vertexPairs, fun _ _ => edgePairs, fun _ _ vertexPerm edgePerm =>
      ofPairs_perm vertexPerm edgePerm made⟩

/-- Of five insertions the second has a left side that is taken and the fourth a right side; the
left side of the second is free for edges. -/
theorem insertions_clash :
    let calls : List Insertion := [.vertex ⟨0⟩ ⟨1⟩, .vertex ⟨0⟩ ⟨2⟩, .edge ⟨0⟩ ⟨1⟩, .edge ⟨3⟩ ⟨1⟩,
      .vertex ⟨1⟩ ⟨2⟩]
    let c := empty.attemptAll calls
    empty.accepted calls = [.vertex ⟨0⟩ ⟨1⟩, .edge ⟨0⟩ ⟨1⟩, .vertex ⟨1⟩ ⟨2⟩] ∧
      c.Pairs (.vertex ⟨1⟩ ⟨2⟩) ∧ ¬ c.Pairs (.edge ⟨3⟩ ⟨1⟩) ∧
      (c.attempt (.vertex ⟨4⟩ ⟨2⟩)) =
        (c, some (.illFormedProduction (.vertexPairClash ⟨4⟩ ⟨2⟩))) ∧
      (∃ d, ofPairs [(⟨0⟩, ⟨1⟩), (⟨1⟩, ⟨2⟩)] [(⟨0⟩, ⟨1⟩)] = .ok d ∧
        ofPairs [(⟨1⟩, ⟨2⟩), (⟨0⟩, ⟨1⟩)] [(⟨0⟩, ⟨1⟩)] = .ok d) ∧
      ¬ ∃ d, ofPairs [(⟨0⟩, ⟨1⟩), (⟨1⟩, ⟨1⟩)] [] = .ok d := by
  intro calls c
  have accepted : empty.accepted calls = [.vertex ⟨0⟩ ⟨1⟩, .edge ⟨0⟩ ⟨1⟩, .vertex ⟨1⟩ ⟨2⟩] := rfl
  obtain ⟨-, -, pairs, fails, unchanged, made⟩ := insertions_exact calls
  rw [accepted] at pairs fails
  have failed : (c.attempt (.vertex ⟨4⟩ ⟨2⟩)).2 =
      some (.illFormedProduction (.vertexPairClash ⟨4⟩ ⟨2⟩)) :=
    (fails _ _).mpr ⟨⟨.vertex ⟨1⟩ ⟨2⟩, by simp, .inr rfl⟩, rfl⟩
  have same : (c.attempt (.vertex ⟨4⟩ ⟨2⟩)).1 = c := unchanged _ (by rw [failed]; simp)
  obtain ⟨d, filled⟩ : ∃ d, ofPairs [(⟨0⟩, ⟨1⟩), (⟨1⟩, ⟨2⟩)] [(⟨0⟩, ⟨1⟩)] = .ok d := ⟨_, rfl⟩
  obtain ⟨-, -, reordered⟩ := (made _ _).2 d filled
  refine ⟨accepted, (pairs _).mpr (by simp), mt (pairs _).mp (by simp), Prod.ext same failed,
    ⟨d, filled, reordered _ _ (.swap _ _ _) .rfl⟩, ?_⟩
  rw [(made _ _).1]
  simp

end Correspondence

end GraphTransformation
