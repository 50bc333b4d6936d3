/-!
Handles of graph elements.

A handle is a 64-bit word with the kind of element it stands for, so a vertex
handle is never taken for an edge handle. Handles are compared by their words.
`Element` is a handle of either kind.
-/

namespace GraphTransformation

/-- The two kinds of graph element. -/
inductive Kind where
  | vertex
  | edge
  deriving DecidableEq, Repr

/-- The handle of an element of the given kind. -/
structure Handle (kind : Kind) where
  word : UInt64
  deriving DecidableEq, Repr

/-- Handle of a vertex. -/
abbrev VertexId := Handle .vertex

/-- Handle of an edge. -/
abbrev EdgeId := Handle .edge

/-- Either kind of graph element, by handle. -/
inductive Element where
  | vertex (id : VertexId)
  | edge (id : EdgeId)
  deriving DecidableEq, Repr

/-- The greatest 64-bit word. It is never a handle: a counter that has come to it gives out
none. -/
def lastWord : UInt64 := 0xFFFFFFFFFFFFFFFF

/-! ### Order -/

namespace Handle

variable {kind : Kind}

instance : Ord (Handle kind) := ⟨fun a b => compare a.word b.word⟩

theorem compare_def (a b : Handle kind) : compare a b = compare a.word b.word := rfl

theorem compare_eq_lt {a b : Handle kind} : compare a b = .lt ↔ a.word < b.word := by
  rw [compare_def]
  exact Std.compare_eq_lt

instance : Std.TransOrd (Handle kind) where
  eq_swap {a b} := by
    rw [compare_def, compare_def]
    exact Std.OrientedCmp.eq_swap
  isLE_trans {a b c} := by
    rw [compare_def a b, compare_def b c, compare_def a c]
    exact Std.TransCmp.isLE_trans

instance : Std.LawfulEqOrd (Handle kind) where
  compare_self {a} := by
    rw [compare_def]
    exact Std.ReflCmp.compare_self
  eq_of_compare {a b} eq := by
    rw [compare_def] at eq
    cases a
    cases b
    exact congrArg _ (Std.LawfulEqCmp.eq_of_compare eq)

/-! ### Text -/

/-- The decimal text of the handle's word. -/
def digits (h : Handle kind) : String := h.word.toNat.repr

/-- The handle as it is shown: `v` or `e` and the word in decimal. -/
def text : {kind : Kind} → Handle kind → String
  | .vertex, h => "v" ++ h.digits
  | .edge, h => "e" ++ h.digits

end Handle

/-- The element as it is shown: its kind and its handle. -/
def Element.text : Element → String
  | .vertex id => "vertex " ++ id.text
  | .edge id => "edge " ++ id.text

end GraphTransformation
