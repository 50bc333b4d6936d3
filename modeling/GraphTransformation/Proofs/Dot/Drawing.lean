import GraphTransformation.Proofs.Dot.Reading
import GraphTransformation.Proofs.History

/-!
Drawings of graphs.

What is drawn of an element is its lines, names and values with separators in
between, so a label is read to its end exactly if this holds of each name and each
text (`scan_describe`): numbers have no quotes or backslashes (`plain_float`).
Hence the drawing of a reachable graph describes the graph, all its vertices and
edges in handle order with their numbers and labels, exactly if every double quote
in an attribute stands after an even number of backslashes (`render_describes`).
There is a graph whose drawing describes nothing (`slashed_unreadable`).
-/

namespace GraphTransformation.Dot

variable {xs ys : List Char}

/-! ### Labels -/

/-- The text holds no quote, no backslash and no line end. -/
def Plain (text : String) : Prop := ∀ c ∈ text.toList, c ≠ '"' ∧ c ≠ '\\' ∧ c ≠ '\n'

theorem Plain.append {s t : String} (first : Plain s) (second : Plain t) : Plain (s ++ t) := by
  intro c mem
  rw [String.toList_append, List.mem_append] at mem
  exact mem.elim (first c) (second c)

theorem plain_of_digits {s : String} (digits : ∀ c ∈ s.toList, c.isDigit = true) : Plain s := by
  intro c mem
  have digit := digits c mem
  refine ⟨?_, ?_, ?_⟩
  · rintro rfl
    cases digit
  · rintro rfl
    cases digit
  · rintro rfl
    cases digit

theorem repr_isDigit {n : Nat} : ∀ c ∈ n.repr.toList, c.isDigit = true := by
  intro c mem
  rw [Nat.toList_repr] at mem
  exact Nat.isDigit_of_mem_toDigits (by decide) (by decide) mem

theorem plain_positional (d : Decimal.Digits) : Plain (d.positional "") := by
  have part : ∀ text : List Char, (∀ c ∈ text, c ∈ d.coefficient.repr.toList) →
      Plain (String.ofList text) := by
    intro text taken
    refine plain_of_digits fun c mem => ?_
    rw [String.toList_ofList] at mem
    exact repr_isDigit c (taken c mem)
  have zeros : ∀ n, Plain (Decimal.zeros n) := by
    intro n
    refine plain_of_digits fun c mem => ?_
    rw [Decimal.zeros, String.toList_ofList] at mem
    rw [List.eq_of_mem_replicate mem]
    rfl
  have digits : Plain d.coefficient.repr := plain_of_digits repr_isDigit
  unfold Decimal.Digits.positional
  simp only [List.splitAt_eq]
  split
  · exact (digits.append (zeros _)).append (by simp [Plain])
  · split
    · exact ((part _ fun c => List.mem_of_mem_take).append (by simp [Plain])).append
        (part _ fun c => List.mem_of_mem_drop)
    · refine Plain.append (.append ?_ (zeros _)) digits
      simp [Plain]

/-- Numbers are written without quotes and backslashes. -/
theorem plain_float (x : Float) : Plain (Decimal.Layout.plain.text x) := by
  have sign : ∀ negative : Prop, ∀ [Decidable negative], Plain (if negative then "-" else "") := by
    intro negative _
    split <;> simp [Plain]
  unfold Decimal.Layout.text
  split
  · simp [Plain]
  · split
    · exact (sign _).append (by simp [Plain])
    · exact (sign _).append (plain_positional _)

theorem plain_int (n : Int) : Plain n.repr := by
  rw [Int.repr_eq_if]
  split
  · exact plain_of_digits repr_isDigit
  · refine Plain.append ?_ (plain_of_digits repr_isDigit)
    simp [Plain]

/-- The value has no text with a quote that is protected twice. -/
def GuardedValue : Value → Prop
  | .string s => Guarded s
  | .bool _ | .int _ | .float _ => True

/-- Every quote in a name or a text stands after an even number of backslashes. -/
def GuardedAttributes (attributes : Attributes) : Prop :=
  ∀ p ∈ attributes.toList, Guarded p.1 ∧ GuardedValue p.2

theorem Plain.whole {s : String} (plain : Plain s) : Whole s.toList :=
  scan_plain fun c mem => ⟨(plain c mem).1, (plain c mem).2.1⟩

theorem Plain.escaped {s : String} (plain : Plain s) : s.toList.flatMap escape = s.toList := by
  have each : ∀ c ∈ s.toList, escape c = [c] := by
    intro c mem
    obtain ⟨quote, -, lineEnd⟩ := plain c mem
    rw [escape]
    · exact quote
    · exact lineEnd
  rw [List.flatMap_congr each, List.flatMap_singleton']

theorem scan_text (s : String) :
    scan false ("'" ++ s ++ "'").toList = (scan false s.toList).map fun _ => false := by
  have quotes : ("'" ++ s ++ "'").toList = [] ++ '\'' :: (s.toList ++ '\'' :: []) := by simp
  rw [quotes, scan_separated (by decide) (by decide), scan, Option.bind_some,
    scan_separated (by decide) (by decide)]
  cases scan false s.toList <;> rfl

theorem whole_value {v : Value} : Whole v.text.toList ↔ GuardedValue v := by
  cases v with
  | bool b => cases b <;> exact iff_of_true rfl trivial
  | int n => exact iff_of_true (plain_int _).whole trivial
  | float x => exact iff_of_true (plain_float x).whole trivial
  | string s =>
    rw [Whole, Value.text, scan_text, GuardedValue, guarded_iff]
    cases scan false s.toList <;> simp

theorem settled_value (v : Value) : Settled v.text.toList := by
  cases v with
  | bool b => cases b <;> exact Whole.settled rfl
  | int n => exact (plain_int _).whole.settled
  | float x => exact (plain_float x).whole.settled
  | string s =>
    rw [Settled, Value.text, scan_text]
    cases scan false s.toList <;> simp

/-- A line is read to its end if its name and its value are. -/
theorem scan_line (name : String) (v : Value) : scan false (name ++ ": " ++ v.text).toList =
    (scan false name.toList).bind fun _ => scan false v.text.toList := by
  have parts : (name ++ ": " ++ v.text).toList =
      name.toList ++ ':' :: ([] ++ ' ' :: v.text.toList) := by simp
  rw [parts, scan_separated (by decide) (by decide), scan_separated (by decide) (by decide)]
  rfl

theorem whole_line {name : String} {v : Value} :
    Whole (name ++ ": " ++ v.text).toList ↔ Guarded name ∧ GuardedValue v := by
  rw [Whole, scan_line, ← whole_value, guarded_iff, Whole]
  cases scan false name.toList <;> simp

theorem settled_line (name : String) (v : Value) : Settled (name ++ ": " ++ v.text).toList := by
  have value := settled_value v
  rw [Settled, scan_line]
  cases scan false name.toList with
  | none => simp
  | some _ => exact value

/-- Lines are read to their end one by one. -/
theorem scan_lines {lines : List (List Char)} (settled : ∀ l ∈ lines, Settled l) :
    (Whole (['\n'].intercalate lines) ↔ ∀ l ∈ lines, Whole l) ∧
      Settled (['\n'].intercalate lines) := by
  induction lines with
  | nil => simp [Whole, Settled, scan]
  | cons first rest ih =>
    obtain ⟨here, settled⟩ := List.forall_mem_cons.mp settled
    cases rest with
    | nil => simp [here]
    | cons second others =>
      obtain ⟨wholes, ends⟩ := ih settled
      rw [List.forall_mem_cons, ← wholes, List.intercalate_cons_cons, List.append_assoc,
        List.singleton_append, Whole, Settled, scan_separated (by decide) (by decide)]
      cases scanned : scan false first with
      | none => simp [Whole, scanned]
      | some after =>
        cases after with
        | false => exact ⟨by simp [Whole, scanned], ends⟩
        | true => exact absurd scanned here

/-- The attributes are read to their end exactly if each of their quotes stands after an even
number of backslashes. -/
theorem scan_describe (attributes : Attributes) :
    (Whole attributes.describe.toList ↔ GuardedAttributes attributes) ∧
      Settled attributes.describe.toList := by
  have lines : attributes.describe.toList = ['\n'].intercalate
      (attributes.toList.map fun p => (p.1 ++ ": " ++ p.2.text).toList) := by
    rw [Attributes.describe, String.toList_intercalate, List.map_map]
    rfl
  have settled : ∀ l ∈ attributes.toList.map fun p => (p.1 ++ ": " ++ p.2.text).toList,
      Settled l := by
    intro l mem
    obtain ⟨p, -, rfl⟩ := List.mem_map.mp mem
    exact settled_line _ _
  obtain ⟨wholes, ends⟩ := scan_lines settled
  rw [lines, wholes, List.forall_mem_map]
  simp only [whole_line]
  exact ⟨.rfl, ends⟩

/-! ### Drawings -/

variable {g : Graph}

/-- What is to be drawn of a graph: its vertices and then its edges in handle order, each under
its number. The label of a vertex is its handle and its attributes, that of an edge its
attributes. -/
def lines (g : Graph) : List Statement :=
  (g.vertexMap.toList.map fun (id, v) =>
      .node id.digits.toList (id.text.toList ++ '\n' :: v.attributes.describe.toList)) ++
    g.edgeMap.toList.map fun (_, e) =>
      .edge e.source.digits.toList e.target.digits.toList e.attributes.describe.toList

/-- The statements that describe the graph. -/
def statements (g : Graph) : List Statement := (lines g).map Statement.escaped

/-- Every quote in an attribute of the graph stands after an even number of backslashes. -/
def GuardedGraph (g : Graph) : Prop :=
  ∀ element attributes, g.attributes? element = some attributes → GuardedAttributes attributes

theorem numeral_digits {kind : Kind} (id : Handle kind) : Statement.Numeral id.digits.toList := by
  refine ⟨?_, fun c mem => ?_⟩
  · rw [Handle.digits, Nat.toList_repr]
    exact Nat.toDigits_ne_nil
  · have digit := repr_isDigit c mem
    simp [Char.isAlphanum, digit]

theorem lines_numbered : ∀ s ∈ lines g, s.Numbered := by
  simp only [lines, List.forall_mem_append, List.forall_mem_map]
  exact ⟨fun _ _ => numeral_digits _, fun _ _ => ⟨numeral_digits _, numeral_digits _⟩⟩

theorem plain_text (id : VertexId) : Plain id.text :=
  Plain.append (by simp [Plain]) (plain_of_digits repr_isDigit)

theorem scan_node (id : VertexId) (attributes : Attributes) :
    scan false (id.text.toList ++ '\n' :: attributes.describe.toList) =
      scan false attributes.describe.toList := by
  have own : scan false id.text.toList = some false := (plain_text id).whole
  rw [scan_separated (by decide) (by decide), own, Option.bind_some]

theorem lines_settled : ∀ s ∈ lines g, Settled s.label := by
  simp only [lines, List.forall_mem_append, List.forall_mem_map, Statement.label]
  refine ⟨fun p _ => ?_, fun p _ => (scan_describe _).2⟩
  rw [Settled, scan_node]
  exact (scan_describe _).2

theorem guardedGraph_iff : GuardedGraph g ↔
    (∀ p ∈ g.vertexMap.toList, GuardedAttributes p.2.attributes) ∧
      ∀ p ∈ g.edgeMap.toList, GuardedAttributes p.2.attributes := by
  constructor
  · intro guarded
    refine ⟨fun p mem => guarded (.vertex p.1) _ ?_, fun p mem => guarded (.edge p.1) _ ?_⟩
    · exact Option.map_eq_some_iff.mpr ⟨p.2, SortedMap.get?_of_mem_toList mem, rfl⟩
    · exact Option.map_eq_some_iff.mpr ⟨p.2, SortedMap.get?_of_mem_toList mem, rfl⟩
  · rintro ⟨vertices, edges⟩ (id | id) attributes held
    · obtain ⟨v, stored, rfl⟩ := Option.map_eq_some_iff.mp held
      exact vertices (id, v) (SortedMap.mem_toList_of_get? stored)
    · obtain ⟨e, stored, rfl⟩ := Option.map_eq_some_iff.mp held
      exact edges (id, e) (SortedMap.mem_toList_of_get? stored)

/-- The labels are read to their end exactly if all quotes stand after an even number of
backslashes. -/
theorem lines_whole : (∀ s ∈ lines g, Whole s.label) ↔ GuardedGraph g := by
  have attributes : ∀ a : Attributes, scan false a.describe.toList = some false ↔
      GuardedAttributes a := fun a => (scan_describe a).1
  simp only [lines, List.forall_mem_append, List.forall_mem_map, Statement.label, Whole, scan_node,
    attributes, guardedGraph_iff]

theorem nodeStatement_toList (v : Vertex) : (nodeStatement v).toList =
    (Statement.node v.id.digits.toList
      (v.id.text.toList ++ '\n' :: v.attributes.describe.toList)).escaped.write := by
  simp only [nodeStatement, label, Statement.escaped, Statement.write, Statement.opening,
    Statement.label, String.toList_append, String.toList_ofList, List.append_assoc,
    List.flatMap_append, List.flatMap_cons, (plain_text v.id).escaped]
  rfl

theorem edgeStatement_toList (e : Edge) : (edgeStatement e).toList =
    (Statement.edge e.source.digits.toList e.target.digits.toList
      e.attributes.describe.toList).escaped.write := by
  simp only [edgeStatement, label, Statement.escaped, Statement.write, Statement.opening,
    Statement.label, String.toList_append, String.toList_ofList, List.append_assoc]
  rfl

theorem render_toList (cons : g.Consistent) : (render g).toList =
    "digraph G \x7b\n".toList ++ ((lines g).flatMap (·.escaped.write) ++ ['\x7d']) := by
  have vertices : g.vertices.flatMap (fun v => (nodeStatement v).toList) =
      g.vertexMap.toList.flatMap fun p => (Statement.node p.1.digits.toList
        (p.1.text.toList ++ '\n' :: p.2.attributes.describe.toList)).escaped.write := by
    rw [Graph.vertices, SortedMap.values, List.flatMap_map]
    refine List.flatMap_congr fun p mem => ?_
    rw [nodeStatement_toList, cons.vertex_id (SortedMap.get?_of_mem_toList mem)]
  have edges : g.edges.flatMap (fun e => (edgeStatement e).toList) =
      g.edgeMap.toList.flatMap fun p => (Statement.edge p.2.source.digits.toList
        p.2.target.digits.toList p.2.attributes.describe.toList).escaped.write := by
    rw [Graph.edges, SortedMap.values, List.flatMap_map]
    exact List.flatMap_congr fun p _ => edgeStatement_toList p.2
  simp only [render, String.toList_append, String.toList_join, List.flatMap_map, vertices, edges,
    lines, List.flatMap_append, List.append_assoc]
  rfl

/-- The drawing of a reachable graph consists of the header, one node statement for each vertex
and one edge statement for each edge, in handle order and with their numbers, each with a single
label, and the closing brace, exactly if every double quote in an attribute name or a text stands
after an even number of backslashes. -/
theorem render_describes (reach : g.Reachable) :
    Describes (render g) (statements g) ↔ GuardedGraph g := by
  have header : read .between "digraph G \x7b\n".toList =
      some ([.word "digraph".toList, .word "G".toList, .mark '\x7b'], .between) := rfl
  have drawn : (statements g).flatMap Statement.tokens = (lines g).flatMap (·.escaped.tokens) :=
    List.flatMap_map ..
  rw [Describes, tokens, document, drawn, render_toList reach.consistent, ← lines_whole]
  constructor
  · intro described
    obtain ⟨⟨ts, last⟩, written, finished⟩ := Option.bind_eq_some_iff.mp described
    obtain ⟨us, ends, same⟩ := Option.map_eq_some_iff.mp finished
    obtain ⟨others, later, rfl⟩ := read_front header written
    rw [List.append_assoc, List.append_assoc] at same
    have rest := List.append_cancel_left same
    cases last with
    | between =>
      cases ends
      rw [List.append_nil] at rest
      rw [rest] at later
      exact Statement.not_ended_of_read lines_numbered lines_settled later
    | word text =>
      cases ends
      exact absurd (List.append_inj_right' rest rfl) (by simp)
    | dash => cases ends
    | quoted guarded text => cases ends
  · intro whole
    have body := Statement.read_statements lines_numbered whole
    have closing : read .between ['\x7d'] = some ([.mark '\x7d'], .between) := rfl
    rw [read_trans header (read_trans body closing)]
    simp [Mode.finish]

/-- Attributes with quotes, of which one stands after two backslashes, and a line end. -/
def annotations : Attributes :=
  .ofList [("say \"hi\"", .string "first\nsecond"), ("path", .string "C:\\\\\"")]

/-- An arrow with such attributes at its source. -/
def annotated : Graph := (Graph.arrow.perform (.edit (fun _ => annotations) (.vertex ⟨0⟩))).1

theorem annotated_described : annotated.Reachable ∧ GuardedGraph annotated ∧
    Describes (render annotated) (statements annotated) := by
  have reach : annotated.Reachable := .step _ Graph.arrow_reachable
  have vertices : annotated.vertexMap.toList =
      [(⟨0⟩, ⟨⟨0⟩, annotations⟩), (⟨1⟩, ⟨⟨1⟩, .empty⟩)] := rfl
  have edges : annotated.edgeMap.toList = [(⟨0⟩, ⟨⟨0⟩, ⟨0⟩, ⟨1⟩, .empty⟩)] := rfl
  have pairs : annotations.toList =
    [("path", .string "C:\\\\\""), ("say \"hi\"", .string "first\nsecond")] := by decide +kernel
  have own : GuardedAttributes annotations := by
    simp only [GuardedAttributes, pairs, List.forall_mem_cons, GuardedValue, guarded_iff]
    simp [scan]
  have none : GuardedAttributes .empty := by simp [GuardedAttributes, SortedMap.empty]
  have guarded : GuardedGraph annotated := by
    rw [guardedGraph_iff, vertices, edges]
    simp [own, none]
  exact ⟨reach, guarded, (render_describes reach).mpr guarded⟩

/-! ### A drawing that cannot be read -/

/-- A vertex with an attribute that is a backslash and a double quote. -/
def slashed : Graph :=
  (Graph.empty.perform (.addVertex (.ofList [("a", .string "\\\"")]))).1

/-- The backslash that is written for the quote is protected by the one before it, so the label
ends there, and what follows it is no DOT. -/
theorem slashed_unreadable : slashed.Reachable ∧ ∀ ss, ¬ Describes (render slashed) ss := by
  have reach : slashed.Reachable := .step _ .empty
  refine ⟨reach, fun ss described => ?_⟩
  have unread : tokens (render slashed) = none := by decide +kernel
  rw [Describes, unread] at described
  cases described

end GraphTransformation.Dot
