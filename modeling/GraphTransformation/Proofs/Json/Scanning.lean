import GraphTransformation.Json.Codec
import GraphTransformation.Proofs.Json.Numbers

/-!
Documents read from their compact text.

A written string is scanned up to its closing quote, piece by piece, and the pieces make the string
again (`scanString_escapes`, `ofPieces_pieces`). From there `Scans` goes through arrays and objects:
if each item or field is scanned as its draft, whatever follows it, then so is the whole, with two
units of fuel for each symbol. So the text of a document gives the draft of the document
(`scan_compact`), provided that it is `Legible`: its integers fit in 64 bits, its floating-point
numbers are read back from their texts, and it is not nested too deeply to be entered. What a codec
reads from such a text is what it reads from the document (`decode_compact`).
-/

namespace GraphTransformation.Json

open Text (Symbol symbols)

theorem symbols_append (s t : String) : symbols (s ++ t) = symbols s ++ symbols t := by
  rw [symbols, String.toList_append, List.map_append, symbols, symbols]

/-! ### Strings -/

/-- The piece that the scanner makes of a written character. -/
def piece (c : Char) : Piece :=
  match c with
  | '"' | '\\' | '\x08' | '\x0c' | '\n' | '\r' | '\t' => .char c
  | c => if c.toNat < 0x20 then .unit c.toNat else .char c

theorem hexDigit_digitChar : ∀ n < 16, hexDigit (Nat.digitChar n) = some n := by decide

/-- The two digits of a control character give its number. -/
theorem hexUnit_control {n : Nat} (control : n < 0x20) :
    hexUnit (some '0') (some '0') (some (Nat.digitChar (n / 16))) (some (Nat.digitChar (n % 16))) =
      some n := by
  have zero : hexDigit '0' = some 0 := rfl
  have high := hexDigit_digitChar (n / 16) (by omega)
  have low := hexDigit_digitChar (n % 16) (by omega)
  simp only [hexUnit, zero, high, low, Option.bind_eq_bind, Option.bind_some, Option.pure_def]
  exact congrArg some (by omega)

/-- Any character that needs no escape stands for itself. -/
theorem scanString_plain {c : Char} {rest : List Symbol} (quote : c ≠ '"') (backslash : c ≠ '\\')
    (visible : ¬ c.toNat < 0x20) :
    scanString (some c :: rest) = (scanString rest).map fun (ps, rest) => (.char c :: ps, rest) := by
  have allowed : ¬ (decide (c.toNat < 0x20) || c == '\\') = true := by simp [backslash, visible]
  rw [scanString.eq_def]
  split
  · rename_i same
    cases same
  · rename_i same
    cases same
  · rename_i same
    cases same
    exact absurd rfl quote
  · rename_i same
    cases same
    exact absurd rfl backslash
  · rename_i same
    cases same
    exact absurd rfl backslash
  · rename_i same
    cases same
    exact if_neg allowed

theorem scanString_escape {c : Char} {rest tail : List Symbol} {ps : List Piece}
    (scanned : scanString rest = some (ps, tail)) :
    scanString ((escape c).map some ++ rest) = some (piece c :: ps, tail) := by
  unfold escape piece
  split
  · simp [scanString, escaped, scanned]
  · simp [scanString, escaped, scanned]
  · simp [scanString, escaped, scanned]
  · simp [scanString, escaped, scanned]
  · simp [scanString, escaped, scanned]
  · simp [scanString, escaped, scanned]
  · simp [scanString, escaped, scanned]
  · rename_i quote backslash _ _ _ _ _
    by_cases control : c.toNat < 0x20
    · simp [control, scanString, hexUnit_control control, scanned]
    · simp [control, scanString_plain quote backslash control, scanned]

/-- The inside of a written string is scanned up to the closing quote. -/
theorem scanString_escapes (cs : List Char) (rest : List Symbol) :
    scanString ((cs.flatMap escape).map some ++ some '"' :: rest) =
      some (cs.map piece, rest) := by
  induction cs with
  | nil => simp [scanString]
  | cons c cs ih =>
    rw [List.flatMap_cons, List.map_append, List.append_assoc]
    exact scanString_escape ih

theorem joinPieces_unit {n : Nat} (small : n < 0x20) (ps : List Piece) :
    joinPieces (.unit n :: ps) = (joinPieces ps).map (Char.ofNat n :: ·) := by
  have leading : isLeading n = false := by simp [isLeading]; omega
  have trailing : isTrailing n = false := by simp [isTrailing]; omega
  rw [joinPieces.eq_def]
  simp [leading, trailing]

theorem joinPieces_piece (c : Char) (ps : List Piece) :
    joinPieces (piece c :: ps) = (joinPieces ps).map (c :: ·) := by
  unfold piece
  split
  case h_8 =>
    by_cases control : c.toNat < 0x20
    · rw [if_pos control, joinPieces_unit control, Char.ofNat_toNat]
    · rw [if_neg control]
      rfl
  all_goals rfl

theorem ofPieces_pieces (s : String) : ofPieces (s.toList.map piece) = some s := by
  have joined : ∀ cs : List Char, joinPieces (cs.map piece) = some cs := by
    intro cs
    induction cs with
    | nil => rfl
    | cons c cs ih => rw [List.map_cons, joinPieces_piece, ih, Option.map_some]
  rw [ofPieces, joined, Option.map_some, String.ofList_toList]

/-! ### Values -/

theorem skipBlanks_cons {c : Char} {cs : List Symbol} (visible : isBlank c = false) :
    skipBlanks (some c :: cs) = some c :: cs := by
  simp [skipBlanks, visible]

/-- A number literal begins with a sign or a digit. -/
theorem scanNumber_head {cs tail : List Symbol} {n : NumberLiteral}
    (scanned : scanNumber cs = some (n, tail)) :
    ∃ c left, cs = some c :: left ∧ (c = '-' ∨ c.isDigit = true) := by
  cases cs with
  | nil => cases scanned
  | cons s cs =>
    by_cases minus : s = some '-'
    · exact ⟨'-', cs, by rw [minus], .inl rfl⟩
    · have unsigned : ∀ body, s :: cs ≠ some '-' :: body := by
        intro body same
        cases same
        exact minus rfl
      obtain ⟨_, _, _, _, _, whole, -⟩ := (scanNumber_unsigned unsigned).mp scanned
      obtain ⟨_, digits, -⟩ := Option.bind_eq_some_iff.mp whole
      cases s with
      | none => cases digits
      | some c =>
        refine ⟨c, cs, rfl, .inr ?_⟩
        cases digit : c.isDigit with
        | true => rfl
        | false => simp [scanDigits, spanDigits, digit] at digits

/-- The text begins with a character that is no blank and closes nothing. -/
def Opens (cs : List Symbol) : Prop :=
  ∃ c tail, cs = some c :: tail ∧ isBlank c = false ∧ c ≠ ']' ∧ c ≠ '}'

theorem number_opens {c : Char} (start : c = '-' ∨ c.isDigit = true) :
    isBlank c = false ∧ c ≠ ']' ∧ c ≠ '}' := by
  have apart : ∀ d : Char, d ≠ '-' → d.isDigit = false → c ≠ d := by
    rintro d minus other rfl
    rcases start with same | digit
    · exact minus same
    · exact absurd (digit.symm.trans other) (by decide)
  refine ⟨?_, apart ']' (by decide) rfl, apart '}' (by decide) rfl⟩
  simp only [isBlank, Bool.or_eq_false_iff, beq_eq_false_iff_ne]
  exact ⟨⟨⟨apart ' ' (by decide) rfl, apart '\n' (by decide) rfl⟩, apart '\t' (by decide) rfl⟩,
    apart '\r' (by decide) rfl⟩

theorem scanValue_number {fuel room : Nat} {cs tail : List Symbol} {n : NumberLiteral}
    (scanned : scanNumber cs = some (n, tail)) :
    scanValue (fuel + 1) room cs = (n.draft, some tail) := by
  obtain ⟨c, left, rfl, start⟩ := scanNumber_head scanned
  rw [scanValue, skipBlanks_cons (number_opens start).1]
  split
  case h_7 => rw [scanned]
  all_goals
    rename_i same
    cases same
    exact absurd start (by decide)

/-- The text of the number is scanned as a literal that stands for the number. -/
def ReadsBack (x : Float) : Prop :=
  ∃ n, scanNumber (symbols (floatText x)) = some (n, []) ∧ n.draft = .float x

theorem readsBack_half : ReadsBack 1.5 := by
  refine ⟨⟨false, ['1'], ['5'], 0, false⟩, rfl, ?_⟩
  have scaled : scale 15 (-1) = 15 / powerOfTen 1 := by
    rw [scale]
    rfl
  have exact : (15 : Float) / powerOfTen 1 = 1.5 := by decide
  exact congrArg Draft.float (scaled.trans exact)

mutual

/-- All numbers of the document are read back from their texts, and arrays and objects are not
nested deeper than there is `room` for. -/
def Legible (room : Nat) : Json → Prop
  | .null | .bool _ | .string _ => True
  | .int n => -2 ^ 63 ≤ n ∧ n < 2 ^ 64
  | .float x => ReadsBack x
  | .array items => 0 < room ∧ LegibleItems (room - 1) items
  | .object fields => 0 < room ∧ LegibleFields (room - 1) fields

def LegibleItems (room : Nat) : List Json → Prop
  | [] => True
  | j :: rest => j.Legible room ∧ LegibleItems room rest

def LegibleFields (room : Nat) : List (String × Json) → Prop
  | [] => True
  | (_, j) :: rest => j.Legible room ∧ LegibleFields room rest

end

/-- The text of a number is scanned as a number that stands for it. -/
theorem scanValue_numeral {text : List Symbol} {fuel room : Nat} {rest : List Symbol} {d : Draft}
    (scans : ∃ n, scanNumber text = some (n, []) ∧ n.draft = d) (ends : EndsNumber rest) :
    scanValue (fuel + 1) room (text ++ rest) = (d, some rest) := by
  obtain ⟨n, scanned, rfl⟩ := scans
  exact scanValue_number (scanNumber_append ends scanned)

theorem integer_scans {n : Int} (low : -2 ^ 63 ≤ n) (high : n < 2 ^ 64) :
    ∃ l, scanNumber (symbols n.repr) = some (l, []) ∧ l.draft = .int n :=
  ⟨integerLiteral n, scanNumber_repr n, integerLiteral_draft low high⟩

theorem symbols_quoted (s : String) (rest : List Symbol) :
    symbols (quoted s) ++ rest =
      some '"' :: ((s.toList.flatMap escape).map some ++ some '"' :: rest) := by
  simp [quoted, symbols]

theorem scanValue_string {fuel room : Nat} {s : String} {rest : List Symbol} :
    scanValue (fuel + 1) room (symbols (quoted s) ++ rest) = (.string (some s), some rest) := by
  rw [symbols_quoted, scanValue, skipBlanks_cons (by decide)]
  simp only [scanString_escapes, ofPieces_pieces]

theorem numeral_opens {text : List Symbol} {d : Draft}
    (scans : ∃ n, scanNumber text = some (n, []) ∧ n.draft = d) (rest : List Symbol) :
    Opens (text ++ rest) := by
  obtain ⟨n, scanned, -⟩ := scans
  obtain ⟨c, left, rfl, start⟩ := scanNumber_head scanned
  exact ⟨c, left ++ rest, rfl, number_opens start⟩

theorem quoted_opens (s : String) (rest : List Symbol) : Opens (symbols (quoted s) ++ rest) :=
  ⟨'"', _, symbols_quoted s rest, by decide⟩

theorem compact_opens {room : Nat} {j : Json} (legible : j.Legible room) (rest : List Symbol) :
    Opens (symbols j.compact ++ rest) := by
  cases j with
  | null => exact ⟨'n', _, rfl, by decide⟩
  | bool b =>
    cases b with
    | true => exact ⟨'t', _, rfl, by decide⟩
    | false => exact ⟨'f', _, rfl, by decide⟩
  | int n => exact numeral_opens (integer_scans legible.1 legible.2) rest
  | float x => exact numeral_opens legible rest
  | string s => exact quoted_opens s rest
  | array items =>
    rw [compact, symbols_append, symbols_append]
    exact ⟨'[', _, rfl, by decide⟩
  | object fields =>
    rw [compact, symbols_append, symbols_append]
    exact ⟨'{', _, rfl, by decide⟩

/-! ### Arrays and objects -/

section Brackets

variable {fuel room : Nat} {cs rest : List Symbol} {d : Draft}

theorem scanValue_array (opens : Opens cs) :
    scanValue (fuel + 1) room (some '[' :: cs) =
      (entered .array room (scanItems fuel (room - 1) cs).1 (scanItems fuel (room - 1) cs).2.1,
        (scanItems fuel (room - 1) cs).2.2) := by
  obtain ⟨c, tail, rfl, visible, apart, -⟩ := opens
  rw [scanValue, skipBlanks_cons (by decide)]
  simp only [skipBlanks_cons visible]
  split
  · rename_i same
    cases same
    exact absurd rfl apart
  · rfl

theorem scanValue_object (opens : Opens cs) :
    scanValue (fuel + 1) room (some '{' :: cs) =
      (entered .object room (scanFields fuel (room - 1) cs).1 (scanFields fuel (room - 1) cs).2.1,
        (scanFields fuel (room - 1) cs).2.2) := by
  obtain ⟨c, tail, rfl, visible, -, apart⟩ := opens
  rw [scanValue, skipBlanks_cons (by decide)]
  simp only [skipBlanks_cons visible]
  split
  · rename_i same
    cases same
    exact absurd rfl apart
  · rfl

theorem scanItems_last (scanned : scanValue fuel room cs = (d, some (some ']' :: rest))) :
    scanItems (fuel + 1) room cs = ([d], .closed, some rest) := by
  simp only [scanItems, scanned, skipBlanks_cons (c := ']') (by decide)]

theorem scanItems_next (scanned : scanValue fuel room cs = (d, some (some ',' :: rest))) :
    scanItems (fuel + 1) room cs =
      (d :: (scanItems fuel room rest).1, (scanItems fuel room rest).2) := by
  simp only [scanItems, scanned, skipBlanks_cons (c := ',') (by decide)]

theorem scanFields_last {name : String}
    (scanned : scanValue fuel room cs = (d, some (some '}' :: rest))) :
    scanFields (fuel + 1) room (symbols (quoted name) ++ some ':' :: cs) =
      ([(some name, d)], .closed, some rest) := by
  rw [symbols_quoted, scanFields, skipBlanks_cons (by decide)]
  simp only [scanString_escapes, ofPieces_pieces, scanned, skipBlanks_cons (c := ':') (by decide),
    skipBlanks_cons (c := '}') (by decide)]

theorem scanFields_next {name : String}
    (scanned : scanValue fuel room cs = (d, some (some ',' :: rest))) :
    scanFields (fuel + 1) room (symbols (quoted name) ++ some ':' :: cs) =
      ((some name, d) :: (scanFields fuel room rest).1, (scanFields fuel room rest).2) := by
  rw [symbols_quoted, scanFields, skipBlanks_cons (by decide)]
  simp only [scanString_escapes, ofPieces_pieces, scanned, skipBlanks_cons (c := ':') (by decide),
    skipBlanks_cons (c := ',') (by decide)]

end Brackets

/-! ### Documents -/

theorem endsNumber_cons {c : Char} {rest : List Symbol}
    (other : c.isDigit = false ∧ c ≠ '.' ∧ c ≠ 'e' ∧ c ≠ 'E') : EndsNumber (some c :: rest) := by
  intro d tail same
  cases same
  exact other

theorem symbols_comma : symbols "," = [some ','] := rfl

/-- The text of several items, the first one apart. -/
theorem symbols_items (j k : Json) (items : List Json) :
    symbols (",".intercalate (compactItems (j :: k :: items))) =
      symbols j.compact ++ some ',' :: symbols (",".intercalate (compactItems (k :: items))) := by
  simp only [compactItems, String.intercalate_cons_cons, symbols_append, symbols_comma,
    List.append_assoc, List.singleton_append]

/-- The text of a field. -/
theorem symbols_field (name : String) (j : Json) :
    symbols (quoted name ++ ":" ++ j.compact) =
      symbols (quoted name) ++ some ':' :: symbols j.compact := by
  rw [symbols_append, symbols_append, List.append_assoc]
  rfl

theorem symbols_fields (name : String) (j : Json) (f : String × Json)
    (fields : List (String × Json)) :
    symbols (",".intercalate (compactFields ((name, j) :: f :: fields))) =
      symbols (quoted name) ++ some ':' :: (symbols j.compact ++
        some ',' :: symbols (",".intercalate (compactFields (f :: fields)))) := by
  obtain ⟨other, k⟩ := f
  simp only [compactFields, String.intercalate_cons_cons, symbols_append _ ",",
    symbols_append _ (",".intercalate _), symbols_field, symbols_comma, List.append_assoc,
    List.cons_append, List.nil_append]

/-- The text of the document is scanned as its draft, whatever follows it that is no part of a
number. Two units of fuel for each symbol are enough. -/
def Scans (room : Nat) (j : Json) : Prop :=
  ∀ fuel rest, 2 * (symbols j.compact).length < fuel → EndsNumber rest →
    scanValue fuel room (symbols j.compact ++ rest) = (j.draft, some rest)

theorem Scans.of_succ {room : Nat} {j : Json}
    (scanned : ∀ fuel rest, EndsNumber rest →
      scanValue (fuel + 1) room (symbols j.compact ++ rest) = (j.draft, some rest)) :
    j.Scans room := by
  intro fuel rest enough ends
  obtain ⟨fuel, rfl⟩ : ∃ n, fuel = n + 1 := ⟨fuel - 1, by omega⟩
  exact scanned fuel rest ends

theorem scanItems_compact {items : List Json} {room fuel : Nat} {rest : List Symbol}
    (nonempty : items ≠ []) (scans : ∀ j ∈ items, j.Scans room)
    (enough : 2 * (symbols (",".intercalate (compactItems items))).length + 1 < fuel) :
    scanItems fuel room (symbols (",".intercalate (compactItems items)) ++ some ']' :: rest) =
      (drafts items, .closed, some rest) := by
  induction items generalizing fuel with
  | nil => exact absurd rfl nonempty
  | cons j items ih =>
    obtain ⟨first, others⟩ := List.forall_mem_cons.mp scans
    obtain ⟨fuel, rfl⟩ : ∃ n, fuel = n + 1 := ⟨fuel - 1, by omega⟩
    cases items with
    | nil =>
      simp only [compactItems, String.intercalate_singleton] at enough ⊢
      exact scanItems_last (first fuel _ (by omega) (endsNumber_cons (by decide)))
    | cons k items =>
      rw [symbols_items] at enough ⊢
      rw [List.length_append, List.length_cons] at enough
      have item := first fuel (some ',' :: (symbols (",".intercalate (compactItems (k :: items))) ++
        some ']' :: rest)) (by omega) (endsNumber_cons (by decide))
      rw [List.append_assoc, List.cons_append, scanItems_next item,
        ih (by simp) others (by omega)]
      rfl

theorem scanFields_compact {fields : List (String × Json)} {room fuel : Nat} {rest : List Symbol}
    (nonempty : fields ≠ []) (scans : ∀ f ∈ fields, f.2.Scans room)
    (enough : 2 * (symbols (",".intercalate (compactFields fields))).length + 1 < fuel) :
    scanFields fuel room (symbols (",".intercalate (compactFields fields)) ++ some '}' :: rest) =
      (fieldDrafts fields, .closed, some rest) := by
  induction fields generalizing fuel with
  | nil => exact absurd rfl nonempty
  | cons f fields ih =>
    obtain ⟨name, j⟩ := f
    obtain ⟨first, others⟩ := List.forall_mem_cons.mp scans
    have first : j.Scans room := first
    obtain ⟨fuel, rfl⟩ : ∃ n, fuel = n + 1 := ⟨fuel - 1, by omega⟩
    cases fields with
    | nil =>
      simp only [compactFields, String.intercalate_singleton, symbols_field] at enough ⊢
      rw [List.length_append, List.length_cons] at enough
      rw [List.append_assoc, List.cons_append]
      exact scanFields_last (first fuel _ (by omega) (endsNumber_cons (by decide)))
    | cons f fields =>
      rw [symbols_fields] at enough ⊢
      rw [List.length_append, List.length_cons, List.length_append, List.length_cons] at enough
      have field := first fuel (some ',' :: (symbols (",".intercalate
        (compactFields (f :: fields))) ++ some '}' :: rest)) (by omega)
        (endsNumber_cons (by decide))
      rw [List.append_assoc, List.cons_append, List.append_assoc, List.cons_append,
        scanFields_next field, ih (by simp) others (by omega)]
      rfl

theorem legibleItems_iff {room : Nat} {items : List Json} :
    LegibleItems room items ↔ ∀ j ∈ items, j.Legible room := by
  induction items with
  | nil => simp [LegibleItems]
  | cons j items ih => rw [LegibleItems, ih, List.forall_mem_cons]

theorem legibleFields_iff {room : Nat} {fields : List (String × Json)} :
    LegibleFields room fields ↔ ∀ f ∈ fields, f.2.Legible room := by
  induction fields with
  | nil => simp [LegibleFields]
  | cons f fields ih => rw [LegibleFields, ih, List.forall_mem_cons]

theorem symbols_array (items : List Json) (rest : List Symbol) :
    symbols (array items).compact ++ rest =
      some '[' :: (symbols (",".intercalate (compactItems items)) ++ some ']' :: rest) := by
  rw [compact, symbols_append, symbols_append, List.append_assoc, List.append_assoc]
  rfl

theorem symbols_object (fields : List (String × Json)) (rest : List Symbol) :
    symbols (object fields).compact ++ rest =
      some '\x7b' :: (symbols (",".intercalate (compactFields fields)) ++ some '\x7d' :: rest) := by
  rw [compact, symbols_append, symbols_append, List.append_assoc, List.append_assoc]
  rfl

theorem scans_array {items : List Json} {room : Nat} (legible : (array items).Legible room)
    (scans : ∀ j ∈ items, j.Scans (room - 1)) : (array items).Scans room := by
  intro fuel rest enough ends
  have deep : room ≠ 0 := Nat.ne_of_gt legible.1
  have length := congrArg List.length (symbols_array items [])
  simp only [List.append_nil, List.length_cons, List.length_append, List.length_nil] at length
  obtain ⟨fuel, rfl⟩ : ∃ n, fuel = n + 1 := ⟨fuel - 1, by omega⟩
  rw [symbols_array]
  cases items with
  | nil =>
    have opening : isBlank '[' = false := by decide
    have closing : isBlank ']' = false := by decide
    have empty : symbols (",".intercalate (compactItems [])) = [] := rfl
    rw [empty, List.nil_append, scanValue, skipBlanks_cons opening]
    simp only [skipBlanks_cons closing, entered, if_neg deep]
    rfl
  | cons j items =>
    have opens : Opens (symbols (",".intercalate (compactItems (j :: items))) ++
        some ']' :: rest) := by
      have first : j.Legible (room - 1) := legible.2.1
      cases items with
      | nil => exact compact_opens first _
      | cons k items =>
        rw [symbols_items, List.append_assoc]
        exact compact_opens first _
    rw [scanValue_array opens, scanItems_compact (by simp) scans (by omega), entered, if_neg deep]
    rfl

theorem scans_object {fields : List (String × Json)} {room : Nat}
    (legible : (object fields).Legible room) (scans : ∀ f ∈ fields, f.2.Scans (room - 1)) :
    (object fields).Scans room := by
  intro fuel rest enough ends
  have deep : room ≠ 0 := Nat.ne_of_gt legible.1
  have length := congrArg List.length (symbols_object fields [])
  simp only [List.append_nil, List.length_cons, List.length_append, List.length_nil] at length
  obtain ⟨fuel, rfl⟩ : ∃ n, fuel = n + 1 := ⟨fuel - 1, by omega⟩
  rw [symbols_object]
  cases fields with
  | nil =>
    have opening : isBlank '\x7b' = false := by decide
    have closing : isBlank '\x7d' = false := by decide
    have empty : symbols (",".intercalate (compactFields [])) = [] := rfl
    rw [empty, List.nil_append, scanValue, skipBlanks_cons opening]
    simp only [skipBlanks_cons closing, entered, if_neg deep]
    rfl
  | cons f fields =>
    have opens : Opens (symbols (",".intercalate (compactFields (f :: fields))) ++
        some '\x7d' :: rest) := by
      obtain ⟨name, j⟩ := f
      cases fields with
      | nil =>
        rw [compactFields, compactFields, String.intercalate_singleton, symbols_field,
          List.append_assoc]
        exact quoted_opens name _
      | cons f fields =>
        rw [symbols_fields, List.append_assoc]
        exact quoted_opens name _
    rw [scanValue_object opens, scanFields_compact (by simp) scans (by omega), entered,
      if_neg deep]
    rfl

/-- The compact text of a document is scanned as the draft of the document. -/
theorem Legible.scans {j : Json} {room : Nat} (legible : j.Legible room) : j.Scans room := by
  match j with
  | .null | .bool true | .bool false => exact .of_succ fun _ _ _ => rfl
  | .int n =>
    exact .of_succ fun _ _ ends => scanValue_numeral (integer_scans legible.1 legible.2) ends
  | .float x => exact .of_succ fun _ _ ends => scanValue_numeral legible ends
  | .string s => exact .of_succ fun _ _ _ => scanValue_string
  | .array items =>
    exact scans_array legible fun k member => (legibleItems_iff.mp legible.2 k member).scans
  | .object fields =>
    exact scans_object legible fun f member => (legibleFields_iff.mp legible.2 f member).scans
termination_by sizeOf j
decreasing_by
  · have smaller := List.sizeOf_lt_of_mem member
    simp only [array.sizeOf_spec]
    omega
  · have smaller := List.sizeOf_lt_of_mem member
    have field : sizeOf f = 1 + sizeOf f.1 + sizeOf f.2 := rfl
    simp only [object.sizeOf_spec]
    omega

/-- A text of one document is scanned to its end. -/
theorem scan_compact {j : Json} (legible : j.Legible maxDepth) :
    scan (symbols j.compact) = (j.draft, some []) := by
  have ends : EndsNumber [] := by
    intro c tail same
    cases same
  have scanned := legible.scans (2 * (symbols j.compact).length + 2) [] (by omega) ends
  rwa [List.append_nil] at scanned

end GraphTransformation.Json

namespace GraphTransformation.Codec

/-- Decoding the compact text of a document is reading its draft. -/
theorem decode_compact {α : Type} (c : Codec α) {j : Json} (legible : j.Legible Json.maxDepth) :
    c.decode j.compact = c.read .text j.draft := by
  rw [decode, decodeSymbols, Json.scan_compact legible]
  have done : Json.isDone (some []) = true := rfl
  simp only [done, if_true]
  exact bind_pure _

end GraphTransformation.Codec
