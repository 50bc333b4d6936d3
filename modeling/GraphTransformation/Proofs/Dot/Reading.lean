import GraphTransformation.Graph.Dot
import Mathlib.Data.List.Induction

/-!
Reading DOT texts.

A DOT text is read as a sequence of tokens; between double quotes a backslash
protects the character after it, and the text ends at the first quote that is not
protected. A text describes a list of node and edge statements if it has their
tokens and no others (`Describes`), and it describes at most one
(`Describes.unique`).

In a label the quotes are escaped, but not the backslashes. After an odd number
of backslashes the one that is written for a quote is protected itself, and the
label ends there. So statements are read as they are written exactly if every
quote in their labels stands after an even number of backslashes (`guarded_iff`,
`Statement.read_statements`, `Statement.not_ended_of_read`).
-/

namespace GraphTransformation.Dot

/-! ### Tokens -/

/-- A token of the DOT language. -/
inductive Token where
  | word (text : List Char)
  /-- What stands between double quotes, as it is written there. -/
  | quoted (text : List Char)
  | arrow
  | mark (c : Char)
  deriving DecidableEq

/-- What a reader is in the middle of. -/
inductive Mode where
  | between
  | word (text : List Char)
  | dash
  /-- Between double quotes; `guarded` says that the last character protects the next one. -/
  | quoted (guarded : Bool) (text : List Char)
  deriving DecidableEq

/-- Reads a character that starts a token or separates tokens. -/
def start (c : Char) : Option (List Token × Mode) :=
  if c = ' ' ∨ c = '\n' then some ([], .between)
  else if c = '"' then some ([], .quoted false [])
  else if c = '-' then some ([], .dash)
  else if c ∈ ['\x7b', '\x7d', '[', ']', '=', ';'] then some ([.mark c], .between)
  else if c.isAlphanum then some ([], .word [c])
  else none

/-- Reads one character: the tokens it completes and what the reader is in then. -/
def advance : Mode → Char → Option (List Token × Mode)
  | .between, c => start c
  | .word text, c =>
    if c.isAlphanum then some ([], .word (text ++ [c]))
    else (start c).map fun (ts, mode) => (.word text :: ts, mode)
  | .dash, c => if c = '>' then some ([.arrow], .between) else none
  | .quoted guarded text, c =>
    if c = '"' ∧ guarded = false then some ([.quoted text], .between)
    else some ([], .quoted (c = '\\' && !guarded) (text ++ [c]))

/-- Reads characters one after another. -/
def read : Mode → List Char → Option (List Token × Mode)
  | mode, [] => some ([], mode)
  | mode, c :: rest =>
    (advance mode c).bind fun one => (read one.2 rest).map fun others =>
      (one.1 ++ others.1, others.2)

/-- The token that the end of the text completes. -/
def Mode.finish : Mode → Option (List Token)
  | .between => some []
  | .word text => some [.word text]
  | .dash | .quoted _ _ => none

/-- The tokens of a text, if it consists of tokens. -/
def tokens (text : String) : Option (List Token) :=
  (read .between text.toList).bind fun (ts, mode) => mode.finish.map (ts ++ ·)

variable {mode next last : Mode} {ts us : List Token} {xs ys : List Char}

theorem read_append : read mode (xs ++ ys) = (read mode xs).bind fun front =>
    (read front.2 ys).map fun back => (front.1 ++ back.1, back.2) := by
  induction xs generalizing mode with
  | nil => simp [read]
  | cons c rest ih =>
    simp only [List.cons_append, read, ih, Option.map_bind, Option.bind_assoc, Option.bind_map,
      Function.comp_def, Option.map_map, List.append_assoc]

theorem read_trans (first : read mode xs = some (ts, next))
    (second : read next ys = some (us, last)) : read mode (xs ++ ys) = some (ts ++ us, last) := by
  rw [read_append, first, Option.bind_some, second, Option.map_some]

/-- What is read of the beginning of a text is the beginning of what is read. -/
theorem read_front (first : read mode xs = some (ts, next))
    (whole : read mode (xs ++ ys) = some (us, last)) :
    ∃ rest, read next ys = some (rest, last) ∧ us = ts ++ rest := by
  rw [read_append, first, Option.bind_some, Option.map_eq_some_iff] at whole
  obtain ⟨⟨rest, _⟩, second, same⟩ := whole
  cases same
  exact ⟨rest, second, rfl⟩

theorem read_word {text : List Char} (letters : ∀ c ∈ xs, c.isAlphanum = true) :
    read (.word text) xs = some ([], .word (text ++ xs)) := by
  induction xs generalizing text with
  | nil => simp [read]
  | cons c rest ih =>
    obtain ⟨letter, letters⟩ := List.forall_mem_cons.mp letters
    rw [read, advance, if_pos letter, Option.bind_some, ih letters]
    simp

/-- A word before a blank. -/
theorem read_word_blank (letters : ∀ c ∈ xs, c.isAlphanum = true) (nonempty : xs ≠ []) :
    read .between (xs ++ [' ']) = some ([.word xs], .between) := by
  cases xs with
  | nil => exact absurd rfl nonempty
  | cons c rest =>
    obtain ⟨letter, letters⟩ := List.forall_mem_cons.mp letters
    have first : read .between [c] = some ([], .word [c]) := by
      have ordinary : ∀ d : Char, d.isAlphanum = false → ¬ c = d := by
        rintro d other rfl
        exact absurd letter (by simp [other])
      simp [read, advance, start, letter, ordinary]
    exact read_trans (read_trans first (read_word letters)) rfl

/-! ### Protected quotes -/

/-- Whether the last character of a text protects the next one, once the text is escaped and
`guarded` says so of what is before it; nothing if a quote is protected twice and ends the label. -/
def scan (guarded : Bool) : List Char → Option Bool
  | [] => some guarded
  | c :: rest => if c = '"' ∧ guarded then none else scan (c = '\\' && !guarded) rest

variable {guarded : Bool}

/-- The text is read to its end, which does not protect what follows. -/
def Whole (text : List Char) : Prop := scan false text = some false

/-- If the text is read to its end, this does not protect what follows. -/
def Settled (text : List Char) : Prop := scan false text ≠ some true

theorem Whole.settled {text : List Char} (whole : Whole text) : Settled text := by
  rw [Settled, whole]
  simp

theorem scan_append : scan guarded (xs ++ ys) = (scan guarded xs).bind (scan · ys) := by
  induction xs generalizing guarded with
  | nil => rfl
  | cons c rest ih =>
    simp only [List.cons_append, scan, ih]
    split <;> rfl

/-- After a character that is neither a backslash nor a quote nothing is protected. -/
theorem scan_separated {c : Char} (quote : c ≠ '"') (backslash : c ≠ '\\') :
    scan guarded (xs ++ c :: ys) = (scan guarded xs).bind fun _ => scan false ys := by
  rw [scan_append]
  simp [scan, quote, backslash]

theorem scan_plain (plain : ∀ c ∈ xs, c ≠ '"' ∧ c ≠ '\\') : Whole xs := by
  rw [Whole]
  induction xs with
  | nil => rfl
  | cons c rest ih =>
    obtain ⟨⟨quote, backslash⟩, plain⟩ := List.forall_mem_cons.mp plain
    simp [scan, quote, backslash, ih plain]

/-- The number of backslashes at the end of a text. -/
def backslashes (text : List Char) : Nat := (text.reverse.takeWhile (· == '\\')).length

/-- Every double quote of the text stands after an even number of backslashes. -/
def Guarded (text : String) : Prop :=
  ∀ before after, text.toList = before ++ '"' :: after → backslashes before % 2 = 0

theorem backslashes_snoc {c : Char} :
    backslashes (xs ++ [c]) = if c = '\\' then backslashes xs + 1 else 0 := by
  rw [backslashes, List.reverse_append, List.reverse_singleton, List.singleton_append,
    List.takeWhile_cons]
  by_cases backslash : c = '\\'
  · simp [backslash, backslashes]
  · simp [backslash]

/-- A backslash protects what follows it if it is not protected itself. -/
theorem scan_eq_backslashes (scanned : scan false xs = some guarded) :
    guarded = (backslashes xs % 2 == 1) := by
  induction xs using List.reverseRecOn generalizing guarded with
  | nil =>
    cases scanned
    rfl
  | append_singleton front c ih =>
    rw [scan_append, Option.bind_eq_some_iff] at scanned
    obtain ⟨before, scanned, last⟩ := scanned
    have parity := ih scanned
    rw [backslashes_snoc]
    simp only [scan] at last
    split at last
    · cases last
    · cases last
      by_cases backslash : c = '\\'
      · simp [backslash, parity]
        grind
      · simp [backslash]

/-- A label is ended early by a quote that is protected twice. -/
theorem scan_eq_none : scan guarded xs = none ↔
    ∃ before after, xs = before ++ '"' :: after ∧ scan guarded before = some true := by
  induction xs generalizing guarded with
  | nil => simp [scan]
  | cons c rest ih =>
    rw [scan]
    split
    · rename_i ended
      obtain ⟨rfl, rfl⟩ := ended
      exact iff_of_true rfl ⟨[], rest, rfl, rfl⟩
    · rename_i goes
      rw [ih]
      constructor
      · rintro ⟨before, after, rfl, twice⟩
        exact ⟨c :: before, after, rfl, by rw [scan, if_neg goes, twice]⟩
      · rintro ⟨before, after, same, twice⟩
        cases before with
        | nil =>
          obtain ⟨quote, -⟩ := List.cons.inj same
          cases twice
          exact absurd ⟨quote, rfl⟩ goes
        | cons d before =>
          obtain ⟨rfl, rfl⟩ := List.cons.inj same
          rw [scan, if_neg goes] at twice
          exact ⟨before, after, rfl, twice⟩

theorem guarded_iff {text : String} : Guarded text ↔ (scan false text.toList).isSome = true := by
  constructor
  · intro even
    rw [Option.isSome_iff_ne_none, Ne, scan_eq_none]
    rintro ⟨before, after, same, twice⟩
    have odd := scan_eq_backslashes twice
    rw [even before after same] at odd
    cases odd
  · intro whole before after same
    obtain ⟨last, scanned⟩ := Option.isSome_iff_exists.mp whole
    rw [same, scan_append, Option.bind_eq_some_iff] at scanned
    obtain ⟨protects, front, scanned⟩ := scanned
    have parity := scan_eq_backslashes front
    cases protects with
    | true => simp [scan] at scanned
    | false => simpa using parity.symm

/-- A quote that is not protected, and any other character, is read as part of the label. -/
theorem read_escape {c : Char} (goes : ¬ (c = '"' ∧ guarded = true)) {text : List Char} :
    read (.quoted guarded text) (escape c) =
      some ([], .quoted (c = '\\' && !guarded) (text ++ escape c)) := by
  unfold escape
  split
  · cases guarded with
    | false => simp [read, advance]
    | true => exact absurd ⟨rfl, rfl⟩ goes
  · simp [read, advance]
  · rename_i quote _
    rw [read, advance, if_neg fun ends => quote ends.1]
    rfl

theorem read_escaped {text : List Char} {after : Bool} (scanned : scan guarded xs = some after) :
    read (.quoted guarded text) (xs.flatMap escape) =
      some ([], .quoted after (text ++ xs.flatMap escape)) := by
  induction xs generalizing guarded text with
  | nil =>
    cases scanned
    simp [read]
  | cons c rest ih =>
    rw [scan] at scanned
    split at scanned
    · cases scanned
    · rename_i goes
      rw [List.flatMap_cons, ← List.append_assoc]
      exact read_trans (read_escape goes) (ih scanned)

/-- After an odd number of backslashes a quote ends the label. -/
theorem read_ended (ended : scan false xs = none) : ∃ front rest text,
    xs.flatMap escape = front ++ rest ∧
      read (.quoted false []) front = some ([.quoted text], .between) ∧
      text.length < (xs.flatMap escape).length := by
  obtain ⟨before, after, rfl, twice⟩ := scan_eq_none.mp ended
  refine ⟨before.flatMap escape ++ ['\\', '"'], after.flatMap escape,
    before.flatMap escape ++ ['\\'], ?_, ?_, ?_⟩
  · simp [escape]
  · refine read_trans (read_escaped twice) ?_
    simp [read, advance]
  · simp [escape]

/-! ### Statements -/

/-- A node or edge statement with a label and no other attribute. Numbers and labels are
given as they are written. -/
inductive Statement where
  | node (id label : List Char)
  | edge (source target label : List Char)
  deriving DecidableEq

namespace Statement

/-- What the statement is about. -/
def subject : Statement → List Token
  | node id _ => [.word id]
  | edge source target _ => [.word source, .arrow, .word target]

def label : Statement → List Char
  | node _ label => label
  | edge _ _ label => label

def tokens (s : Statement) : List Token :=
  s.subject ++ [.mark '[', .word "label".toList, .mark '='] ++
    [.quoted s.label, .mark ']', .mark ';']

/-- The tokens of a statement show where it ends. -/
theorem tokens_append {s s' : Statement} (same : s.tokens ++ ts = s'.tokens ++ us) :
    s = s' ∧ ts = us := by
  cases s with
  | node id label =>
    cases s' with
    | node id' label' => simpa [tokens, subject, Statement.label, and_assoc] using same
    | edge source target label' => simp [tokens, subject] at same
  | edge source target label =>
    cases s' with
    | node id' label' => simp [tokens, subject] at same
    | edge source' target' label' => simpa [tokens, subject, Statement.label, and_assoc] using same

/-- The statement for the lines of its label. -/
def escaped : Statement → Statement
  | node id lines => node id (lines.flatMap escape)
  | edge source target lines => edge source target (lines.flatMap escape)

/-- What is written between the subject of a statement and its label. -/
def labelOpening : List Char := ['[', 'l', 'a', 'b', 'e', 'l', '=', '"']

/-- What is written of a statement up to its label. -/
def opening : Statement → List Char
  | node id _ => [' ', ' ', ' ', ' '] ++ (id ++ [' ']) ++ labelOpening
  | edge source target _ =>
    [' ', ' ', ' ', ' '] ++ (source ++ [' ']) ++ ['-', '>', ' '] ++ (target ++ [' ']) ++
      labelOpening

/-- What is written of a statement. -/
def write (s : Statement) : List Char := s.opening ++ s.label ++ ['"', ']', ';', '\n']

/-- A number as it is written. -/
def Numeral (digits : List Char) : Prop := digits ≠ [] ∧ ∀ c ∈ digits, c.isAlphanum = true

/-- The statement is about elements with numbers. -/
def Numbered : Statement → Prop
  | node id _ => Numeral id
  | edge source target _ => Numeral source ∧ Numeral target

variable {s : Statement} {ss : List Statement}

theorem read_opening (numbered : s.Numbered) : read .between s.opening =
    some (s.subject ++ [.mark '[', .word "label".toList, .mark '='], .quoted false []) := by
  have blank : read .between [' ', ' ', ' ', ' '] = some ([], .between) := rfl
  have arrow : read .between ['-', '>', ' '] = some ([.arrow], .between) := rfl
  have name : read .between labelOpening =
      some ([.mark '[', .word "label".toList, .mark '='], .quoted false []) := rfl
  cases s with
  | node id lines =>
    obtain ⟨nonempty, letters⟩ := numbered
    exact read_trans (read_trans blank (read_word_blank letters nonempty)) name
  | edge source target lines =>
    obtain ⟨⟨nonempty, letters⟩, nonempty', letters'⟩ := numbered
    have first := read_trans (read_trans blank (read_word_blank letters nonempty)) arrow
    exact read_trans (read_trans first (read_word_blank letters' nonempty')) name

theorem escaped_label : s.escaped.label = s.label.flatMap escape := by
  cases s <;> rfl

theorem escaped_opening : s.escaped.opening = s.opening := by
  cases s <;> rfl

theorem escaped_subject : s.escaped.subject = s.subject := by
  cases s <;> rfl

/-- A statement whose label is not ended early is read as it stands. -/
theorem read_write (numbered : s.Numbered) (whole : Whole s.label) :
    read .between s.escaped.write = some (s.escaped.tokens, .between) := by
  have closing : ∀ text, read (.quoted false text) ['"', ']', ';', '\n'] =
      some ([.quoted text, .mark ']', .mark ';'], .between) := fun _ => rfl
  rw [write, tokens, escaped_opening, escaped_subject, escaped_label]
  have inside := read_trans (read_opening numbered) (read_escaped whole)
  rw [List.append_nil] at inside
  exact read_trans inside (closing _)

/-- Of a statement whose label is ended early something else is read. -/
theorem read_write_ended (numbered : s.Numbered) (ended : scan false s.label = none)
    (written : read .between (s.escaped.write ++ xs) = some (s.escaped.tokens ++ ts, last)) :
    False := by
  obtain ⟨front, rest, text, split, early, shorter⟩ := read_ended ended
  have begun := read_trans (read_opening numbered) early
  have same : s.escaped.write ++ xs =
      s.opening ++ front ++ (rest ++ ['"', ']', ';', '\n'] ++ xs) := by
    rw [write, escaped_opening, escaped_label, split]
    simp only [List.append_assoc]
  rw [same] at written
  obtain ⟨others, -, differs⟩ := read_front begun written
  rw [tokens, escaped_subject, escaped_label] at differs
  simp only [List.append_assoc, List.append_cancel_left_eq, List.cons_append, List.cons.injEq,
    Token.quoted.injEq, true_and] at differs
  rw [differs.1] at shorter
  exact absurd shorter (Nat.lt_irrefl _)

theorem read_statements (numbered : ∀ s ∈ ss, s.Numbered)
    (whole : ∀ s ∈ ss, Whole s.label) :
    read .between (ss.flatMap (·.escaped.write)) =
      some (ss.flatMap (·.escaped.tokens), .between) := by
  induction ss with
  | nil => rfl
  | cons s rest ih =>
    obtain ⟨own, numbered⟩ := List.forall_mem_cons.mp numbered
    obtain ⟨here, whole⟩ := List.forall_mem_cons.mp whole
    exact read_trans (read_write own here) (ih numbered whole)

/-- If statements are read as they stand, no label is ended early. -/
theorem not_ended_of_read (numbered : ∀ s ∈ ss, s.Numbered)
    (settled : ∀ s ∈ ss, Settled s.label)
    (written : read .between (ss.flatMap (·.escaped.write) ++ xs) =
      some (ss.flatMap (·.escaped.tokens) ++ ts, last)) :
    ∀ s ∈ ss, Whole s.label := by
  induction ss with
  | nil => simp
  | cons s rest ih =>
    obtain ⟨own, numbered⟩ := List.forall_mem_cons.mp numbered
    obtain ⟨ends, settled⟩ := List.forall_mem_cons.mp settled
    rw [List.flatMap_cons, List.flatMap_cons, List.append_assoc, List.append_assoc] at written
    have whole : Whole s.label := by
      cases scanned : scan false s.label with
      | none => exact (read_write_ended own scanned written).elim
      | some after =>
        cases after with
        | false => exact scanned
        | true => exact absurd scanned ends
    obtain ⟨others, later, same⟩ := read_front (read_write own whole) written
    rw [List.append_cancel_left same] at ih
    exact List.forall_mem_cons.mpr ⟨whole, ih numbered settled later⟩

end Statement

/-! ### Descriptions -/

/-- The tokens of a graph with these statements. -/
def document (ss : List Statement) : List Token :=
  [.word "digraph".toList, .word "G".toList, .mark '\x7b'] ++ ss.flatMap Statement.tokens ++
    [.mark '\x7d']

/-- The text consists of the header, the statements in this order and the closing brace. -/
def Describes (text : String) (ss : List Statement) : Prop := tokens text = some (document ss)

instance (text : String) (ss : List Statement) : Decidable (Describes text ss) :=
  inferInstanceAs (Decidable (_ = _))

theorem document_injective {ss ss' : List Statement} (same : document ss = document ss') :
    ss = ss' := by
  have bodies : ss.flatMap Statement.tokens ++ [.mark '\x7d'] =
      ss'.flatMap Statement.tokens ++ [.mark '\x7d'] := by
    simpa only [document, List.append_assoc, List.append_cancel_left_eq] using same
  clear same
  induction ss generalizing ss' with
  | nil =>
    cases ss' with
    | nil => rfl
    | cons s _ => cases s <;> simp [Statement.tokens, Statement.subject] at bodies
  | cons s rest ih =>
    cases ss' with
    | nil => cases s <;> simp [Statement.tokens, Statement.subject] at bodies
    | cons s' rest' =>
      rw [List.flatMap_cons, List.flatMap_cons, List.append_assoc, List.append_assoc] at bodies
      obtain ⟨rfl, others⟩ := Statement.tokens_append bodies
      rw [ih others]

/-- A text describes one list of statements at most. -/
theorem Describes.unique {text : String} {ss ss' : List Statement} (one : Describes text ss)
    (other : Describes text ss') : ss = ss' :=
  document_injective (Option.some.inj (one.symm.trans other))

end GraphTransformation.Dot
