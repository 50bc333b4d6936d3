import GraphTransformation.Decimal.Reading

/-!
The options of the command line.

An option is given as `--name value`, `--name=value`, `-n value` or `-nvalue`;
short flags may stand together. Each option may be given once. A value after a
blank must not look like an option itself.
-/

namespace GraphTransformation.CommandLine

/-- What the command line asks for. -/
structure Options where
  grammar : String
  seed : String
  /-- The bound on the number of steps; zero means none. -/
  steps : Nat
  rngSeed : Option UInt64
  /-- The time for each search, in milliseconds. -/
  matchTimeLimit : Option Nat
  parallel : Bool
  output : Option String
  deriving DecidableEq, Repr

/-- The options that take a value. -/
inductive Key where
  | grammar
  | seed
  | steps
  | rngSeed
  | matchTimeLimit
  | output
  deriving DecidableEq, Repr

/-- What is given on the command line. -/
structure Given where
  values : List (Key × String)
  parallel : Bool
  deriving DecidableEq, Repr

/-! ### Names -/

/-- The option with this long name. -/
def Key.ofLong : String → Option Key
  | "grammar" => some .grammar
  | "seed" => some .seed
  | "steps" => some .steps
  | "rng-seed" => some .rngSeed
  | "match-time-limit" => some .matchTimeLimit
  | "output" => some .output
  | _ => none

/-- The option with this letter. -/
def Key.ofLetter : Char → Option Key
  | 'g' => some .grammar
  | 's' => some .seed
  | 'n' => some .steps
  | 'r' => some .rngSeed
  | 't' => some .matchTimeLimit
  | 'o' => some .output
  | _ => none

/-! ### Arguments -/

/-- Records a value; an option given twice is refused. -/
def Given.add (g : Given) (key : Key) (value : String) : Option Given :=
  if g.values.any (·.1 == key) then none else some { g with values := (key, value) :: g.values }

/-- Records the flag for the parallel search; given twice it is refused. -/
def Given.addParallel (g : Given) : Option Given :=
  if g.parallel then none else some { g with parallel := true }

/-- Whether an argument may be the value of the option before it. -/
def isValue (arg : String) : Bool :=
  match arg.toList with
  | '-' :: _ :: _ => false
  | _ => true

/-- Records what one argument gives, or names the option whose value is the next argument. -/
inductive Reading where
  | done (g : Given)
  | awaiting (g : Given) (key : Key)

/-- The flags and the option in an argument after a single dash. -/
def readLetters (g : Given) : List Char → Option Reading
  | [] => some (.done g)
  | 'p' :: rest => do readLetters (← g.addParallel) rest
  | c :: rest => do
    let key ← Key.ofLetter c
    match rest with
    | [] => return .awaiting g key
    | '=' :: value => return .done (← g.add key (String.ofList value))
    | value => return .done (← g.add key (String.ofList value))

/-- The option in an argument after a double dash. -/
def readLong (g : Given) (cs : List Char) : Option Reading :=
  let name := String.ofList (cs.takeWhile (· != '='))
  match cs.dropWhile (· != '=') with
  | '=' :: value => do
    let key ← Key.ofLong name
    return .done (← g.add key (String.ofList value))
  | _ =>
    if name == "parallel" then g.addParallel.map .done
    else (Key.ofLong name).map (.awaiting g)

/-- Reads the arguments one after another. -/
def readArguments (g : Given) : List String → Option Given
  | [] => some g
  | arg :: rest =>
    match arg.toList with
    | ['-', '-'] => if rest.isEmpty then some g else none
    | '-' :: '-' :: cs =>
      match readLong g cs, rest with
      | some (.done g), rest => readArguments g rest
      | some (.awaiting g key), value :: rest =>
        if isValue value then (g.add key value).bind (readArguments · rest) else none
      | _, _ => none
    | '-' :: c :: cs =>
      match readLetters g (c :: cs), rest with
      | some (.done g), rest => readArguments g rest
      | some (.awaiting g key), value :: rest =>
        if isValue value then (g.add key value).bind (readArguments · rest) else none
      | _, _ => none
    | _ => none

/-! ### Values -/

/-- An unsigned 64-bit number in decimal, with or without a plus sign. -/
def number? (text : String) : Option Nat :=
  let digits := match text.toList with
    | '+' :: rest => rest
    | cs => cs
  if digits.isEmpty || !digits.all Char.isDigit then none
  else
    let n := Decimal.natOfDigits digits
    if n < UInt64.size then some n else none

/-- A path, which must not be empty. -/
def path? (text : String) : Option String := if text.isEmpty then none else some text

/-- The value of an option, if it is given; one that cannot be read is refused. -/
def Given.read {α : Type} (g : Given) (key : Key) (read : String → Option α) : Option (Option α) :=
  match g.values.find? (·.1 == key) with
  | none => some none
  | some (_, text) => (read text).map some

/-- The options that the arguments give, unless there is something wrong with them. -/
def Options.ofArguments? (arguments : List String) : Option Options := do
  let given ← readArguments ⟨[], false⟩ arguments
  let grammar ← ← given.read .grammar path?
  let seed ← ← given.read .seed path?
  let steps ← given.read .steps number?
  let rngSeed ← given.read .rngSeed number?
  let matchTimeLimit ← given.read .matchTimeLimit number?
  let output ← given.read .output path?
  return { grammar, seed, steps := steps.getD 0, rngSeed := rngSeed.map (·.toUInt64),
           matchTimeLimit, parallel := given.parallel, output }

end GraphTransformation.CommandLine
