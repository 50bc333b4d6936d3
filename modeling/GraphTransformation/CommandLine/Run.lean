import GraphTransformation.CommandLine.Files
import GraphTransformation.CommandLine.Options
import GraphTransformation.Declaration.Document
import GraphTransformation.Derivation.Summary
import GraphTransformation.Text.Quoted

/-!
The command: derive graphs from a seed graph with a grammar.

The grammar and the seed graph are read from documents, the derivation is
summarised in a table, and its graphs are written to a document if one is asked
for. Everything that a run does is a function of its arguments, of the files it
reads and writes, and of a seed for choices that no seed is given for.
-/

namespace GraphTransformation.CommandLine

/-! ### Failures -/

/-- Why a run fails. -/
inductive Failure where
  /-- A file cannot be opened. -/
  | file (context : String) (fault : FileFault)
  /-- A file does not hold the document that is wanted. -/
  | document (context : String)
  | building (context : String) (cause : Error)
  | derivation (f : DerivationFailure)
  /-- A counter was to go past the last word. -/
  | overflow
  | endless

/-- The text with blanks at the start of every line but the first. -/
def hanging (blanks : String) (text : String) : String :=
  ("\n" ++ blanks).intercalate (text.splitOn "\n")

/-- What is printed about a failure: its context and its causes. -/
def Failure.text : Failure → String
  | .file context fault =>
    s!"Error: {context}\n\nCaused by:\n    0: " ++ hanging "       " s!"I/O error: {fault.text}" ++
      "\n    1: " ++ hanging "       " fault.text ++ "\n"
  | .document context => s!"Error: {context}"
  | .building context cause =>
    s!"Error: {context}\n\nCaused by:\n    " ++ hanging "    " cause.message ++ "\n"
  | .derivation f =>
    s!"Error: {f.message}\n\nCaused by:\n    " ++ hanging "    " f.cause.message ++ "\n"
  | .overflow => "attempt to add with overflow\n"
  | .endless => "Error: the derivation does not end\n"

/-- The exit code of a run that fails. -/
def Failure.exit : Failure → UInt8
  | .overflow => 101
  | _ => 1

/-- The failure to build something that stopped. -/
def Failure.ofStop (context : String) : Stop → Failure
  | .failed cause => .building context cause
  | .overflow => .overflow

/-! ### Run -/

/-- What a run leaves: its exit code and what it printed. -/
structure Outcome where
  exit : UInt8
  output : String
  /-- What it printed about a failure; none for arguments that cannot be read. -/
  errors : Option String

/-- The outcome of a failed run that had printed something. -/
def Outcome.failed (printed : String) (f : Failure) : Outcome := ⟨f.exit, printed, some f.text⟩

/-- The value in a file. -/
def load {α : Type} {m : Type → Type} [Monad m] (files : Files m) (codec : Codec α)
    (context path : String) : m (Except Failure α) := do
  match ← files.read path with
  | .ok bytes =>
    return match codec.decodeBytes bytes with
      | .ok a => .ok a
      | .error _ => .error (.document context)
  -- A directory opens, and then holds no document.
  | .error .isDirectory => return .error (.document context)
  | .error fault => return .error (.file context fault)

/-- The configuration that the options ask for. Only a time limit of zero is
taken to pass; every other one is enough for any search. -/
def Options.config (o : Options) : DerivationConfig :=
  ⟨o.steps, o.matchTimeLimit.map fun ms _ _ _ => if ms = 0 then .past else .never⟩

/-- The derivation that the options ask for. -/
def deriveWith (o : Options) (entropy : UInt64) (grammar : GrammarDeclaration Predicate)
    (seed : GraphDeclaration) : Except Failure (Graph × Derivation) := do
  let grammar := { grammar with seed := o.rngSeed.or grammar.seed }
  let start := (← seed.build.mapError (.ofStop "building seed graph")).graph
  let g ← (grammar.build (.ofSeed entropy)).mapError (.ofStop "building grammar")
  let g := { g with matcher := if o.parallel then .parallel else .backtracking }
  match (g.derive start o.config).1 with
  | .finished d => return (start, d)
  | .failed f => .error (.derivation f)
  | .overflow => .error .overflow
  | .endless => .error .endless

/-- What is printed about a derivation. -/
def summary (d : Derivation) : String :=
  let table := d.table
  (if table.isEmpty then "" else table ++ "\n") ++
    s!"Halted: {d.state.text} after {d.graphs.length} step(s)\n"

/-- Runs the command with options that were read. -/
def runWith {m : Type → Type} [Monad m] (files : Files m) (entropy : UInt64) (o : Options) :
    m Outcome := do
  match ← load files GrammarDeclaration.codec
      s!"loading grammar from {Text.quoted o.grammar}" o.grammar with
  | .error f => return .failed "" f
  | .ok grammar =>
    match ← load files GraphDeclaration.codec
        s!"loading seed graph from {Text.quoted o.seed}" o.seed with
    | .error f => return .failed "" f
    | .ok seed =>
      match deriveWith o entropy (grammar.map .condition) seed with
      | .error f => return .failed "" f
      | .ok (start, d) =>
        let printed := summary d
        match o.output with
        | none => return ⟨0, printed, some ""⟩
        | some path =>
          match ← files.write path (d.document start).pretty with
          | .ok () =>
            return ⟨0, printed ++ s!"Wrote derivation to {Text.quoted path}\n", some ""⟩
          | .error fault =>
            return .failed printed
              (.file s!"writing derivation to {Text.quoted path}" fault)

/-- Runs the command with its arguments. -/
def run {m : Type → Type} [Monad m] (files : Files m) (entropy : UInt64)
    (arguments : List String) : m Outcome :=
  match Options.ofArguments? arguments with
  | none => return ⟨2, "", none⟩
  | some o => runWith files entropy o

end GraphTransformation.CommandLine
