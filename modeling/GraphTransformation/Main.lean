import GraphTransformation.CommandLine.Run

/-!
The program: the command line with the files of the system.
-/

namespace GraphTransformation.CommandLine

/-- The fault that an error of the system stands for. -/
def FileFault.ofSystem : IO.Error → FileFault
  | .noFileOrDirectory .. => .notFound
  | .inappropriateType _ code _ => if code = 20 then .notDirectory else .isDirectory
  | .invalidArgument _ 36 _ => .nameTooLong
  | e => .other (toString e)

/-- The files of the system. -/
def systemFiles : Files IO where
  read path := do
    try return .ok (← IO.FS.readBinFile path)
    catch e => return .error (.ofSystem e)
  write path text := do
    try return .ok (← IO.FS.writeFile path text)
    catch e => return .error (.ofSystem e)

end GraphTransformation.CommandLine

open GraphTransformation.CommandLine in
def main (arguments : List String) : IO UInt32 := do
  let bytes ← IO.getRandomBytes 8
  let entropy := bytes.toList.foldl (fun (n : UInt64) b => n * 256 + b.toUInt64) 0
  let outcome ← run systemFiles entropy arguments
  IO.print outcome.output
  IO.eprint (outcome.errors.getD "error: the arguments cannot be read\n")
  return outcome.exit.toUInt32
