import CallFlow.Command

/-!
# Command line

Reads the workspace file, carries one command out, and writes the file back if it has changed.
-/

namespace CallFlow

/-- What is found under the name of a file. -/
def probe (path : String) : IO FileState := do
  try
    return .ofBytes (← IO.FS.readBinFile path)
  catch
    | .noFileOrDirectory _ _ _ => return .absent
    | _ => return .folder

/-- A supply of identifiers that starts at random. -/
def randomIds : IO IdSupply := do
  let bytes ← IO.getRandomBytes 16
  return .ofSeed (bytes.foldl (fun n b => n * 256 + b.toNat) 0)

/-- Runs the command line on a file. -/
def runOn (path : String) (args : List String) : IO UInt32 := do
  let file ← probe path
  let ids ← randomIds
  let outcome := Command.run path ids file args
  if outcome.file ≠ file then
    if let .text content := outcome.file then
      IO.FS.writeFile path content
  IO.print outcome.stdout
  IO.eprint outcome.stderr
  return outcome.code.toUInt32

end CallFlow

def main (args : List String) : IO UInt32 :=
  match args with
  | path :: args => CallFlow.runOn path args
  | [] => CallFlow.runOn "" []
