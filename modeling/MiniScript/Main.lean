import MiniScript.CommandLine.Run

/-!
# The program

Reads the files that a run asks for and prints what it has come to.
-/

namespace MiniScript.CommandLine

/-- Why a file could not be read. A folder can be opened, so it fails without its name. -/
def faultOf : IO.Error → FileFault
  | .noFileOrDirectory .. => .notFound
  | .inappropriateType none .. => .isAFolder
  | .inappropriateType (some _) .. => .notAFolder
  | .invalidArgument .. => .nameTooLong
  | .permissionDenied .. => .other "Permission denied (os error 13)"
  | .userError _ => .other "stream did not contain valid UTF-8"
  | error => .other (toString error)

/-- Reads one file. -/
def readPath (path : String) : IO Reading := do
  try
    return .ok (← IO.FS.readFile path)
  catch error => return .error (faultOf error)

/-- Runs until all files that the run asks for have been read. -/
partial def runWith (known : List (String × Reading)) (arguments : List String) : IO Outcome := do
  match run (fun path => known.lookup path) 1000000000000000000 arguments with
  | .done outcome => return outcome
  | .needs path => runWith ((path, ← readPath path) :: known) arguments

end MiniScript.CommandLine

def main (arguments : List String) : IO UInt32 := do
  let outcome ← MiniScript.CommandLine.runWith [] arguments
  for line in outcome.output do
    IO.println line
  for line in outcome.errors do
    IO.eprintln line
  return UInt32.ofNat outcome.code
