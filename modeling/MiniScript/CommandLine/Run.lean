import MiniScript.CommandLine.Arguments
import MiniScript.CommandLine.Disk
import MiniScript.Debugger
import MiniScript.Interpreter
import MiniScript.Json.Writer
import MiniScript.Program.Document

/-!
# The command line

Runs a script, or shows its tree. What is read from files is asked for by path;
a run that meets a path of which nothing is known yet names it and can be started
again with an answer, which changes nothing of what went before.
-/

namespace MiniScript.CommandLine

/-- What can be read, as far as that is known. -/
abbrev Files := String → Option Reading

structure Outcome where
  code : Nat
  output : List String := []
  errors : List String := []

inductive Result where
  | done (outcome : Outcome)
  | needs (path : String)

/-- What the host of a script remembers: the first path of which nothing was known. -/
structure Desk where
  wanted : Option String := none

/-- A failure with one line of explanation, after some lines of output. -/
def failed (message : String) (output : List String) : Result :=
  .done { code := 1, output, errors := [message] }

def readFailure (path : String) (fault : FileFault) : String :=
  "error reading " ++ path ++ ": " ++ fault.message

/-- Goes on with the text of a file. -/
def withFile (files : Files) (path : String) (use : String → Result) : Result :=
  match files path with
  | none => .needs path
  | some (.error fault) => failed (readFailure path fault) []
  | some (.ok text) => use text

/-- The statements of the module in a file. -/
def readModule (path text : String) : Except String (Option (List Stmt)) :=
  match Program.parse text with
  | .ok stmts => .ok (some stmts)
  | .error error => .error (path ++ ": " ++ error.message)

/-- Finds modules beside the script. -/
def loadModule (files : Files) (folder name : String) (world : World Desk) :
    Except String (Option (List Stmt)) × World Desk :=
  let path := Path.join folder (name ++ ".ms")
  match files path with
  | none => (.ok none, { world with host := { wanted := some (world.host.wanted.getD path) } })
  | some (.ok text) => (readModule path text, world)
  | some (.error (.other reason)) => (.error (readFailure path (.other reason)), world)
  | some (.error _) => (.ok none, world)

def host (files : Files) (folder : String) : Host Desk :=
  { Host.silent with load? := some (loadModule files folder) }

/-- Steps from line to line to the end, in at most `fuel` commands. -/
def traceLines (host : Host Desk) : Nat → DebugTurn Desk → Option ScriptError × World Desk
  | 0, turn => (none, turn.world)
  | fuel + 1, turn =>
      match turn.result with
      | .error error => (some error, turn.world)
      | .ok .finished => (none, turn.world)
      | .ok .paused => traceLines host fuel (turn.debugger.stepOver host turn.world)
      | .ok .running => traceLines host fuel (turn.debugger.poll host turn.world)
      | .ok .suspended =>
          traceLines host fuel (turn.debugger.poll host (turn.world.pass 1000000))

/-- Runs code, by lines or at once. -/
def runCode (host : Host Desk) (fuel : Nat) (byLines : Bool) (code : Code) (world : World Desk) :
    Option ScriptError × World Desk :=
  if byLines then
    let debugger := Debugger.start (Interpreter.spawn code world) world
    traceLines host fuel (debugger.stepOver host world)
  else Interpreter.run host fuel code world

/-- What a run has come to. -/
def conclude (error : Option ScriptError) (world : World Desk) : Result :=
  match world.host.wanted, error with
  | some path, _ => .needs path
  | none, some error => failed error.message world.output.toList
  | none, none => .done { code := 0, output := world.output.toList }

/-- Compiles and runs the statements of a script. -/
def runProgram (files : Files) (fuel : Nat) (path : String) (byLines : Bool) (limits : Limits)
    (stmts : List Stmt) : Result :=
  let host := host files (Path.folder path)
  match Interpreter.compile host (some path) stmts (.initial limits {}) with
  | (.error error, _) => failed error.message []
  | (.ok code, world) =>
      let (error, world) := runCode host fuel byLines code world
      conclude error world

/-- Goes on with the limits of a file, or with the usual ones. -/
def withLimits (files : Files) (config : Option String) (use : Limits → Result) : Result :=
  match config with
  | none => use {}
  | some path =>
      withFile files path fun text =>
        match Limits.read? text with
        | some limits => use limits
        | none => failed ("invalid config " ++ path ++ ": expected an object of known limits") []

/-- Runs a script, or shows its tree. -/
def runFile (files : Files) (fuel : Nat) (path : String) (arguments : Arguments) : Result :=
  withFile files path fun text =>
    match Program.parse text with
    | .error error => failed (path ++ ": " ++ error.message) []
    | .ok stmts =>
        if arguments.ast then
          .done { code := 0, output := [(Program.toJson Program.plainNumber stmts).pretty] }
        else
          withLimits files arguments.config fun limits =>
            let limits := match arguments.maxDepth with
              | some depth => limits.adjust .maxCallDepth depth
              | none => limits
            runProgram files fuel path arguments.traceLines limits stmts

/-- The text that explains the command line. -/
def usage : List String :=
  ["Run a MiniScript program",
    "",
    "Usage: ms [OPTIONS] <FILE>",
    "",
    "Arguments:",
    "  <FILE>  Script to run",
    "",
    "Options:",
    "      --ast                    Print the parsed syntax tree as JSON instead of running",
    "      --trace-lines            Step through the program and log each line as it is reached",
    "      --config <CONFIG>        JSON file with VM limits",
    "      --max-depth <MAX_DEPTH>  Maximum call depth (overrides the config file)",
    "  -h, --help                   Print help"]

/-- What the command line does with its arguments, in at most `fuel` bursts or commands. -/
def run (files : Files) (fuel : Nat) (arguments : List String) : Result :=
  match Arguments.read {} arguments with
  | .run path arguments => runFile files fuel path arguments
  | .help => .done { code := 0, output := usage }
  | .invalid => .done { code := 2, errors := ["Usage: ms [OPTIONS] <FILE>"] }

end MiniScript.CommandLine
