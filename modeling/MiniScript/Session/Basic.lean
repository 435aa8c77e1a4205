import MiniScript.Debugger
import MiniScript.Session.Fixture

/-!
# Sessions

A session is one interpreter under a host that follows a script, together with
compiled programs, machines and debuggers, each known by a name.
-/

namespace MiniScript

/-- A machine, driven by hand or by a debugger. -/
inductive Runner where
  | byHand (machine : Machine)
  | debugged (debugger : Debugger)

def Runner.machine : Runner → Machine
  | .byHand machine => machine
  | .debugged debugger => debugger.machine

/-- The runner with its machine replaced. -/
def Runner.withMachine (runner : Runner) (machine : Machine) : Runner :=
  match runner with
  | .byHand _ => .byHand machine
  | .debugged debugger => .debugged { debugger with machine }

structure Session where
  stage : Fixture.Stage
  host : Host Fixture
  /-- The name that code compiled from now on gets. -/
  sourceName : Option String := none
  codes : List (String × Code) := []
  runners : List (String × Runner) := []

namespace Session

/-- A session in which nothing has happened yet. The modules may be missing altogether. -/
def start (limits : Limits) (sourceName : Option String)
    (modules : Option (List (String × String))) : Session where
  stage := .initial limits { modules := modules.getD [] }
  host := Fixture.host modules.isSome
  sourceName

/-- Puts an entry under a name, in place of an earlier one. -/
def put {α : Type} (entries : List (String × α)) (name : String) (value : α) :
    List (String × α) :=
  (name, value) :: entries.filter fun entry => entry.1 != name

/-- Compiles a text, as a program or as a module. -/
def compile (session : Session) (module : Option String) (source : String) :
    Except ScriptError Code × Session :=
  let (result, stage) :=
    match module with
    | none => Interpreter.compileSource session.host session.sourceName source session.stage
    | some module =>
        match Program.parse source with
        | .ok stmts =>
            Interpreter.compileModule session.host session.sourceName module stmts session.stage
        | .error error => (.error (.parse error), session.stage)
  (result, { session with stage })

def storeCode (session : Session) (name : String) (code : Code) : Session :=
  { session with codes := put session.codes name code }

/-- Code that was stored under a name, or else code compiled from a text. -/
def codeFor (session : Session) (stored : Option String) (module : Option String)
    (source : String) : Except ScriptError Code × Session :=
  match stored.bind fun name => session.codes.lookup name with
  | some code => (.ok code, session)
  | none => session.compile module source

/-- Runs code to its end, in at most `fuel` bursts. -/
def run (session : Session) (fuel : Nat) (code : Code) : Option ScriptError × Session :=
  let host := session.host
  let (error, stage) := Interpreter.run host fuel code session.stage
  (error, { session with stage })

def runner? (session : Session) (name : String) : Option Runner :=
  session.runners.lookup name

/-- Forgets a runner; a module that it waits for is given up. -/
def drop (session : Session) (name : String) : Session :=
  match session.runner? name with
  | none => session
  | some runner =>
      { session with
        stage := session.stage.release runner.machine
        runners := session.runners.filter fun entry => entry.1 != name }

/-- Puts a runner under a name; an earlier one of that name is dropped. -/
def addRunner (session : Session) (name : String) (runner : Runner) : Session :=
  let session := session.drop name
  { session with runners := (name, runner) :: session.runners }

def spawn (session : Session) (name : String) (code : Code) : Session :=
  session.addRunner name (.byHand (Interpreter.spawn code session.stage))

/-- Starts a debugger, with a budget of its own if one is given. -/
def debug (session : Session) (name : String) (code : Code) (budget : Option Nat) : Session :=
  let debugger := Debugger.start (Interpreter.spawn code session.stage) session.stage
  session.addRunner name (.debugged (match budget with
    | some budget => debugger.withBudget budget
    | none => debugger))

/-- Drives the machine of a runner. -/
def onMachine (session : Session) (name : String) (runner : Runner)
    (drive : Host Fixture → Machine → Fixture.Stage → Turn Fixture) :
    Machine × Option ScriptError × Session :=
  let turn := drive session.host runner.machine session.stage
  (turn.machine, turn.error,
    { session with
      stage := turn.world
      runners := put session.runners name (runner.withMachine turn.machine) })

/-- Gives a command to a debugger. -/
def onDebugger (session : Session) (name : String) (debugger : Debugger)
    (command : Host Fixture → Debugger → Fixture.Stage → DebugTurn Fixture) :
    DebugTurn Fixture × Session :=
  let turn := command session.host debugger session.stage
  (turn,
    { session with
      stage := turn.world
      runners := put session.runners name (.debugged turn.debugger) })

/-- The variables of the global scope, in the order of their first assignment. -/
def globals (session : Session) : List Entry :=
  session.stage.heap.entries (session.stage.heap.vars session.stage.globals)

/-- The map in a global variable, or the global variables themselves. -/
def mapNamed? (session : Session) (name : Option String) : Option MapRef :=
  match name with
  | none => some (session.stage.heap.vars session.stage.globals)
  | some name =>
      match Interpreter.global? session.stage name with
      | some (.map map) => some map
      | _ => none

def onStage (session : Session) (change : Fixture.Stage → Fixture.Stage) : Session :=
  { session with stage := change session.stage }

/-- The events since the last time they were taken. -/
def events (session : Session) : List Event :=
  session.stage.host.log.reverse

def clearEvents (session : Session) : Session :=
  session.onStage fun stage => Fixture.modify stage fun fixture => { fixture with log := [] }

end Session

end MiniScript
