import MiniScript.Library.Install
import MiniScript.Machine.Drive
import MiniScript.Program.Parser

/-!
# Compiling and running programs

The host hears when a program has been compiled, when it starts and ends, when a
burst ends while it goes on, and of every error.
-/

namespace MiniScript

namespace Interpreter

variable {σ : Type}

/-- Tells the host of an error and passes it on. -/
def report {α : Type} (host : Host σ) (error : ScriptError) (world : World σ) :
    Except ScriptError α × World σ :=
  (.error error, host.notify (.failed error) world)

/-- Takes over the definitions of compiled code and tells the host. -/
def adopt (host : Host σ) (compiled : Except CompileError (Code × Array Definition))
    (world : World σ) : Except ScriptError Code × World σ :=
  match compiled with
  | .ok (code, functions) =>
      (.ok code, host.notify (.compiled code.size)
        (world.modifyHeap fun heap => { heap with functions }))
  | .error error => report host (.compile error) world

/-- The code of a program. -/
def compile (host : Host σ) (sourceName : Option String) (stmts : List Stmt) (world : World σ) :
    Except ScriptError Code × World σ :=
  adopt host (Compiler.compileProgram sourceName stmts world.heap.functions) world

/-- The code of a program given by its text. -/
def compileSource (host : Host σ) (sourceName : Option String) (source : String)
    (world : World σ) : Except ScriptError Code × World σ :=
  match Program.parse source with
  | .ok stmts => compile host sourceName stmts world
  | .error error => report host (.parse error) world

/-- The code that runs statements as a module and binds it to its name. -/
def compileModule (host : Host σ) (sourceName : Option String) (module : String)
    (stmts : List Stmt) (world : World σ) : Except ScriptError Code × World σ :=
  adopt host (Compiler.compileModule sourceName module stmts world.heap.functions) world

/-- A machine for code in the global scope. -/
def spawn (code : Code) (world : World σ) : Machine :=
  .start code world.globals

/-- Runs code in the global scope to its end, in at most `fuel` bursts. -/
def run (host : Host σ) (fuel : Nat) (code : Code) (world : World σ) :
    Option ScriptError × World σ :=
  let world := host.notify .started world
  let turn := (spawn code world).drive host (host.notify .yielded) fuel world
  let world := match turn.error with
    | some error => host.notify (.failed error) turn.world
    | none => turn.world
  (turn.error, host.notify .finished world)

/-- Compiles and runs the text of a program. -/
def runSource (host : Host σ) (fuel : Nat) (sourceName : Option String) (source : String)
    (world : World σ) : Option ScriptError × World σ :=
  match compileSource host sourceName source world with
  | (.ok code, world) => run host fuel code world
  | (.error error, world) => (some error, world)

def global? (world : World σ) (name : String) : Option Value :=
  world.heap.getLocal? world.globals name

/-- Sets a global variable without announcing the write. -/
def setGlobal (name : String) (value : Value) (world : World σ) : World σ :=
  let globals := world.globals
  world.modifyHeap fun heap => heap.setLocal globals name value

end Interpreter

end MiniScript
