import MiniScript.Compiler.Basic
import MiniScript.World.Host

/-!
# Importing modules

An import binds a module in the scope of the caller. The first import of a name
runs the body of the module on a machine of its own, and later ones give the
value that this left behind. A name whose body is still running cannot be
imported again.
-/

namespace MiniScript

namespace Library

variable {σ : Type}

def refuse (fault : Fault) (world : World σ) : Except RuntimeError Reply × World σ :=
  (.error { fault }, world)

/-- Starts the body of a module on a machine of its own. -/
def startModule (name : String) (scope : ScopeRef) (code : Code) (world : World σ) :
    Except RuntimeError Reply × World σ :=
  let ref := world.nextDeferred
  let load : ModuleLoad := { name, scope, machine := .start code scope }
  let world := { world with loading := name :: world.loading }
  (.ok { answer := .pending ref }, world.addDeferred (some (.module load)))

/-- Asks the host for a module, compiles it and starts it. -/
def loadModule (load : String → World σ → Except String (Option (List Stmt)) × World σ)
    (name : String) (scope : ScopeRef) (world : World σ) : Except RuntimeError Reply × World σ :=
  match load name world with
  | (.error reason, world) => refuse (.importFailed name reason) world
  | (.ok none, world) => refuse (.moduleNotFound name) world
  | (.ok (some stmts), world) =>
      match Compiler.compileModule (some name) name stmts world.heap.functions with
      | .error error => refuse (.importFailed name error.message) world
      | .ok (code, functions) =>
          startModule name scope code
            (world.modifyHeap fun heap => { heap with functions := functions })

def importModule (host : Host σ) (call : Invocation) (world : World σ) :
    Except RuntimeError Reply × World σ :=
  match call.arg 0 with
  | .text name =>
      match world.cachedModule? name with
      | some cached =>
          (.ok { answer := .ready cached },
            world.modifyHeap fun heap => heap.setLocal call.scope name cached)
      | none =>
          if world.loading.contains name then refuse (.circularImport name) world
          else
            match host.load? with
            | none => refuse .noLoader world
            | some load => loadModule load name call.scope world
  | _ => refuse .importName world

/-- The body of a module has ended: its name is free again, and unless it failed the module is
remembered. -/
def finishModule (load : ModuleLoad) (error : Option ScriptError) (world : World σ) :
    Delivery × World σ :=
  let world := { world with loading := world.loading.filter (· ≠ load.name) }
  match error with
  | none =>
      let value := (world.heap.getLocal? load.scope load.name).getD .null
      (.ok value, { world with modules := putNamed world.modules load.name value })
  | some (.runtime error) => (.error error, world)
  | some other => (.error { fault := .library other.message }, world)

end Library

end MiniScript
