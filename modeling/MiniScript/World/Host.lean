import MiniScript.Program.Tree
import MiniScript.World.Basic

/-!
# Hosts

A host embeds the interpreter. It gives natives of its own, results that come
later, interceptors that hear of writes to a map, and the source of modules; and
it is told what the interpreter does. Each of these may read and change the
world.
-/

namespace MiniScript

/-- One call of a native function: its arguments with the defaults filled in, and the scope of the
caller. -/
structure Invocation where
  definition : Definition
  args : List Value
  scope : ScopeRef

namespace Invocation

/-- An argument by position; null beyond the last. -/
def arg (invocation : Invocation) (index : Nat) : Value :=
  invocation.args[index]?.getD .null

/-- An argument by the name of its parameter; null for an unknown name. -/
def argNamed (invocation : Invocation) (name : String) : Value :=
  match invocation.definition.params.findIdx? fun param => param.name == name with
  | some index => invocation.arg index
  | none => .null

def name (invocation : Invocation) : String :=
  invocation.definition.displayName

def paramName (invocation : Invocation) (index : Nat) : String :=
  match invocation.definition.params[index]? with
  | some param => param.name
  | none => "?"

/-- An argument that has to be a number; null counts as zero. -/
def number (invocation : Invocation) (index : Nat) : Except Fault Float :=
  match invocation.arg index with
  | .number value => .ok value
  | .null => .ok 0.0
  | other => .error (.notANumber invocation.name (invocation.paramName index) other.kind)

end Invocation

/-- What a native answers. -/
inductive Answer where
  | ready (value : Value)
  | pending (deferred : DeferredRef)

/-- The answer of a native, and whether it asks to end the burst. -/
structure Reply where
  answer : Answer
  yields : Bool := false

/-- What a host is told. -/
inductive Notice where
  | compiled (size : Nat)
  | started
  | finished
  | failed (error : ScriptError)
  /-- A burst has ended and the program goes on. -/
  | yielded
  /-- A debugged program has reached a line. -/
  | reached (location : Location)
  | debuggeeFinished

structure Host (σ : Type) where
  call : Nat → Invocation → World σ → Except RuntimeError Reply × World σ
  poll : Nat → World σ → Option Delivery × World σ
  intercept : Nat → Value → Value → World σ → Except RuntimeError Unit × World σ
  /-- The statements of a module, nothing when there is no such module, or why it cannot be had. -/
  load? : Option (String → World σ → Except String (Option (List Stmt)) × World σ)
  notify : Notice → World σ → World σ

/-- A host without natives and modules that listens to nothing. -/
def Host.silent {σ : Type} : Host σ where
  call _ _ world := (.ok ⟨.ready .null, false⟩, world)
  poll _ world := (some (.ok .null), world)
  intercept _ _ _ world := (.ok (), world)
  load? := none
  notify _ world := world

namespace World

variable {σ : Type}

/-- Stores under a key. An interceptor of the key hears of it first and can refuse. -/
def store (host : Host σ) (map : MapRef) (key value : Value) (world : World σ) :
    Except RuntimeError Unit × World σ :=
  match world.heap.interceptor? map key with
  | none => (.ok (), world.modifyHeap fun heap => heap.insert map key value)
  | some id =>
      match host.intercept id key value world with
      | (.ok _, world) => (.ok (), world.modifyHeap fun heap => heap.insert map key value)
      | (.error error, world) => (.error error, world)

theorem store_of_no_interceptor (host : Host σ) {map : MapRef} {key : Value} {world : World σ}
    (free : world.heap.interceptor? map key = none) (value : Value) :
    world.store host map key value =
      (.ok (), world.modifyHeap fun heap => heap.insert map key value) := by
  simp [store, free]

end World

end MiniScript
