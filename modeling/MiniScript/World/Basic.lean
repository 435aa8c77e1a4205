import MiniScript.Config
import MiniScript.Deferred.Basic
import MiniScript.Heap.Map
import MiniScript.Machine.Basic

/-!
# The world that machines share

An interpreter and all its machines share the heap, the global scope, the tables
of methods for each kind of value, the functions that are known everywhere, the
modules, the deferred results and the printed lines. Time is a count of
nanoseconds that passes with every instruction and every pause. The host keeps a
state of its own, of type `σ`.
-/

namespace MiniScript

/-- The tables of methods, one for each kind of value but null. -/
structure CoreTables where
  list : MapRef
  text : MapRef
  number : MapRef
  map : MapRef
  function : MapRef
deriving DecidableEq, Repr

def CoreTables.table? (core : CoreTables) : Kind → Option MapRef
  | .null => none
  | .number => some core.number
  | .text => some core.text
  | .list => some core.list
  | .map => some core.map
  | .function => some core.function

/-- The body of a module that runs on behalf of an import. -/
structure ModuleLoad where
  name : String
  /-- The scope of the importer. -/
  scope : ScopeRef
  machine : Machine

/-- Where a deferred result comes from. -/
inductive Provider where
  /-- Null, from that time on. -/
  | clock (deadline : Nat)
  /-- The host, under a number. -/
  | host (id : Nat)
  | module (load : ModuleLoad)

structure World (σ : Type) where
  heap : Heap
  limits : Limits
  globals : ScopeRef
  core : CoreTables
  /-- The functions that are known in every scope, by name. -/
  intrinsics : List (String × Value) := []
  /-- The modules that have been imported. -/
  modules : List (String × Value) := []
  /-- The modules whose bodies are running. -/
  loading : List String := []
  deferreds : Array (Deferred Provider) := #[]
  /-- How often a machine has begun to wait. -/
  suspensions : Nat := 0
  output : Array String := #[]
  clock : Nat := 0
  host : σ

namespace World

variable {σ : Type}

def modifyHeap (world : World σ) (change : Heap → Heap) : World σ :=
  { world with heap := change world.heap }

def print (world : World σ) (line : String) : World σ :=
  { world with output := world.output.push line }

def pass (world : World σ) (nanoseconds : Nat) : World σ :=
  { world with clock := world.clock + nanoseconds }

/-- The seconds since the world began. -/
def elapsed (world : World σ) : Float :=
  Float.ofNat world.clock / 1e9

/-- A function that is known in every scope. -/
def intrinsic? (world : World σ) (name : String) : Option Value :=
  world.intrinsics.lookup name

/-- A name: the scope and the scopes around it first, then what is known everywhere. -/
def resolve? (world : World σ) (scope : ScopeRef) (name : String) : Option Value :=
  match world.heap.lookup? scope name with
  | some value => some value
  | none => world.intrinsic? name

def cachedModule? (world : World σ) (name : String) : Option Value :=
  world.modules.lookup name

def deferred (world : World σ) (ref : DeferredRef) : Deferred Provider :=
  world.deferreds[ref.index]?.getD {}

def modifyDeferred (world : World σ) (ref : DeferredRef)
    (change : Deferred Provider → Deferred Provider) : World σ :=
  { world with deferreds := world.deferreds.modify ref.index change }

/-- The reference that the next deferred result will have. -/
def nextDeferred (world : World σ) : DeferredRef :=
  ⟨world.deferreds.size⟩

def addDeferred (world : World σ) (provider : Option Provider) : World σ :=
  { world with deferreds := world.deferreds.push { source := provider } }

/-- Whether the waiting machine has been told that its result is there. -/
def isWoken (world : World σ) (wait : Wait) : Bool :=
  (world.deferred wait.deferred).woken.contains wait.waiter

theorem deferred_modifyDeferred_of_ne (world : World σ) (ref other : DeferredRef)
    (change : Deferred Provider → Deferred Provider) (apart : other ≠ ref) :
    (world.modifyDeferred ref change).deferred other = world.deferred other := by
  have index : ref.index ≠ other.index := fun same => apart (by
    cases ref; cases other; simp_all)
  simp [modifyDeferred, deferred, Array.getElem?_modify, index]

theorem deferred_nextDeferred (world : World σ) (provider : Option Provider) :
    (world.addDeferred provider).deferred world.nextDeferred = { source := provider } := by
  simp [addDeferred, deferred, nextDeferred]

end World

/-- Puts `value` under `name`, in place of an earlier one. -/
def putNamed (entries : List (String × Value)) (name : String) (value : Value) :
    List (String × Value) :=
  match entries with
  | [] => [(name, value)]
  | (known, old) :: rest =>
      if known = name then (name, value) :: rest else (known, old) :: putNamed rest name value

theorem lookup_putNamed (entries : List (String × Value)) (name : String) (value : Value) :
    (putNamed entries name value).lookup name = some value := by
  induction entries with
  | nil => simp [putNamed]
  | cons entry rest ih =>
      obtain ⟨known, old⟩ := entry
      unfold putNamed
      split
      · simp
      · rename_i apart
        have differs : (name == known) = false := by
          simpa using fun same => apart same.symm
        simp [List.lookup_cons, differs, ih]

end MiniScript
