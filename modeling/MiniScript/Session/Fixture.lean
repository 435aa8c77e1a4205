import MiniScript.Function.Signature
import MiniScript.Interpreter
import MiniScript.Session.Event
import MiniScript.Session.Recipe

/-!
# A host that follows a script

Its natives, deferred results and interceptors are described by data, its modules
are texts, and it records everything it hears.
-/

namespace MiniScript

/-- What will be delivered: a value that is made then, or an error. -/
abbrev Promise := Except RuntimeError Recipe

/-- What a native of the script does. -/
inductive Native where
  /-- Answers null. -/
  | nothing
  /-- Answers the list of its arguments. -/
  | arguments
  | named (param : String)
  /-- Answers an argument that has to be a number. -/
  | number (index : Nat)
  /-- Prints its name and its first argument. -/
  | print
  /-- Answers how often it has been called; it has been called that often already. -/
  | tick (count : Nat)
  /-- Ends the burst and answers its first argument. -/
  | yield
  | fail (message : String)
  /-- Sets a variable of the caller to its first argument. -/
  | assign (var : String)
  /-- Answers with a new deferred result each time. -/
  | pending
  /-- Answers with the same deferred result each time. -/
  | handle (ref : DeferredRef)
  /-- Answers with a new deferred result each time, which resolves itself in the given round. -/
  | poll (rounds : Nat) (promise : Promise)

/-- A deferred result that resolves itself. -/
structure ScriptedPoll where
  /-- How often it has been looked for. -/
  seen : Nat := 0
  /-- The round in which it is there. -/
  rounds : Nat
  promise : Promise

/-- Whether the next round is the one. -/
def ScriptedPoll.isDue (poll : ScriptedPoll) : Bool :=
  poll.rounds ≤ poll.seen + 1

/-- What an interceptor does after it has recorded the write. -/
inductive InterceptMode where
  | reject
  /-- Stores the value under another key of the map. -/
  | shadow
  | observe
deriving DecidableEq, Repr

def InterceptMode.ofName : String → InterceptMode
  | "reject" => .reject
  | "shadow" => .shadow
  | _ => .observe

/-- The state of the host. -/
structure Fixture where
  natives : Array Native := #[.nothing]
  polls : Array ScriptedPoll := #[]
  interceptors : Array (MapRef × InterceptMode) := #[]
  /-- The deferred results that can be completed from outside. -/
  handles : Array DeferredRef := #[]
  /-- The texts of the modules, by name. -/
  modules : List (String × String) := []
  /-- The latest event first. -/
  log : List Event := []

namespace Fixture

/-- The world of a host that follows a script. -/
abbrev Stage := World Fixture

def modify (stage : Stage) (change : Fixture → Fixture) : Stage :=
  { stage with host := change stage.host }

def record (event : Event) (stage : Stage) : Stage :=
  modify stage fun fixture => { fixture with log := event.record fixture.log }

/-- Adds a deferred result that can be completed from outside. -/
def addHandle (stage : Stage) : Stage :=
  let ref := stage.nextDeferred
  modify (stage.addDeferred none) fun fixture =>
    { fixture with handles := fixture.handles.push ref }

/-- Adds a deferred result that resolves itself. -/
def addPoll (rounds : Nat) (promise : Promise) (stage : Stage) : Stage :=
  let id := stage.host.polls.size
  modify (stage.addDeferred (some (.host id))) fun fixture =>
    { fixture with polls := fixture.polls.push { rounds, promise } }

def ready (value : Value) (stage : Stage) : Except RuntimeError Reply × Stage :=
  (.ok { answer := .ready value }, stage)

/-- Calls a native. -/
def perform (id : Nat) (native : Native) (call : Invocation) (stage : Stage) :
    Except RuntimeError Reply × Stage :=
  match native with
  | .nothing => ready .null stage
  | .arguments =>
      let draft := Draft.list call.args.toArray
      let value := draft.valueIn stage.heap
      ready value (stage.modifyHeap draft.addTo)
  | .named param => ready (call.argNamed param) stage
  | .number index =>
      match call.number index with
      | .ok value => ready (.number value) stage
      | .error fault => (.error { fault }, stage)
  | .print =>
      let line := call.name ++ ": " ++ stage.heap.display (call.arg 0)
      ready .null (stage.print line)
  | .tick count =>
      ready (.number (Number.ofCount (count + 1))) (modify stage fun fixture =>
        { fixture with natives := fixture.natives.setIfInBounds id (.tick (count + 1)) })
  | .yield => (.ok { answer := .ready (call.arg 0), yields := true }, stage)
  | .fail message => (.error { fault := .library message }, stage)
  | .assign var =>
      ready .null (stage.modifyHeap fun heap => heap.setLocal call.scope var (call.arg 0))
  | .pending =>
      let ref := stage.nextDeferred
      (.ok { answer := .pending ref }, addHandle stage)
  | .handle ref => (.ok { answer := .pending ref }, stage)
  | .poll rounds promise =>
      let ref := stage.nextDeferred
      (.ok { answer := .pending ref }, addPoll rounds promise stage)

/-- Makes what was promised. -/
def deliver (promise : Promise) (stage : Stage) : Delivery × Stage :=
  match promise with
  | .ok recipe =>
      let (value, heap) := recipe.build stage.heap
      (.ok value, { stage with heap })
  | .error error => (.error error, stage)

/-- Looks for a result. -/
def look (id : Nat) (stage : Stage) : Option Delivery × Stage :=
  match stage.host.polls[id]? with
  | none => (none, stage)
  | some poll =>
      let stage := modify stage fun fixture =>
        { fixture with polls := fixture.polls.setIfInBounds id { poll with seen := poll.seen + 1 } }
      let stage := record (.polled (poll.seen + 1)) stage
      if poll.isDue then
        let (delivery, stage) := deliver poll.promise stage
        (some delivery, stage)
      else (none, stage)

/-- Hears of a write. -/
def intercept (id : Nat) (key value : Value) (stage : Stage) : Except RuntimeError Unit × Stage :=
  let stage := record (.wrote (stage.heap.repr key) (stage.heap.repr value)) stage
  match stage.host.interceptors[id]? with
  | some (_, .reject) => (.error { fault := .library "rejected" }, stage)
  | some (map, .shadow) =>
      (.ok (), stage.modifyHeap fun heap => heap.insertNamed map "shadow" value)
  | _ => (.ok (), stage)

/-- The statements of a module text. A text can also say why the module cannot be had. -/
def readModule (text : String) : Except String (Option (List Stmt)) :=
  match Text.afterLead? "!err ".toList text.toList with
  | some reason => .error (String.ofList reason)
  | none =>
      match Program.parse text with
      | .ok stmts => .ok (some stmts)
      | .error error => .error error.message

def load (name : String) (stage : Stage) : Except String (Option (List Stmt)) × Stage :=
  let stage := record (.loading name) stage
  match stage.host.modules.lookup name with
  | none => (.ok none, stage)
  | some text => (readModule text, stage)

/-- The host; it may be one without modules. -/
def host (hasModules : Bool) : Host Fixture where
  call id call stage := perform id (stage.host.natives[id]?.getD .nothing) call stage
  poll := look
  intercept := intercept
  load? := if hasModules then some load else none
  notify notice stage := record (.ofNotice notice) stage

/-- Adds a native under the name in its signature, in place of an earlier function of that name. -/
def register (signature : Signature) (native : Native) (stage : Stage) : Stage :=
  let id := stage.host.natives.size
  let ref : FunctionRef := ⟨stage.heap.functions.size⟩
  let definition : Definition :=
    { name := some signature.name, params := signature.params, body := .host id }
  let stage := modify stage fun fixture =>
    { fixture with natives := fixture.natives.push native }
  let stage := stage.modifyHeap fun heap =>
    { heap with functions := heap.functions.push definition }
  { stage with
    intrinsics := putNamed stage.intrinsics signature.name (.function ⟨ref, none⟩) }

/-- Has writes to a key of a map recorded. -/
def addInterceptor (map : MapRef) (key : Value) (mode : InterceptMode) (stage : Stage) : Stage :=
  let id := stage.host.interceptors.size
  let stage := modify stage fun fixture =>
    { fixture with interceptors := fixture.interceptors.push (map, mode) }
  stage.modifyHeap fun heap => heap.setInterceptor map key id

end Fixture

end MiniScript
