import MiniScript.Machine.Drive
import MiniScript.Proofs.Machine.Split

/-!
# What can happen to the world

Everything the interpreter and its host do to the world is a sequence of a few
kinds of change: records that grow, heap changes that leave the definitions alone,
the definitions of a module, changes of a deferred result that take nothing back,
new deferred results, and whatever the host does when it is asked. What all of
these keep is kept by every step of every machine.
-/

namespace MiniScript

namespace Deferred

variable {π : Type}

/-- Only what is resolved has told somebody. -/
def Sound (deferred : Deferred π) : Prop :=
  deferred.woken ≠ [] → deferred.resolved = true

/-- Resolutions and cancellations are final. -/
structure Progress (before after : Deferred π) : Prop where
  resolved : before.resolved = true → after.resolved = true
  cancelled : before.cancelled = true → after.cancelled = true
  sound : before.Sound → after.Sound

namespace Progress

theorem refl (deferred : Deferred π) : Progress deferred deferred :=
  ⟨id, id, id⟩

theorem trans {first second third : Deferred π} (before : Progress first second)
    (after : Progress second third) : Progress first third :=
  ⟨after.resolved ∘ before.resolved, after.cancelled ∘ before.cancelled, after.sound ∘ before.sound⟩

/-- What is no longer open stays so. -/
theorem closed {before after : Deferred π} (progress : Progress before after)
    (isClosed : before.isOpen = false) : after.isOpen = false := by
  unfold isOpen at isClosed ⊢
  cases resolved : before.resolved with
  | true =>
      rw [progress.resolved resolved]
      rfl
  | false =>
      rw [resolved, Bool.not_false, Bool.true_and, Bool.not_eq_eq_eq_not] at isClosed
      rw [progress.cancelled isClosed, Bool.not_true, Bool.and_false]

theorem ofResolve (deferred : Deferred π) (result : Delivery) :
    Progress deferred (deferred.resolve result) := by
  unfold resolve
  split
  · exact ⟨fun _ => rfl, id, fun _ _ => rfl⟩
  · exact refl deferred

theorem ofOnReady (deferred : Deferred π) (waiter : Nat) :
    Progress deferred (deferred.onReady waiter) := by
  unfold onReady
  split
  · exact refl deferred
  · split
    · rename_i resolved
      exact ⟨id, id, fun _ _ => resolved⟩
    · exact ⟨id, id, id⟩

theorem ofTake (deferred : Deferred π) : Progress deferred deferred.take :=
  ⟨id, id, id⟩

theorem ofCancel (deferred : Deferred π) : Progress deferred deferred.cancel :=
  ⟨id, fun _ => rfl, id⟩

theorem ofLend (deferred : Deferred π) : Progress deferred deferred.lend :=
  ⟨id, id, id⟩

theorem ofSettle (deferred : Deferred π) (answer : Option Delivery) (source : π) :
    Progress deferred (deferred.settle answer source) := by
  cases answer with
  | some result => exact ofResolve deferred result
  | none =>
      unfold settle
      dsimp only
      split
      · exact ⟨id, id, id⟩
      · exact refl deferred

end Progress

end Deferred

/-- The host can give the statements as those of a module. -/
def Host.Loads {σ : Type} (host : Host σ) (stmts : List Stmt) : Prop :=
  ∃ load, host.load? = some load ∧ ∃ name world, (load name world).1 = .ok (some stmts)

namespace World

variable {σ : Type}

/-- The ways in which the interpreter and its host change the world. -/
inductive Becomes (host : Host σ) : World σ → World σ → Prop where
  | refl (world : World σ) : Becomes host world world
  | trans {first second third : World σ} (before : Becomes host first second)
      (after : Becomes host second third) : Becomes host first third
  | records (world : World σ) (clock suspensions : Nat) (output : Array String)
      (modules : List (String × Value)) (loading : List String) :
      Becomes host world { world with clock, suspensions, output, modules, loading }
  | heap (world : World σ) {change : Heap → Heap}
      (keeps : ∀ heap, (change heap).functions = heap.functions) :
      Becomes host world (world.modifyHeap change)
  | define {world : World σ} {name : String} {stmts : List Stmt} {code : Code}
      {functions : Array Definition} (loads : host.Loads stmts)
      (compiled : Compiler.compileModule (some name) name stmts world.heap.functions =
        .ok (code, functions)) :
      Becomes host world (world.modifyHeap fun heap => { heap with functions })
  | deferred (world : World σ) (ref : DeferredRef)
      {change : Deferred Provider → Deferred Provider}
      (progress : ∀ deferred, Deferred.Progress deferred (change deferred)) :
      Becomes host world (world.modifyDeferred ref change)
  | defer (world : World σ) (source : Option Provider) :
      Becomes host world (world.addDeferred source)
  | call (id : Nat) (call : Invocation) (world : World σ) :
      Becomes host world (host.call id call world).2
  | poll (id : Nat) (world : World σ) : Becomes host world (host.poll id world).2
  | intercept (id : Nat) (key value : Value) (world : World σ) :
      Becomes host world (host.intercept id key value world).2
  | load {load : String → World σ → Except String (Option (List Stmt)) × World σ}
      (loads : host.load? = some load) (name : String) (world : World σ) :
      Becomes host world (load name world).2

end World

namespace Heap

theorem insert_functions (heap : Heap) (map : MapRef) (key value : Value) :
    (heap.insert map key value).functions = heap.functions := rfl

theorem setLocal_functions (heap : Heap) (scope : ScopeRef) (name : String) (value : Value) :
    (heap.setLocal scope name value).functions = heap.functions :=
  heap.insert_functions _ _ _

theorem modifyItems_functions (heap : Heap) (ref : ListRef) (change : Array Value → Array Value) :
    (heap.modifyItems ref change).functions = heap.functions := rfl

theorem addScope_functions (heap : Heap) (parent : Option ScopeRef) (vars : MapObject) :
    (heap.addScope parent vars).functions = heap.functions := rfl

end Heap

namespace Draft

theorem addTo_functions (draft : Draft) (heap : Heap) :
    (draft.addTo heap).functions = heap.functions := by
  cases draft <;> rfl

end Draft

namespace Library

/-- The heap change of an effect leaves the definitions alone. -/
def KeepsFunctions (outcome : Except Fault Effect) : Prop :=
  ∀ effect, outcome = .ok effect → ∀ heap, (effect.change heap).functions = heap.functions

theorem keepsFunctions_answer (draft : Draft) : KeepsFunctions (answer draft) := by
  rintro effect ⟨⟩ heap
  rfl

theorem keepsFunctions_error (fault : Fault) : KeepsFunctions (.error fault) :=
  fun _ impossible => nomatch impossible

theorem keepsFunctions_bind {α : Type} {first : Except Fault α} {next : α → Except Fault Effect}
    (rest : ∀ value, KeepsFunctions (next value)) : KeepsFunctions (first >>= next) := by
  cases first with
  | error fault => exact keepsFunctions_error fault
  | ok value => exact rest value

theorem keepsFunctions_range (limits : Limits) (call : Invocation) :
    KeepsFunctions (range limits call) := by
  refine keepsFunctions_bind fun first => keepsFunctions_bind fun last =>
    keepsFunctions_bind fun step => ?_
  split
  · exact keepsFunctions_error _
  · dsimp only
    split
    all_goals
      split
      · exact keepsFunctions_error _
      · exact keepsFunctions_answer _

theorem keepsFunctions_push (call : Invocation) : KeepsFunctions (push call) := by
  unfold push
  dsimp only
  split
  · rintro effect ⟨⟩ heap
    rfl
  · rintro effect ⟨⟩ heap
    rfl
  · exact keepsFunctions_error _

theorem keepsFunctions_pop (heap : Heap) (call : Invocation) : KeepsFunctions (pop heap call) := by
  unfold pop
  split
  · rintro effect ⟨⟩ heap
    rfl
  · split
    · exact keepsFunctions_answer _
    · rintro effect ⟨⟩ heap
      rfl
  · exact keepsFunctions_error _

theorem keepsFunctions_remove (heap : Heap) (call : Invocation) :
    KeepsFunctions (remove heap call) := by
  unfold remove
  dsimp only
  split
  · rintro effect ⟨⟩ heap
    rfl
  · split
    · rintro effect ⟨⟩ heap
      rfl
    · exact keepsFunctions_error _
  · exact keepsFunctions_answer _
  · exact keepsFunctions_error _

/-- The other functions only read the heap. -/
theorem keepsFunctions_effect {σ : Type} (world : World σ) (builtin : Builtin) (call : Invocation) :
    KeepsFunctions (effect world builtin call) := by
  cases builtin with
  | range => exact keepsFunctions_range world.limits call
  | push => exact keepsFunctions_push call
  | pop => exact keepsFunctions_pop world.heap call
  | remove => exact keepsFunctions_remove world.heap call
  | indexOf =>
      simp only [effect, indexOf]
      split
      all_goals first | exact keepsFunctions_error _ | split <;> exact keepsFunctions_answer _
  | hasIndex | indexes | values | join | split =>
      simp only [effect, hasIndex, indexes, values, join, split]
      split
      all_goals first | exact keepsFunctions_error _ | exact keepsFunctions_answer _
  | abs | floor => exact keepsFunctions_bind fun _ => keepsFunctions_answer _
  | wait =>
      refine keepsFunctions_bind fun seconds => ?_
      rintro effect ⟨⟩ heap
      rfl
  | print | yield =>
      rintro effect ⟨⟩ heap
      rfl
  | _ => exact keepsFunctions_answer _

end Library

namespace World

variable {σ : Type} {host : Host σ}

theorem becomes_store (map : MapRef) (key value : Value) (world : World σ) :
    Becomes host world (world.store host map key value).2 := by
  unfold store
  split
  · exact .heap world fun heap => heap.insert_functions map key value
  · rename_i id _
    have asked : Becomes host world (host.intercept id key value world).2 :=
      .intercept id key value world
    split
    · rename_i same
      rw [same] at asked
      exact asked.trans (.heap _ fun heap => heap.insert_functions map key value)
    · rename_i same
      rw [same] at asked
      exact asked

theorem becomes_apply {effect : Effect}
    (keeps : ∀ heap, (effect.change heap).functions = heap.functions) (world : World σ) :
    Becomes host world (Library.apply effect world).2 := by
  have changed : Becomes host world (world.modifyHeap effect.change) := .heap world keeps
  have answered (middle : World σ) (before : Becomes host world middle) :
      Becomes host world (middle.modifyHeap effect.answer.addTo) :=
    before.trans (.heap _ (Draft.addTo_functions _))
  unfold Library.apply
  cases effect.line with
  | none =>
      cases effect.deadline with
      | none => exact answered _ changed
      | some deadline => exact changed.trans (.defer _ _)
  | some line =>
      have printed : Becomes host world ((world.modifyHeap effect.change).print line) :=
        changed.trans (.records _ _ _ _ _ _)
      cases effect.deadline with
      | none => exact answered _ printed
      | some deadline => exact printed.trans (.defer _ _)

theorem becomes_loadModule {load : String → World σ → Except String (Option (List Stmt)) × World σ}
    (loads : host.load? = some load) (name : String) (scope : ScopeRef) (world : World σ) :
    Becomes host world (Library.loadModule load name scope world).2 := by
  have asked : Becomes host world (load name world).2 := .load loads name world
  unfold Library.loadModule
  split
  all_goals rename_i same; rw [same] at asked
  · exact asked
  · exact asked
  · split
    · exact asked
    · rename_i code functions compiled
      have given : host.Loads _ := ⟨load, loads, name, world, congrArg Prod.fst same⟩
      exact asked.trans ((Becomes.define given compiled).trans
        ((Becomes.records _ _ _ _ _ _).trans (.defer _ _)))

theorem becomes_importModule (call : Invocation) (world : World σ) :
    Becomes host world (Library.importModule host call world).2 := by
  unfold Library.importModule
  split
  · split
    · exact .heap world fun heap => heap.setLocal_functions _ _ _
    · split
      · exact .refl world
      · split
        · exact .refl world
        · rename_i loads
          exact becomes_loadModule loads _ _ world
  · exact .refl world

theorem becomes_finishModule (load : ModuleLoad) (error : Option ScriptError) (world : World σ) :
    Becomes host world (Library.finishModule load error world).2 := by
  unfold Library.finishModule
  dsimp only
  split
  · exact .records world _ _ _ _ _
  · exact .records world _ _ _ _ _
  · exact .records world _ _ _ _ _

theorem becomes_cancelWithin (fuel : Nat) (ref : DeferredRef) (world : World σ) :
    Becomes host world (cancelWithin fuel ref world) := by
  induction fuel generalizing ref world with
  | zero => exact .deferred world ref Deferred.Progress.ofCancel
  | succ fuel ih =>
      have cancelled : Becomes host world (world.modifyDeferred ref .cancel) :=
        .deferred world ref Deferred.Progress.ofCancel
      unfold cancelWithin
      dsimp only
      split
      · refine (cancelled.trans ?_).trans (.records _ _ _ _ _ _)
        split
        · exact ih _ _
        · exact .refl _
      · exact cancelled

/-- Giving up a result leaves the heap alone. -/
theorem heap_cancelWithin (fuel : Nat) (ref : DeferredRef) (world : World σ) :
    (cancelWithin fuel ref world).heap = world.heap := by
  induction fuel generalizing ref world with
  | zero => rfl
  | succ fuel ih =>
      unfold cancelWithin
      dsimp only
      split
      · split
        · exact ih _ _
        · rfl
      · rfl

theorem heap_cancelWait (machine : Machine) (world : World σ) :
    (world.cancelWait machine).heap = world.heap := by
  unfold cancelWait
  split
  · exact heap_cancelWithin _ _ world
  · rfl

theorem becomes_cancelWait (machine : Machine) (world : World σ) :
    Becomes host world (world.cancelWait machine) := by
  unfold cancelWait
  split
  · exact becomes_cancelWithin _ _ world
  · exact .refl world

end World

namespace Machine

variable {σ : Type} {host : Host σ}

open World

theorem becomes_suspend (machine : Machine) (ref : DeferredRef) (world : World σ) :
    Becomes host world (machine.suspend ref world).2 :=
  (Becomes.deferred world ref fun deferred => .ofOnReady deferred _).trans (.records _ _ _ _ _ _)

theorem becomes_receive (machine : Machine) (reply : Reply) (world : World σ) :
    Becomes host world (machine.receive reply world).2 := by
  unfold receive
  dsimp only
  split
  · exact .refl world
  · exact becomes_suspend _ _ world

theorem becomes_receiveOutcome (machine : Machine) {before : World σ}
    {outcome : Except RuntimeError Reply × World σ} (reached : Becomes host before outcome.2) :
    Becomes host before (machine.receiveOutcome outcome).2 := by
  obtain ⟨reply | reply, world⟩ := outcome
  · exact reached
  · exact reached.trans (becomes_receive machine reply world)

theorem becomes_enter (machine : Machine) (code : Code) (outer : Option ScopeRef)
    (vars : List (String × Value)) (world : World σ) :
    Becomes host world (machine.enter code outer vars world).2 := by
  unfold enter
  split
  · exact .refl world
  · exact .heap world fun heap => heap.addScope_functions _ _

theorem becomes_call (machine : Machine) (callee : Value) (args : List Value)
    (receiver : Option Value) (owner : Option MapRef) (world : World σ) :
    Becomes host world (machine.call host callee args receiver owner world).2 := by
  unfold call
  split
  · dsimp only
    split
    · unfold invoke
      dsimp only
      split
      · exact becomes_enter _ _ _ _ world
      · split
        · rename_i decided
          exact (becomes_apply (Library.keepsFunctions_effect _ _ _ _ decided) world).trans
            (becomes_receive _ _ _)
        · exact .refl world
      · exact becomes_receiveOutcome machine (becomes_importModule _ world)
      · exact becomes_receiveOutcome machine (.call _ _ world)
    · exact .refl world
  · split
    · exact .refl world
    · exact .refl world

theorem becomes_perform (action : Action) (world : World σ) :
    Becomes host world (perform host action world).2 := by
  cases action with
  | proceed next => exact .refl world
  | produce next draft => exact .heap world (Draft.addTo_functions draft)
  | store next map key draft =>
      have placed : Becomes host world (world.modifyHeap draft.addTo) :=
        .heap world (Draft.addTo_functions draft)
      have stored : Becomes host (world.modifyHeap draft.addTo)
          ((world.modifyHeap draft.addTo).store host map key (draft.valueIn world.heap)).2 :=
        becomes_store map key _ _
      unfold perform
      dsimp only
      split
      all_goals rename_i same; rw [same] at stored; exact placed.trans stored
  | replaceItem next list index value =>
      exact .heap world fun heap => heap.modifyItems_functions list _
  | call next callee args receiver owner => exact becomes_call next callee args receiver owner world

theorem becomes_execute (machine : Machine) (position : Nat) (instr : Instr) (world : World σ) :
    Becomes host world (machine.execute host position instr world).2 := by
  rw [execute_eq]
  split
  · exact becomes_perform _ world
  · exact .refl world

theorem becomes_abort (machine : Machine) (world : World σ) (error : ScriptError) :
    Becomes host world (machine.abort world error).world :=
  becomes_cancelWait machine world

theorem becomes_settle (machine : Machine) (world : World σ) :
    Becomes host world (machine.settle world).world := by
  unfold settle
  dsimp only
  split
  · split
    · exact .refl world
    · exact becomes_abort _ world _
  · exact .refl world

theorem heap_abort (machine : Machine) (world : World σ) (error : ScriptError) :
    (machine.abort world error).world.heap = world.heap :=
  World.heap_cancelWait machine world

theorem heap_settle (machine : Machine) (world : World σ) :
    (machine.settle world).world.heap = world.heap := by
  unfold settle
  dsimp only
  split
  · split
    · rfl
    · exact heap_abort _ world _
  · rfl

/-- A machine that waits for nothing gives up nothing. -/
theorem abort_of_no_wait {machine : Machine} (free : machine.wait? = none) (world : World σ)
    (error : ScriptError) :
    machine.abort world error = { machine := machine.halted, world, error := some error } := by
  rw [abort, halt, World.cancelWait_of_no_wait free]

theorem settle_world {machine : Machine} (free : machine.wait? = none) (world : World σ) :
    (machine.settle world).world = world := by
  unfold settle
  dsimp only
  split
  · split
    · rfl
    · exact World.cancelWait_of_no_wait free world
  · rfl

/-- A machine that goes on has given up nothing. -/
theorem settle_world_of_running {machine : Machine} {world : World σ}
    (running : (machine.settle world).machine.status = .running) :
    (machine.settle world).world = world := by
  unfold settle at running ⊢
  dsimp only at running ⊢
  split at running
  · split at running <;> cases running
  · rename_i open_
    rw [if_neg open_]

theorem goesOn_iff {turn : Turn σ} :
    goesOn turn = true ↔ turn.error = none ∧ turn.machine.wait? = none := by
  simp only [goesOn, Bool.and_eq_true, Option.isNone_iff_eq_none]

/-- A step of a machine that neither waits nor has ended. -/
theorem step_of_active (host : Host σ) (poll : Poller σ) {machine : Machine}
    (active : machine.status = .ready ∨ machine.status = .running) (world : World σ) :
    machine.step host poll world =
      let turn := { machine with status := .running }.settle world
      if turn.machine.status = .running then turn.machine.advance host turn.world else turn := by
  unfold step
  rcases active with status | status
  · rw [status]
  · rw [status]

/-- Where there is something left to do, it executes an instruction. -/
theorem step_of_running (host : Host σ) (poll : Poller σ) {machine : Machine} {world : World σ}
    (active : machine.status = .ready ∨ machine.status = .running)
    (running : ({ machine with status := .running }.settle world).machine.status = .running) :
    machine.step host poll world =
      ({ machine with status := .running }.settle world).machine.advance host world := by
  rw [step_of_active host poll active]
  dsimp only
  rw [if_pos running, settle_world_of_running running]

/-- What a step of a machine has come to: it had ended, it still waits or has failed, its result
was there, it had nothing left to execute, or it has executed an instruction. -/
inductive Stepped (host : Host σ) (poll : Poller σ) (machine : Machine) (world : World σ) :
    Turn σ → Prop where
  | ended (finished : machine.status = .finished) :
      Stepped host poll machine world { machine, world }
  | stayed (asleep : machine.status = .suspended)
      (stays : ¬ goesOn (machine.resume poll world) = true) :
      Stepped host poll machine world (machine.resume poll world)
  | woke (asleep : machine.status = .suspended)
      (noError : (machine.resume poll world).error = none)
      (free : (machine.resume poll world).machine.wait? = none) :
      Stepped host poll machine world
        ((machine.resume poll world).machine.settle (machine.resume poll world).world)
  | settled (active : machine.status = .ready ∨ machine.status = .running)
      (stops : ({ machine with status := .running }.settle world).machine.status ≠ .running) :
      Stepped host poll machine world ({ machine with status := .running }.settle world)
  | advanced (active : machine.status = .ready ∨ machine.status = .running)
      (running : ({ machine with status := .running }.settle world).machine.status = .running) :
      Stepped host poll machine world
        (({ machine with status := .running }.settle world).machine.advance host world)

theorem step_stepped (host : Host σ) (poll : Poller σ) (machine : Machine) (world : World σ) :
    Stepped host poll machine world (machine.step host poll world) := by
  unfold step
  split
  · exact .ended ‹_›
  · rename_i asleep
    dsimp only
    split
    · rename_i goes
      obtain ⟨noError, free⟩ := goesOn_iff.mp goes
      exact .woke asleep noError free
    · exact .stayed asleep ‹_›
  · rename_i unfinished awake
    have active : machine.status = .ready ∨ machine.status = .running := by
      cases status : machine.status with
      | ready => exact Or.inl rfl
      | running => exact Or.inr rfl
      | suspended => exact absurd status awake
      | finished => exact absurd status unfinished
    dsimp only
    split
    · rename_i running
      rw [settle_world_of_running running]
      exact .advanced active running
    · exact .settled active ‹_›

/-- What every step keeps, some cycles keep, unless it depends on whether a yield is asked for. -/
theorem runCycles_keeps {poll : Poller σ} {motive : Machine → World σ → Prop}
    (steps : ∀ {machine world}, motive machine world →
      motive (machine.step host poll world).machine (machine.step host poll world).world)
    (heard : ∀ {machine world}, motive machine world →
      motive { machine with yieldRequested := false } world)
    (budget : Nat) {machine : Machine} {world : World σ} (before : motive machine world) :
    motive (machine.runCycles host poll budget world).machine
      (machine.runCycles host poll budget world).world := by
  induction budget generalizing machine world with
  | zero => exact before
  | succ budget ih =>
      have stepped := steps before
      unfold runCycles
      dsimp only
      split
      · split
        · exact heard stepped
        · exact ih stepped
      · exact stepped

theorem becomes_advance (machine : Machine) (world : World σ) :
    Becomes host world (machine.advance host world).world := by
  have passed : Becomes host world (world.pass 1000) := .records world _ _ _ _ _
  rw [advance_eq]
  split
  · exact becomes_abort _ world _
  · rename_i instr _
    have executed := passed.trans
      (becomes_execute machine.begun machine.frame.position instr (world.pass 1000))
    split
    all_goals rename_i same; rw [same] at executed
    · split
      · exact executed.trans (becomes_settle _ _)
      · exact executed
    · exact executed.trans (becomes_abort _ _ _)

theorem becomes_awaken (machine : Machine) (ref : DeferredRef) (world : World σ) :
    Becomes host world (machine.awaken ref world).world := by
  have taken : Becomes host world (world.modifyDeferred ref .take) :=
    .deferred world ref Deferred.Progress.ofTake
  unfold awaken
  dsimp only
  split
  · exact taken
  all_goals exact taken.trans (becomes_abort _ _ _)

section

variable {poll : Poller σ} (polls : ∀ ref world, Becomes host world (poll ref world))

include polls

theorem becomes_attend (wait : Wait) (world : World σ) :
    Becomes host world (attend poll wait world) := by
  unfold attend
  split
  · exact .refl world
  · exact polls wait.deferred world

theorem becomes_resume (machine : Machine) (world : World σ) :
    Becomes host world (machine.resume poll world).world := by
  unfold resume
  split
  · exact .refl world
  · rename_i wait _
    have polled := becomes_attend polls wait world
    dsimp only
    split
    · exact polled.trans (becomes_awaken machine wait.deferred _)
    · exact polled

theorem becomes_step (machine : Machine) (world : World σ) :
    Becomes host world (machine.step host poll world).world := by
  have stepped := step_stepped host poll machine world
  generalize machine.step host poll world = turn at stepped ⊢
  cases stepped with
  | ended => exact .refl world
  | stayed => exact becomes_resume polls machine world
  | woke => exact (becomes_resume polls machine world).trans (becomes_settle _ _)
  | settled => exact becomes_settle _ world
  | advanced => exact becomes_advance _ world

theorem becomes_runCycles (budget : Nat) (machine : Machine) (world : World σ) :
    Becomes host world (machine.runCycles host poll budget world).world :=
  runCycles_keeps (motive := fun _ later => Becomes host world later)
    (fun before => before.trans (becomes_step polls _ _)) id budget (.refl world)

end

end Machine

namespace World

variable {σ : Type} {host : Host σ}

/-- Polling runs the bodies of modules, whose waits are polled one level deeper. -/
theorem becomes_pollWithin (level : Nat) (ref : DeferredRef) (world : World σ) :
    Becomes host world (pollWithin host level ref world) := by
  induction level generalizing ref world with
  | zero => exact .refl world
  | succ level ih =>
      have settled (world : World σ) (answer : Option Delivery) (source : Provider) :
          Becomes host world
            (world.modifyDeferred ref fun deferred => deferred.settle answer source) :=
        .deferred world ref fun deferred => .ofSettle deferred answer source
      unfold pollWithin
      split
      · exact .refl world
      · have lent : Becomes host world (world.modifyDeferred ref .lend) :=
          .deferred world ref Deferred.Progress.ofLend
        refine lent.trans ?_
        dsimp only
        split
        · exact settled _ _ _
        · exact (Becomes.poll _ _).trans (settled _ _ _)
        · rename_i load _
          have ran := Machine.becomes_runCycles ih
            (world.modifyDeferred ref .lend).limits.burstCycles load.machine
            (world.modifyDeferred ref .lend)
          split
          · exact ran.trans ((becomes_finishModule _ _ _).trans (settled _ _ _))
          · exact ran.trans (settled _ _ _)

theorem becomes_poll (ref : DeferredRef) (world : World σ) :
    Becomes host world (poll host ref world) :=
  becomes_pollWithin _ ref world

end World

/-- Whenever the host is asked, it keeps to a relation between worlds. -/
structure Host.Keeps {σ : Type} (host : Host σ) (relation : World σ → World σ → Prop) : Prop where
  call : ∀ id call world, relation world (host.call id call world).2
  poll : ∀ id world, relation world (host.poll id world).2
  intercept : ∀ id key value world, relation world (host.intercept id key value world).2
  load : ∀ load, host.load? = some load → ∀ name world, relation world (load name world).2

theorem Host.silent_keeps {σ : Type} {relation : World σ → World σ → Prop}
    (refl : ∀ world, relation world world) : Host.silent.Keeps relation where
  call _ _ world := refl world
  poll _ world := refl world
  intercept _ _ _ world := refl world
  load := nofun

namespace World

variable {σ : Type} {host : Host σ}

theorem deferred_modifyDeferred_self (world : World σ) (ref : DeferredRef)
    (change : Deferred Provider → Deferred Provider) (known : ref.index < world.deferreds.size) :
    (world.modifyDeferred ref change).deferred ref = change (world.deferred ref) := by
  simp only [modifyDeferred, deferred, Array.getElem?_modify, if_true,
    Array.getElem?_eq_getElem known, Option.map_some, Option.getD_some]

theorem deferred_of_size_le {world : World σ} {ref : DeferredRef}
    (unknown : world.deferreds.size ≤ ref.index) : world.deferred ref = {} := by
  rw [deferred, Array.getElem?_eq_none unknown, Option.getD_none]

theorem deferred_addDeferred_of_lt {world : World σ} {ref : DeferredRef} (source : Option Provider)
    (known : ref.index < world.deferreds.size) :
    (world.addDeferred source).deferred ref = world.deferred ref := by
  rw [deferred, addDeferred, Array.getElem?_push_lt known, deferred,
    Array.getElem?_eq_getElem known]

/-- The limits stay, and no deferred result is lost, reopened or told of falsely. -/
structure Progress (before after : World σ) : Prop where
  limits : after.limits = before.limits
  size : before.deferreds.size ≤ after.deferreds.size
  deferred : ∀ ref, (before.deferred ref).Progress (after.deferred ref)

namespace Progress

theorem refl (world : World σ) : Progress world world :=
  ⟨rfl, Nat.le_refl _, fun _ => .refl _⟩

theorem trans {first second third : World σ} (before : Progress first second)
    (after : Progress second third) : Progress first third :=
  ⟨after.limits.trans before.limits, Nat.le_trans before.size after.size,
    fun ref => (before.deferred ref).trans (after.deferred ref)⟩

theorem ofModify (world : World σ) (ref : DeferredRef)
    {change : Deferred Provider → Deferred Provider}
    (progress : ∀ deferred, Deferred.Progress deferred (change deferred)) :
    Progress world (world.modifyDeferred ref change) := by
  refine ⟨rfl, Nat.le_of_eq (Array.size_modify).symm, fun other => ?_⟩
  by_cases same : other = ref
  · subst same
    rcases Nat.lt_or_ge other.index world.deferreds.size with known | unknown
    · rw [deferred_modifyDeferred_self world other change known]
      exact progress _
    · rw [deferred_of_size_le unknown, deferred_of_size_le]
      · exact .refl _
      · exact Nat.le_trans (Nat.le_of_eq Array.size_modify) unknown
  · rw [deferred_modifyDeferred_of_ne world ref other change same]
    exact .refl _

theorem ofDefer (world : World σ) (source : Option Provider) :
    Progress world (world.addDeferred source) := by
  refine ⟨rfl, by simp only [addDeferred, Array.size_push, Nat.le_succ], fun other => ?_⟩
  rcases Nat.lt_or_ge other.index world.deferreds.size with known | unknown
  · rw [deferred_addDeferred_of_lt source known]
    exact .refl _
  · rw [deferred_of_size_le unknown]
    refine ⟨by rintro ⟨⟩, by rintro ⟨⟩, fun _ told => absurd ?_ told⟩
    rcases Nat.eq_or_lt_of_le unknown with same | beyond
    · have last : other = world.nextDeferred := by
        cases other
        exact congrArg _ same.symm
      rw [last, deferred_nextDeferred]
    · rw [deferred_of_size_le]
      rw [addDeferred, Array.size_push]
      exact beyond

end Progress

theorem Becomes.progress {before after : World σ} (lawful : host.Keeps Progress)
    (becomes : Becomes host before after) : Progress before after := by
  induction becomes with
  | refl world => exact .refl world
  | trans _ _ first second => exact first.trans second
  | records world => exact ⟨rfl, Nat.le_refl _, fun _ => .refl _⟩
  | heap world => exact ⟨rfl, Nat.le_refl _, fun _ => .refl _⟩
  | define => exact ⟨rfl, Nat.le_refl _, fun _ => .refl _⟩
  | deferred world ref progress => exact .ofModify world ref progress
  | defer world source => exact .ofDefer world source
  | call id call world => exact lawful.call id call world
  | poll id world => exact lawful.poll id world
  | intercept id key value world => exact lawful.intercept id key value world
  | load loads name world => exact lawful.load _ loads name world

end World

end MiniScript
