import MiniScript.Proofs.Machine.Frames
import MiniScript.Proofs.Machine.Run

/-!
# What a machine waits for

An instruction leaves the deferred results and the modules alone, or it asks the
host for something, begins a sleep or starts a module; only then does the machine
wait, and for what was promised to it. While it waits it only looks for the result
and takes it. So what these few moves keep, every step and every burst of a machine
keeps.
-/

namespace MiniScript

namespace World

variable {σ : Type} {host : Host σ}

/-- At most the heap, the clock and the output have changed. -/
structure Quiet (before after : World σ) : Prop where
  modules : after.modules = before.modules
  loading : after.loading = before.loading
  deferreds : after.deferreds = before.deferreds
  host : after.host = before.host

namespace Quiet

theorem refl (world : World σ) : Quiet world world :=
  ⟨rfl, rfl, rfl, rfl⟩

theorem trans {first second third : World σ} (before : Quiet first second)
    (after : Quiet second third) : Quiet first third :=
  ⟨after.modules.trans before.modules, after.loading.trans before.loading,
    after.deferreds.trans before.deferreds, after.host.trans before.host⟩

theorem ofHeap (world : World σ) (change : Heap → Heap) : Quiet world (world.modifyHeap change) :=
  ⟨rfl, rfl, rfl, rfl⟩

theorem ofPass (world : World σ) (nanoseconds : Nat) : Quiet world (world.pass nanoseconds) :=
  ⟨rfl, rfl, rfl, rfl⟩

theorem ofPrint (world : World σ) (line : String) : Quiet world (world.print line) :=
  ⟨rfl, rfl, rfl, rfl⟩

theorem deferred {before after : World σ} (quiet : Quiet before after) (ref : DeferredRef) :
    after.deferred ref = before.deferred ref := by
  rw [World.deferred, World.deferred, quiet.deferreds]

end Quiet

/-- The world once a machine has begun to wait for a deferred result. -/
def awaiting (world : World σ) (ref : DeferredRef) : World σ :=
  { world.modifyDeferred ref fun deferred => deferred.onReady world.suspensions with
    suspensions := world.suspensions + 1 }

/-- What one instruction asks of the world and its host, and the deferred result that is promised
to the machine. -/
inductive Asks (host : Host σ) (world : World σ) : Option DeferredRef → World σ → Prop where
  | nothing {after : World σ} (quiet : Quiet world after) : Asks host world none after
  | leave {before after : World σ} (id : Nat) (key value : Value) (quiet : Quiet world before)
      (stored : Quiet (host.intercept id key value before).2 after) : Asks host world none after
  | answer {before : World σ} (quiet : Quiet world before) (id : Nat) (call : Invocation) :
      Asks host world none (host.call id call before).2
  | promise {before after : World σ} {id : Nat} {call : Invocation} {ref : DeferredRef}
      {yields : Bool} (quiet : Quiet world before)
      (promised : host.call id call before = (.ok ⟨.pending ref, yields⟩, after)) :
      Asks host world (some ref) after
  | sleep {before : World σ} (quiet : Quiet world before) (deadline : Nat) :
      Asks host world (some before.nextDeferred) (before.addDeferred (some (.clock deadline)))
  /-- A module that cannot be had or does not compile. -/
  | seek {before : World σ} {load : String → World σ → Except String (Option (List Stmt)) × World σ}
      (quiet : Quiet world before) (loads : host.load? = some load) (name : String) :
      Asks host world none (load name before).2
  | start {before loaded : World σ}
      {load : String → World σ → Except String (Option (List Stmt)) × World σ} {name : String}
      {stmts : List Stmt} {code : Code} {functions : Array Definition} (quiet : Quiet world before)
      (loads : host.load? = some load) (uncached : before.cachedModule? name = none)
      (unloaded : name ∉ before.loading)
      (answered : load name before = (.ok (some stmts), loaded))
      (compiled : Compiler.compileModule (some name) name stmts loaded.heap.functions =
        .ok (code, functions)) (scope : ScopeRef) :
      Asks host world (some loaded.nextDeferred)
        (Library.startModule name scope code
          (loaded.modifyHeap fun heap => { heap with functions })).2

/-- Quiet changes may come first. -/
theorem Asks.after {world before after : World σ} {promised : Option DeferredRef}
    (asks : Asks host before promised after) (quiet : Quiet world before) :
    Asks host world promised after := by
  cases asks with
  | nothing rest => exact .nothing (quiet.trans rest)
  | leave id key value rest stored => exact .leave id key value (quiet.trans rest) stored
  | answer rest id call => exact .answer (quiet.trans rest) id call
  | promise rest promised => exact .promise (quiet.trans rest) promised
  | sleep rest deadline => exact .sleep (quiet.trans rest) deadline
  | seek rest loads name => exact .seek (quiet.trans rest) loads name
  | start rest loads uncached unloaded answered compiled scope =>
      exact .start (quiet.trans rest) loads uncached unloaded answered compiled scope

end World

namespace Machine

variable {σ : Type} {host : Host σ} {world : World σ} {machine : Machine}

open World

/-- What an instruction of a machine that waits for `wait?` comes to: the machine goes on or fails,
or waits for what was promised. -/
inductive Attains (host : Host σ) (world : World σ) (wait? : Option Wait) : Outcome σ → Prop where
  | goesOn {result : Except ScriptError Machine} {after : World σ}
      (asks : Asks host world none after)
      (same : ∀ next, result = .ok next → next.wait? = wait?) :
      Attains host world wait? (result, after)
  | waits {ref : DeferredRef} {middle : World σ} (asks : Asks host world (some ref) middle)
      (next : Machine) :
      Attains host world wait?
        (.ok { next with status := .suspended, wait? := some ⟨ref, middle.suspensions⟩ },
          middle.awaiting ref)

theorem Attains.ofError {after : World σ} {wait? : Option Wait} (asks : Asks host world none after)
    (error : ScriptError) : Attains host world wait? (.error error, after) :=
  .goesOn asks fun _ failed => by cases failed

theorem Attains.ofOk {after : World σ} {wait? : Option Wait} (asks : Asks host world none after)
    (same : machine.wait? = wait?) : Attains host world wait? (.ok machine, after) :=
  .goesOn asks fun next reached => by
    cases reached
    exact same

/-- A native that answers `reply`, and what the machine makes of it. -/
theorem receive_attains {reply : Reply} {after : World σ}
    (ready : ∀ value, reply.answer = .ready value → Asks host world none after)
    (pending : ∀ ref, reply.answer = .pending ref → Asks host world (some ref) after) :
    Attains host world machine.wait? (machine.receive reply after) := by
  obtain ⟨answer, yields⟩ := reply
  cases answer with
  | ready value => exact .ofOk (ready value rfl) rfl
  | pending ref => exact .waits (pending ref rfl) _

theorem apply_attains (effect : Effect) :
    Attains host world machine.wait?
      (machine.receive (Library.apply effect world).1 (Library.apply effect world).2) := by
  have changed : Quiet world (world.modifyHeap effect.change) := .ofHeap world effect.change
  unfold Library.apply
  cases effect.line with
  | none =>
      cases effect.deadline with
      | none => exact .ofOk (.nothing (changed.trans (.ofHeap _ _))) rfl
      | some deadline => exact .waits (.sleep changed deadline) _
  | some line =>
      have printed := changed.trans (.ofPrint _ line)
      cases effect.deadline with
      | none => exact .ofOk (.nothing (printed.trans (.ofHeap _ _))) rfl
      | some deadline => exact .waits (.sleep printed deadline) _

theorem import_attains (call : Invocation) :
    Attains host world machine.wait?
      (machine.receiveOutcome (Library.importModule host call world)) := by
  have unchanged : Asks host world none world := .nothing (.refl world)
  unfold Library.importModule
  split
  · rename_i name _
    split
    · exact .ofOk (.nothing (.ofHeap world _)) rfl
    · rename_i uncached
      split
      · exact .ofError unchanged _
      · rename_i unloaded
        split
        · exact .ofError unchanged _
        · rename_i load loads
          have sought : Asks host world none (load name world).2 := .seek (.refl world) loads name
          have absent : name ∉ world.loading := by
            simpa only [List.contains_eq_mem, decide_eq_true_eq] using unloaded
          unfold Library.loadModule
          split
          · rename_i answered
            rw [answered] at sought
            exact .ofError sought _
          · rename_i answered
            rw [answered] at sought
            exact .ofError sought _
          · rename_i answered
            rw [answered] at sought
            split
            · exact .ofError sought _
            · rename_i compiled
              refine .waits (.start (.refl world) loads uncached absent answered compiled
                call.scope) _
  · exact .ofError unchanged _

theorem native_attains (id : Nat) (call : Invocation) :
    Attains host world machine.wait? (machine.receiveOutcome (host.call id call world)) := by
  have asked : Asks host world none (host.call id call world).2 := .answer (.refl world) id call
  cases outcome : host.call id call world with
  | mk result after =>
      rw [outcome] at asked
      cases result with
      | error error => exact .ofError asked _
      | ok reply =>
          refine receive_attains (fun _ _ => asked) fun ref pending => ?_
          obtain ⟨answer, yields⟩ := reply
          subst pending
          exact .promise (.refl world) outcome

theorem call_attains (callee : Value) (args : List Value)
    (receiver : Option Value) (owner : Option MapRef) :
    Attains host world machine.wait? (machine.call host callee args receiver owner world) := by
  have unchanged : Asks host world none world := .nothing (.refl world)
  unfold call
  split
  · dsimp only
    split
    · unfold invoke
      dsimp only
      split
      · unfold enter
        split
        · exact .ofError unchanged _
        · exact .ofOk (.nothing (.ofHeap world _)) rfl
      · split
        · exact apply_attains _
        · exact .ofError unchanged _
      · exact import_attains _
      · exact native_attains _ _
    · exact .ofError unchanged _
  · split
    · exact .ofOk unchanged rfl
    · exact .ofError unchanged _

theorem store_asks (map : MapRef) (key value : Value) {before : World σ}
    (quiet : Quiet world before) : Asks host world none (before.store host map key value).2 := by
  unfold store
  split
  · dsimp only
    exact .nothing (quiet.trans (.ofHeap before _))
  · rename_i id _
    split
    · rename_i after answered
      refine .leave id key value quiet ?_
      rw [answered]
      dsimp only
      exact .ofHeap after _
    · rename_i after answered
      refine .leave id key value quiet ?_
      rw [answered]
      exact .refl after

theorem perform_attains (action : Action) :
    Attains host world action.next.wait? (perform host action world) := by
  cases action with
  | proceed next => exact .ofOk (.nothing (.refl world)) rfl
  | produce next draft => exact .ofOk (.nothing (.ofHeap world _)) rfl
  | store next map key draft =>
      have stored : Asks host world none
          ((world.modifyHeap draft.addTo).store host map key (draft.valueIn world.heap)).2 :=
        store_asks map key _ (.ofHeap world draft.addTo)
      unfold perform
      dsimp only
      split
      · rename_i answered
        rw [answered] at stored
        exact .ofOk stored rfl
      · rename_i answered
        rw [answered] at stored
        exact .ofError stored _
  | replaceItem next list index value => exact .ofOk (.nothing (.ofHeap world _)) rfl
  | call next callee args receiver owner => exact call_attains callee args receiver owner

theorem execute_attains (machine : Machine) (position : Nat) (instr : Instr) :
    Attains host world machine.wait? (machine.execute host position instr world) := by
  rw [execute_eq]
  split
  · rename_i action planned
    have kept := (plan_continues world machine position instr action planned).kept
    rw [← kept.wait]
    exact perform_attains action
  · exact .ofError (.nothing (.refl world)) _

end Machine

/-- A property of the world and of what a machine waits for in it that survives every move of a
machine: what an instruction asks, the beginning of a wait, a look for the result, and its end. -/
structure WaitInvariant {σ : Type} (host : Host σ) (poll : Poller σ)
    (holds : Option Wait → World σ → Prop) : Prop where
  asks : ∀ {world after}, holds none world → World.Asks host world none after → holds none after
  waits : ∀ {world middle ref}, holds none world → World.Asks host world (some ref) middle →
    holds (some ⟨ref, middle.suspensions⟩) (middle.awaiting ref)
  looks : ∀ {world wait}, holds (some wait) world → holds (some wait) (poll wait.deferred world)
  takes : ∀ {world : World σ} {wait}, holds (some wait) world → world.isWoken wait = true →
    holds none (world.modifyDeferred wait.deferred .take)

/-- It makes no difference what a machine waits for, and nothing is lost if that is given up. -/
structure Indifferent {σ : Type} (holds : Option Wait → World σ → Prop) : Prop where
  same : ∀ {wait? other? world}, holds wait? world → holds other? world
  gives : ∀ {wait? world}, holds wait? world → ∀ machine, holds wait? (world.cancelWait machine)

namespace WaitInvariant

variable {σ : Type} {host : Host σ} {poll : Poller σ} {holds : Option Wait → World σ → Prop}
variable {world : World σ} {machine : Machine}

/-- A machine that fails gives up what it waits for; most wait for nothing. -/
theorem abort (fits : machine.wait? = none ∨ Indifferent holds)
    (before : holds machine.wait? world) : holds none (world.cancelWait machine) := by
  rcases fits with free | indifferent
  · rw [World.cancelWait_of_no_wait free, ← free]
    exact before
  · exact indifferent.same (indifferent.gives before machine)

theorem settle (fits : machine.wait? = none ∨ Indifferent holds)
    (before : holds machine.wait? world) :
    holds (machine.settle world).machine.wait? (machine.settle world).world := by
  unfold Machine.settle
  dsimp only
  split
  · split
    · exact before
    · exact abort fits before
  · exact before

theorem advance (keeps : WaitInvariant host poll holds)
    (fits : machine.wait? = none ∨ Indifferent holds) (before : holds machine.wait? world) :
    holds (machine.advance host world).machine.wait? (machine.advance host world).world := by
  have free : holds none world := by
    rcases fits with free | indifferent
    · rw [← free]
      exact before
    · exact indifferent.same before
  rw [Machine.advance_eq]
  split
  · exact abort fits before
  · rename_i instr _
    have attains : Machine.Attains host (world.pass 1000) machine.wait?
        (machine.begun.execute host machine.frame.position instr (world.pass 1000)) :=
      Machine.execute_attains machine.begun _ _
    generalize machine.begun.execute host machine.frame.position instr (world.pass 1000) = outcome
      at attains
    cases attains with
    | @goesOn result after asks same =>
        have asked : holds none after := keeps.asks free (asks.after (.ofPass world 1000))
        have reached : holds machine.wait? after := by
          rcases fits with free | indifferent
          · rw [free]
            exact asked
          · exact indifferent.same asked
        cases result with
        | error error => exact abort fits reached
        | ok next =>
            rw [← same next rfl] at fits reached
            dsimp only
            split
            · exact settle fits reached
            · exact reached
    | waits asks next => exact keeps.waits free (asks.after (.ofPass world 1000))

theorem awaken {wait : Wait} (keeps : WaitInvariant host poll holds)
    (before : holds (some wait) world) (woken : world.isWoken wait = true) :
    holds (machine.awaken wait.deferred world).machine.wait?
      (machine.awaken wait.deferred world).world := by
  have taken := keeps.takes before woken
  unfold Machine.awaken
  dsimp only
  split
  · exact taken
  · exact taken
  · exact taken

theorem resume (keeps : WaitInvariant host poll holds) (before : holds machine.wait? world) :
    holds (machine.resume poll world).machine.wait? (machine.resume poll world).world := by
  unfold Machine.resume
  split
  · exact before
  · rename_i wait waiting
    rw [waiting] at before
    have attended : holds (some wait) (Machine.attend poll wait world) := by
      unfold Machine.attend
      split
      · exact before
      · exact keeps.looks before
    dsimp only
    split
    · rename_i woken
      exact keeps.awaken attended woken
    · rw [waiting]
      exact attended

theorem step (keeps : WaitInvariant host poll holds) (fits : machine.Coherent ∨ Indifferent holds)
    (before : holds machine.wait? world) :
    holds (machine.step host poll world).machine.wait? (machine.step host poll world).world := by
  have resumed := keeps.resume before
  have free (status : machine.status = .ready ∨ machine.status = .running) :
      machine.wait? = none ∨ Indifferent holds :=
    fits.imp_left fun coherent => (coherent.active status).awake
  have goesOn (status : machine.status = .ready ∨ machine.status = .running) :
      holds ({ machine with status := .running }.settle world).machine.wait?
        ({ machine with status := .running }.settle world).world := settle (free status) before
  have stepped := Machine.step_stepped host poll machine world
  generalize machine.step host poll world = turn at stepped ⊢
  cases stepped with
  | ended => exact before
  | stayed => exact resumed
  | woke _ _ awake => exact settle (Or.inl awake) resumed
  | settled status => exact goesOn status
  | advanced status running =>
      have settled := goesOn status
      rw [Machine.settle_world_of_running running] at settled
      exact keeps.advance ((free status).imp_left fun free => Machine.settle_free free world)
        settled

theorem runCycles (keeps : WaitInvariant host poll holds) (budget : Nat)
    (fits : machine.Coherent ∨ Indifferent holds) (before : holds machine.wait? world) :
    holds (machine.runCycles host poll budget world).machine.wait?
      (machine.runCycles host poll budget world).world := by
  have kept := Machine.runCycles_keeps (motive := fun machine world =>
      (machine.Coherent ∨ Indifferent holds) ∧ holds machine.wait? world)
    (fun ⟨fits, before⟩ => ⟨fits.imp_left fun coherent => Machine.step_coherent poll coherent _,
      keeps.step fits before⟩)
    (fun ⟨fits, before⟩ => ⟨fits.imp_left (·.congr rfl rfl), before⟩) budget ⟨fits, before⟩
  exact kept.2

end WaitInvariant

end MiniScript
