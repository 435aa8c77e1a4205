import MiniScript.Library.Install
import MiniScript.Proofs.Machine.Frames
import MiniScript.Proofs.Machine.Run

/-!
# The life of a machine

For code of any origin and requests in any order: a machine waits exactly while it
holds a deferred result, has never more callers than the limit allows, and once it
has ended holds nothing, stands at the end of the code it was started with and
stays as it is. Every error ends it, and what it waited for is then resolved or
given up.
-/

namespace MiniScript

/-- An answer that comes later is in the world. -/
def Reply.Known {σ : Type} (reply : Reply) (world : World σ) : Prop :=
  ∀ ref, reply.answer = .pending ref → ref.index < world.deferreds.size

/-- The natives of the host answer only with deferred results that are in the world. -/
def Host.AnswersKnown {σ : Type} (host : Host σ) : Prop :=
  ∀ id call world reply after, host.call id call world = (.ok reply, after) → reply.Known after

namespace Library

variable {σ : Type} {host : Host σ}

theorem apply_known (effect : Effect) (world : World σ) :
    (apply effect world).1.Known (apply effect world).2 := by
  unfold apply
  dsimp only
  split
  · rintro ref ⟨⟩
    simp only [World.nextDeferred, World.addDeferred, Array.size_push, Nat.lt_succ_self]
  · rintro ref ⟨⟩

theorem startModule_known (name : String) (scope : ScopeRef) (code : Code) {world after : World σ}
    {reply : Reply} (started : startModule name scope code world = (.ok reply, after)) :
    reply.Known after := by
  cases started
  rintro ref ⟨⟩
  simp only [World.nextDeferred, World.addDeferred, Array.size_push, Nat.lt_succ_self]

theorem importModule_known {call : Invocation} {world after : World σ} {reply : Reply}
    (imported : importModule host call world = (.ok reply, after)) : reply.Known after := by
  unfold importModule at imported
  split at imported
  · split at imported
    · cases imported
      exact fun _ impossible => nomatch impossible
    · split at imported
      · cases imported
      · split at imported
        · cases imported
        · unfold loadModule at imported
          split at imported
          · cases imported
          · cases imported
          · split at imported
            · cases imported
            · exact startModule_known _ _ _ imported
  · cases imported

end Library

namespace Machine

variable {σ : Type} {host : Host σ} {world after : World σ} {machine next : Machine}

/-- What the machine waits for is in the world. -/
def WaitKnown (machine : Machine) (world : World σ) : Prop :=
  ∀ wait, machine.wait? = some wait → wait.deferred.index < world.deferreds.size

theorem WaitKnown.ofAwake (awake : machine.wait? = none) : machine.WaitKnown world :=
  fun _ waiting => nomatch awake.symm.trans waiting

theorem receive_known {reply : Reply} (known : reply.Known world) (awake : machine.wait? = none)
    (received : machine.receive reply world = (.ok next, after)) : next.WaitKnown after := by
  obtain ⟨answer, yields⟩ := reply
  cases answer with
  | ready value =>
      cases received
      exact .ofAwake awake
  | pending ref =>
      cases received
      rintro wait ⟨⟩
      exact Nat.lt_of_lt_of_eq (known ref rfl) Array.size_modify.symm

theorem receiveOutcome_known {outcome : Except RuntimeError Reply × World σ}
    (known : ∀ reply world, outcome = (.ok reply, world) → reply.Known world)
    (awake : machine.wait? = none)
    (received : machine.receiveOutcome outcome = (.ok next, after)) : next.WaitKnown after := by
  obtain ⟨error | reply, world⟩ := outcome
  · cases received
  · exact receive_known (known reply world rfl) awake received

theorem call_known (answers : host.AnswersKnown) (awake : machine.wait? = none) {callee : Value}
    {args : List Value} {receiver : Option Value} {owner : Option MapRef}
    (called : machine.call host callee args receiver owner world = (.ok next, after)) :
    next.WaitKnown after := by
  unfold call at called
  split at called
  · dsimp only at called
    split at called
    · unfold invoke at called
      dsimp only at called
      split at called
      · unfold enter at called
        split at called
        · cases called
        · cases called
          exact .ofAwake awake
      · split at called
        · exact receive_known (Library.apply_known _ world) awake called
        · cases called
      · exact receiveOutcome_known (fun _ _ => Library.importModule_known) awake called
      · exact receiveOutcome_known (answers _ _ _) awake called
    · cases called
  · split at called
    · cases called
      exact .ofAwake awake
    · cases called

/-- After an instruction, whatever the machine waits for is in the world. -/
theorem execute_known (answers : host.AnswersKnown) {position : Nat} {instr : Instr}
    (executed : machine.execute host position instr world = (.ok next, after))
    (free : machine.wait? = none) : next.WaitKnown after := by
  rw [execute_eq] at executed
  split at executed
  · rename_i action planned
    have kept := (plan_continues world machine position instr action planned).kept
    have awake : action.next.wait? = none := kept.wait.trans free
    cases action with
    | proceed => cases executed; exact .ofAwake awake
    | produce => cases executed; exact .ofAwake awake
    | store =>
        unfold perform at executed
        dsimp only at executed
        split at executed
        · cases executed
          exact .ofAwake awake
        · cases executed
    | replaceItem => cases executed; exact .ofAwake awake
    | call => exact call_known answers awake executed
  · cases executed

/-- What holds of a machine that was started with `code`, and of its world. -/
structure WellFormed (code : Code) (machine : Machine) (world : World σ) : Prop where
  coherent : machine.Coherent
  depth : machine.depth ≤ world.limits.maxCallDepth
  outermost : machine.outermost.code = code
  finished : machine.status = .finished →
    machine.stack = [] ∧ machine.callers = [] ∧ code.size ≤ machine.position
  known : machine.WaitKnown world
  sound : ∀ ref, (world.deferred ref).Sound

variable {code : Code}

/-- The world may go on. -/
theorem WellFormed.later (formed : machine.WellFormed code world)
    (progress : World.Progress world after) : machine.WellFormed code after where
  coherent := formed.coherent
  depth := progress.limits ▸ formed.depth
  outermost := formed.outermost
  finished := formed.finished
  known wait waiting := Nat.lt_of_lt_of_le (formed.known wait waiting) progress.size
  sound ref := (progress.deferred ref).sound (formed.sound ref)

theorem WellFormed.halted (formed : machine.WellFormed code world) :
    machine.halted.WellFormed code world where
  coherent := halted_coherent machine
  depth := Nat.zero_le _
  outermost := formed.outermost
  finished _ := ⟨rfl, rfl, Nat.le_of_eq (congrArg Code.size formed.outermost.symm)⟩
  known := .ofAwake rfl
  sound := formed.sound

/-- A machine that has not ended may run on with other operands. -/
theorem WellFormed.revise (formed : machine.WellFormed code world) {stack : List Value}
    {wait? : Option Wait} (free : wait? = none) :
    WellFormed code { machine with stack, wait?, status := .running } world where
  coherent := .ofFree nofun free
  depth := formed.depth
  outermost := formed.outermost
  finished := nofun
  known := .ofAwake free
  sound := formed.sound

/-- What becomes of a machine that is asked for something: an error ends it, and it goes on waiting
for what it waited for or that is no longer open. -/
structure Lives (code : Code) (before : Machine) (turn : Turn σ) : Prop where
  formed : turn.machine.WellFormed code turn.world
  ended : turn.error ≠ none → turn.machine.status = .finished
  waits : ∀ wait, before.wait? = some wait →
    turn.machine.wait? = some wait ∨ (turn.world.deferred wait.deferred).isOpen = false

theorem Lives.ofSame (formed : machine.WellFormed code world) :
    machine.Lives code { machine, world } where
  formed := formed
  ended failed := absurd rfl failed
  waits _ waiting := Or.inl waiting

theorem unwind_spec (frame : Frame) (callers : List Frame) (stack : List Value) :
    let (inner, rest, _) := unwind frame callers stack
    rest.length ≤ callers.length ∧ rest.getLast?.getD inner = callers.getLast?.getD frame ∧
      (inner.isDone = true → rest = []) := by
  induction callers generalizing frame stack with
  | nil => exact ⟨Nat.le_refl _, rfl, fun _ => rfl⟩
  | cons caller callers ih =>
      unfold unwind
      cases isDone : frame.isDone with
      | true =>
          obtain ⟨shorter, same, last⟩ := ih caller (.null :: stack)
          refine ⟨Nat.le_succ_of_le shorter, ?_, last⟩
          rw [outermost_cons]
          exact same
      | false =>
          refine ⟨Nat.le_refl _, rfl, fun done => ?_⟩
          exact nomatch isDone.symm.trans done

/-- An error ends a machine, and gives up what it waited for. -/
theorem abort_lives (formed : machine.WellFormed code world) (free : machine.wait? = none)
    {before : Machine} (closed : ∀ wait, before.wait? = some wait →
      (world.deferred wait.deferred).isOpen = false) (error : ScriptError) :
    before.Lives code (machine.abort world error) := by
  unfold abort halt
  rw [World.cancelWait_of_no_wait free]
  exact ⟨formed.halted, fun _ => rfl, fun wait waiting => Or.inr (closed wait waiting)⟩

/-- Settling a machine that has not ended and waits for nothing. -/
theorem settle_lives (formed : machine.WellFormed code world)
    (unfinished : machine.status ≠ .finished) (free : machine.wait? = none)
    {before : Machine} (closed : ∀ wait, before.wait? = some wait →
      (world.deferred wait.deferred).isOpen = false) :
    before.Lives code (machine.settle world) := by
  have spec := unwind_spec machine.frame machine.callers machine.stack
  unfold settle
  generalize unwind machine.frame machine.callers machine.stack = unwound at spec
  obtain ⟨frame, callers, stack⟩ := unwound
  obtain ⟨shorter, same, last⟩ := spec
  have below : WellFormed code { machine with frame, callers, stack } world :=
    { coherent := formed.coherent
      depth := Nat.le_trans shorter formed.depth
      outermost := (congrArg Frame.code same).trans formed.outermost
      finished := fun ended => absurd ended unfinished
      known := .ofAwake free
      sound := formed.sound }
  dsimp only
  split
  · rename_i isDone
    obtain rfl := last isDone
    split
    · rename_i empty
      refine ⟨⟨.ofFree nofun free, below.depth, below.outermost,
        fun _ => ⟨List.isEmpty_iff.mp empty, rfl, ?_⟩, .ofAwake free, below.sound⟩,
        fun failed => absurd rfl failed, fun wait waiting => ?_⟩
      · rw [← below.outermost]
        exact of_decide_eq_true isDone
      · exact Or.inr (closed wait waiting)
    · exact abort_lives below free closed _
  · exact ⟨below, fun failed => absurd rfl failed, fun wait waiting => Or.inr (closed wait waiting)⟩

section

variable (lawful : host.Keeps World.Progress) (answers : host.AnswersKnown)

include lawful answers

theorem advance_lives (formed : machine.WellFormed code world)
    (running : machine.status = .running) : machine.Lives code (machine.advance host world) := by
  have awake := (formed.coherent.active (Or.inr running)).awake
  have free : ∀ {goal : Wait → Prop} wait, machine.wait? = some wait → goal wait :=
    fun _ waiting => nomatch awake.symm.trans waiting
  have kept : machine.KeepsFrames machine.begun := ⟨rfl, rfl, Or.inl ⟨rfl, rfl⟩⟩
  have begun : machine.begun.WellFormed code world :=
    { coherent := formed.coherent
      depth := formed.depth
      outermost := kept.outermost.trans formed.outermost
      finished := fun ended => nomatch running.symm.trans ended
      known := .ofAwake awake
      sound := formed.sound }
  rw [advance_eq]
  split
  · exact abort_lives begun awake free _
  · rename_i instr _
    have executed : World.Progress world
        (machine.begun.execute host machine.frame.position instr (world.pass 1000)).2 :=
      ((World.Becomes.records world _ _ _ _ _).trans
        (becomes_execute _ _ _ (world.pass 1000))).progress lawful
    split
    · rename_i next after outcome
      rw [outcome] at executed
      have later := begun.later executed
      have advances := execute_advances outcome
      have moved : next.WellFormed code after :=
        { coherent := advances.coherent begun.coherent
          depth := by
            rcases advances.depth with less | bounded
            · exact Nat.le_trans less later.depth
            · exact Nat.le_trans bounded (Nat.le_of_eq (congrArg _ executed.limits.symm))
          outermost := advances.outermost.trans later.outermost
          finished := by
            intro ended
            rcases advances.status with ⟨same, _⟩ | ⟨waits, _⟩
            · exact nomatch (running.symm.trans same.symm).trans ended
            · exact nomatch waits.symm.trans ended
          known := execute_known answers outcome awake
          sound := later.sound }
      split
      · rename_i still
        have active := moved.coherent.active (Or.inr still)
        exact settle_lives moved active.unfinished active.awake free
      · exact ⟨moved, fun failed => absurd rfl failed, free⟩
    · rename_i error after outcome
      rw [outcome] at executed
      exact abort_lives (begun.later executed) awake free _

end

theorem isOpen_of_resolved {deferred : Deferred Provider} (resolved : deferred.resolved = true) :
    deferred.isOpen = false := by
  rw [Deferred.isOpen, resolved]
  rfl

theorem isOpen_of_cancelled {deferred : Deferred Provider} (cancelled : deferred.cancelled = true) :
    deferred.isOpen = false := by
  rw [Deferred.isOpen, cancelled, Bool.not_true, Bool.and_false]

/-- Who has been told of a result does not wait for an open one. -/
theorem resolved_of_isWoken {wait : Wait} (sound : (world.deferred wait.deferred).Sound)
    (woken : world.isWoken wait = true) : (world.deferred wait.deferred).resolved = true := by
  refine sound fun nobody => ?_
  rw [World.isWoken, nobody] at woken
  exact nomatch woken

theorem awaken_lives (formed : machine.WellFormed code world) {wait : Wait}
    (waiting : machine.wait? = some wait) (woken : world.isWoken wait = true) :
    machine.Lives code (machine.awaken wait.deferred world) := by
  have progress : World.Progress world (world.modifyDeferred wait.deferred .take) :=
    .ofModify world wait.deferred Deferred.Progress.ofTake
  have resolved := resolved_of_isWoken (formed.sound wait.deferred) woken
  have closed : ∀ other, machine.wait? = some other →
      ((world.modifyDeferred wait.deferred .take).deferred other.deferred).isOpen = false := by
    intro other same
    obtain rfl := Option.some.inj (waiting.symm.trans same)
    exact isOpen_of_resolved ((progress.deferred wait.deferred).resolved resolved)
  have later := formed.later progress
  unfold awaken
  dsimp only
  split
  · exact ⟨later.revise rfl, fun failed => absurd rfl failed,
      fun other same => Or.inr (closed other same)⟩
  · exact ⟨later.halted, fun _ => rfl, fun other same => Or.inr (closed other same)⟩
  · exact ⟨later.halted, fun _ => rfl, fun other same => Or.inr (closed other same)⟩

section

variable {poll : Poller σ} (polls : ∀ ref world, World.Becomes host world (poll ref world))
variable (lawful : host.Keeps World.Progress)

include polls lawful

theorem resume_lives (formed : machine.WellFormed code world) :
    machine.Lives code (machine.resume poll world) := by
  unfold resume
  split
  · exact .ofSame formed
  · rename_i wait waiting
    have later : machine.WellFormed code (attend poll wait world) := by
      unfold attend
      split
      · exact formed
      · exact formed.later ((polls wait.deferred world).progress lawful)
    dsimp only
    split
    · rename_i woken
      exact awaken_lives later waiting woken
    · exact .ofSame later

variable (answers : host.AnswersKnown)

include answers

theorem step_lives (formed : machine.WellFormed code world) :
    machine.Lives code (machine.step host poll world) := by
  have resumed := resume_lives polls lawful formed
  have free (status : machine.status = .ready ∨ machine.status = .running) {goal : Wait → Prop}
      (wait : Wait) (waiting : machine.wait? = some wait) : goal wait := by
    cases (formed.coherent.active status).awake.symm.trans waiting
  have goesOn (status : machine.status = .ready ∨ machine.status = .running) :
      machine.Lives code ({ machine with status := .running }.settle world) := by
    have awake := (formed.coherent.active status).awake
    have started : WellFormed code { machine with status := .running } world := formed.revise awake
    exact settle_lives started (Active.unfinished ⟨Or.inr rfl, awake⟩) awake (free status)
  have stepped := step_stepped host poll machine world
  generalize machine.step host poll world = turn at stepped ⊢
  cases stepped with
  | ended => exact .ofSame formed
  | stayed => exact resumed
  | woke asleep noError awake =>
      obtain ⟨wait, waits⟩ := formed.coherent.waits asleep
      have unfinished := resume_unfinished poll waits.unfinished noError
      refine settle_lives resumed.formed unfinished awake fun other waiting => ?_
      refine (resumed.waits other waiting).resolve_left fun waits => ?_
      cases awake.symm.trans waits
  | settled status => exact goesOn status
  | advanced status running =>
      have settled := (goesOn status).formed
      rw [settle_world_of_running running] at settled
      have advanced := advance_lives lawful answers settled running
      exact ⟨advanced.formed, advanced.ended, free status⟩

/-- A machine that has gone on no longer waits for what it waited for before. -/
theorem runCycles_lives (budget : Nat) (formed : machine.WellFormed code world) :
    machine.Lives code (machine.runCycles host poll budget world) := by
  induction budget generalizing machine world with
  | zero => exact .ofSame formed
  | succ budget ih =>
      have stepped := step_lives polls lawful answers formed
      unfold runCycles
      dsimp only
      split
      · rename_i running
        have closed : ∀ wait, machine.wait? = some wait →
            ((machine.step host poll world).world.deferred wait.deferred).isOpen = false := by
          intro wait waiting
          have awake := (stepped.formed.coherent.active (Or.inr running)).awake
          refine (stepped.waits wait waiting).resolve_left fun waits => ?_
          exact nomatch awake.symm.trans waits
        split
        · refine ⟨?_, fun failed => ?_, fun wait waiting => Or.inr (closed wait waiting)⟩
          · have formed := stepped.formed
            exact ⟨formed.coherent, formed.depth, formed.outermost, formed.finished, formed.known,
              formed.sound⟩
          · exact stepped.ended failed
        · have rest := ih stepped.formed
          refine ⟨rest.formed, rest.ended, fun wait waiting => Or.inr ?_⟩
          have progress := (becomes_runCycles polls budget (machine.step host poll world).machine
            (machine.step host poll world).world).progress lawful
          exact (progress.deferred wait.deferred).closed (closed wait waiting)
      · exact stepped

end

/-- Giving up a deferred result that is in the world cancels it. -/
theorem cancelled_cancel {ref : DeferredRef} (known : ref.index < world.deferreds.size) :
    ((world.cancel ref).deferred ref).cancelled = true := by
  have first : ((world.modifyDeferred ref .cancel).deferred ref).cancelled = true := by
    rw [World.deferred_modifyDeferred_self world ref _ known]
    rfl
  unfold World.cancel
  generalize world.deferreds.size = fuel
  cases fuel with
  | zero => exact first
  | succ fuel =>
      unfold World.cancelWithin
      dsimp only
      split
      · split
        · rename_i wait _
          have becomes : World.Becomes Host.silent (world.modifyDeferred ref .cancel)
              (World.cancelWithin fuel wait.deferred (world.modifyDeferred ref .cancel)) :=
            World.becomes_cancelWithin _ _ _
          have progress := becomes.progress (Host.silent_keeps World.Progress.refl)
          exact (progress.deferred ref).cancelled first
        · exact first
      · exact first

/-- A machine that is ended by force cancels what it waited for. -/
theorem halt_lives (formed : machine.WellFormed code world) :
    machine.halted.WellFormed code (world.cancelWait machine) ∧
      ∀ wait, machine.wait? = some wait →
        ((world.cancelWait machine).deferred wait.deferred).cancelled = true := by
  have becomes : World.Becomes Host.silent world (world.cancelWait machine) :=
    World.becomes_cancelWait machine world
  have progress := becomes.progress (Host.silent_keeps World.Progress.refl)
  refine ⟨(formed.later progress).halted, fun wait waiting => ?_⟩
  rw [World.cancelWait, waiting]
  exact cancelled_cancel (formed.known wait waiting)

theorem pause_lives (formed : machine.WellFormed code world) :
    machine.Lives code (machine.pause world) := by
  unfold pause
  split
  · exact .ofSame formed
  · split
    · exact .ofSame formed
    · split
      · exact .ofSame (formed.later ⟨rfl, Nat.le_refl _, fun _ => .refl _⟩)
      · obtain ⟨halted, cancelled⟩ := halt_lives formed
        refine ⟨halted, fun _ => rfl, fun other waiting => Or.inr ?_⟩
        exact isOpen_of_cancelled (cancelled other waiting)

theorem stop_lives (formed : machine.WellFormed code world) :
    machine.Lives code (machine.stop world) ∧ (machine.stop world).machine.status = .finished := by
  unfold stop
  split
  · rename_i ended
    exact ⟨.ofSame formed, of_decide_eq_true ended⟩
  · obtain ⟨halted, cancelled⟩ := halt_lives formed
    refine ⟨⟨halted, fun failed => absurd rfl failed, fun other waiting => Or.inr ?_⟩, rfl⟩
    exact isOpen_of_cancelled (cancelled other waiting)

theorem serve_lives (lawful : host.Keeps World.Progress) (answers : host.AnswersKnown)
    (formed : machine.WellFormed code world) (request : Request) :
    machine.Lives code (machine.serve host world request) := by
  cases request with
  | step => exact step_lives World.becomes_poll lawful answers formed
  | cycles budget => exact runCycles_lives World.becomes_poll lawful answers budget formed
  | burst => exact runCycles_lives World.becomes_poll lawful answers _ formed
  | resume => exact resume_lives World.becomes_poll lawful formed
  | pause => exact pause_lives formed
  | stop => exact (stop_lives formed).1

theorem runCycles_finished (poll : Poller σ) (ended : machine.status = .finished) (budget : Nat)
    (world : World σ) : machine.runCycles host poll budget world = { machine, world } := by
  cases budget with
  | zero => rfl
  | succ budget =>
      unfold runCycles
      rw [step_finished host poll ended]
      dsimp only
      rw [ended]

/-- Whatever a machine that has ended is asked, nothing changes. -/
theorem serve_finished (ended : machine.status = .finished) (awake : machine.wait? = none)
    (world : World σ) (request : Request) :
    machine.serve host world request = { machine, world } := by
  cases request with
  | step => exact step_finished host _ ended world
  | cycles budget => exact runCycles_finished _ ended budget world
  | burst => exact runCycles_finished _ ended _ world
  | resume => simp only [serve, resume, awake]
  | pause => simp only [serve, pause, awake]
  | stop => simp only [serve, stop, isFinished, ended, decide_true, if_true]

theorem Run.wellFormed {first : Machine} {initial : World σ} (lawful : host.Keeps World.Progress)
    (answers : host.AnswersKnown) (run : Run host World.Progress first initial machine world)
    (formed : first.WellFormed code initial) : machine.WellFormed code world := by
  induction run with
  | start => exact formed
  | serve before request ih => exact (serve_lives lawful answers ih request).formed
  | change before changed ih => exact ih.later changed

/-- What is true of a machine at any time, and of whatever it is asked then. -/
structure Lifecycle (host : Host σ) (code : Code) (machine : Machine) (world : World σ) : Prop where
  suspended : machine.status.name = "Suspended" ↔ machine.wait?.isSome = true
  depth : machine.depth ≤ world.limits.maxCallDepth
  finished : machine.status = .finished → machine.stack = [] ∧ machine.callers = [] ∧
    machine.wait? = none ∧ machine.frame.code = code ∧ code.size ≤ machine.position
  stays : machine.status = .finished → ∀ request,
    machine.serve host world request = { machine, world }
  ends : ∀ request, (machine.serve host world request).error ≠ none ∨ request = .stop →
    (machine.serve host world request).machine.status = .finished ∧
      ∀ wait, machine.wait? = some wait →
        ((machine.serve host world request).world.deferred wait.deferred).resolved = false →
          ((machine.serve host world request).world.deferred wait.deferred).cancelled = true

theorem Status.name_eq_suspended_iff {status : Status} :
    status.name = "Suspended" ↔ status = .suspended := by
  cases status with
  | suspended => exact ⟨fun _ => rfl, fun _ => rfl⟩
  | _ => exact ⟨fun named => absurd named (by decide), nofun⟩

/-- Every run of a machine, on any code and with requests in any order, while natives and others
complete, fail and cancel deferred results. -/
theorem run_keeps_lifecycle (lawful : host.Keeps World.Progress) (answers : host.AnswersKnown)
    {initial : World σ} (sound : ∀ ref, (initial.deferred ref).Sound) (code : Code)
    (scope : ScopeRef)
    (run : Run host World.Progress (.start code scope) initial machine world) :
    machine.Lifecycle host code world := by
  have formed : machine.WellFormed code world := by
    refine run.wellFormed lawful answers ?_
    exact ⟨.ofFree nofun rfl, Nat.zero_le _, rfl, nofun, .ofAwake rfl, sound⟩
  have released (ended : machine.status = .finished) : machine.wait? = none :=
    formed.coherent.free (ended ▸ nofun)
  refine ⟨Status.name_eq_suspended_iff.trans formed.coherent, formed.depth, fun ended => ?_,
    fun ended => serve_finished ended (released ended) world, ?_⟩
  · obtain ⟨empty, alone, beyond⟩ := formed.finished ended
    refine ⟨empty, alone, released ended, ?_, beyond⟩
    rw [← formed.outermost, Machine.outermost, alone]
    rfl
  · intro request asked
    have lives := serve_lives lawful answers formed request
    have ended : (machine.serve host world request).machine.status = .finished := by
      rcases asked with failed | rfl
      · exact lives.ended failed
      · exact (stop_lives formed).2
    refine ⟨ended, fun wait waiting unresolved => ?_⟩
    have released := lives.formed.coherent.free (ended ▸ nofun)
    have closed := (lives.waits wait waiting).resolve_left fun waits =>
      nomatch released.symm.trans waits
    rw [Deferred.isOpen, unresolved, Bool.not_false, Bool.true_and, Bool.not_eq_eq_eq_not] at closed
    exact closed

end Machine

/-- A host whose natives all answer later. -/
def Host.slow : Host Unit where
  call _ _ world := (.ok { answer := .pending world.nextDeferred }, world.addDeferred none)
  poll _ world := (none, world)
  intercept _ _ _ world := (.ok (), world)
  load? := none
  notify _ world := world

theorem Host.slow_keeps : Host.slow.Keeps World.Progress where
  call _ _ world := .ofDefer world none
  poll _ world := .refl world
  intercept _ _ _ world := .refl world
  load := nofun

theorem Host.slow_answersKnown : Host.slow.AnswersKnown := by
  rintro id call world reply after ⟨⟩ ref ⟨⟩
  simp only [World.nextDeferred, World.addDeferred, Array.size_push, Nat.lt_succ_self]

/-- A world with one native of the host. -/
def World.withNative (limits : Limits) : World Unit :=
  (World.initial limits ()).modifyHeap fun heap =>
    { heap with functions := #[{ name := none, params := [], body := .host 0 }] }

/-- Code that no compiler writes: it calls a native and leaves the result behind. -/
def Code.leftoverCall : Code where
  instrs := #[{ op := .pushFunction, first := .func ⟨0⟩ }, Compiler.withCount .callValue 0]

/-- The native is called, its result comes, and the operand that is left ends the machine. -/
theorem Machine.leftover_call_keeps_lifecycle :
    let called := (Machine.start .leftoverCall ⟨0⟩).serve .slow (.withNative {}) (.cycles 2)
    let told := called.world.modifyDeferred ⟨0⟩ fun deferred => deferred.resolve (.ok .null)
    let turn := called.machine.serve .slow told .burst
    called.machine.status = .suspended ∧ called.machine.wait? = some ⟨⟨0⟩, 0⟩ ∧
      turn.error = some (.internal (.leftover 1)) ∧
      turn.machine.Lifecycle .slow .leftoverCall turn.world := by
  refine ⟨rfl, rfl, rfl, ?_⟩
  refine Machine.run_keeps_lifecycle Host.slow_keeps Host.slow_answersKnown ?_ .leftoverCall ⟨0⟩
    (.serve (.change (.serve .start (.cycles 2)) ?_) .burst)
  · intro ref told
    exact absurd rfl told
  · exact .ofModify _ _ fun deferred => .ofResolve deferred _

end MiniScript
