import MiniScript.Proofs.Machine.Lifecycle

/-!
# Waiting changes nothing

A native that answers later leads to where it would have led by answering at once:
while its result is outstanding the machine stands still, however often it is asked
to go on; when the result comes it becomes an operand, once, and a failure is
reported at the call.
-/

namespace MiniScript

variable {σ : Type} {host : Host σ}

/-- Whether or not it has the result, the host looks for it without touching the heap, and without
touching the deferred except to resolve it. -/
structure Host.LooksOnly (host : Host σ) (poller : Nat) (ref : DeferredRef) : Prop where
  heap : ∀ world, (host.poll poller world).2.heap = world.heap
  deferred : ∀ world, (host.poll poller world).2.deferred ref = world.deferred ref ∨
    ((host.poll poller world).2.deferred ref).resolved = true

namespace World

variable {world : World σ} {wait : Wait} {poller : Option Nat}

/-- A machine waits for a result that has not come. The host is asked for it when the machine looks,
if there is a `poller`. -/
structure Outstanding (world : World σ) (wait : Wait) (poller : Option Nat) : Prop where
  known : wait.deferred.index < world.deferreds.size
  state : world.deferred wait.deferred =
    { source := poller.map .host, waiter := some wait.waiter }

theorem Outstanding.isWoken (outstanding : world.Outstanding wait poller) :
    world.isWoken wait = false := by
  rw [World.isWoken, outstanding.state]
  rfl

/-- Once the result has been delivered, the machine has been told. -/
theorem Outstanding.resolve (outstanding : world.Outstanding wait poller) (delivery : Delivery) :
    (world.modifyDeferred wait.deferred (·.resolve delivery)).deferred wait.deferred =
      { result := some delivery, resolved := true, woken := [wait.waiter] } := by
  rw [deferred_modifyDeferred_self world wait.deferred _ outstanding.known, outstanding.state]
  rfl

theorem Outstanding.isWoken_resolve (outstanding : world.Outstanding wait poller)
    (delivery : Delivery) :
    (world.modifyDeferred wait.deferred (·.resolve delivery)).isWoken wait = true := by
  rw [World.isWoken, outstanding.resolve delivery]
  exact List.elem_cons_self

/-- A look that does not bring the result leaves the wait as it is. -/
theorem Outstanding.look (lawful : host.Keeps Progress)
    (quiet : ∀ id, poller = some id → host.LooksOnly id wait.deferred)
    (outstanding : world.Outstanding wait poller)
    (unresolved : ((poll host wait.deferred world).deferred wait.deferred).resolved = false) :
    (poll host wait.deferred world).Outstanding wait poller ∧
      (poll host wait.deferred world).heap = world.heap := by
  cases poller with
  | none =>
      have same : poll host wait.deferred world = world := by
        unfold poll pollWithin
        rw [outstanding.state]
        rfl
      rw [same]
      exact ⟨outstanding, rfl⟩
  | some id =>
      obtain ⟨heap, deferred⟩ := quiet id rfl
      have lent : (world.modifyDeferred wait.deferred .lend).deferred wait.deferred =
          { waiter := some wait.waiter } := by
        rw [deferred_modifyDeferred_self world wait.deferred _ outstanding.known,
          outstanding.state]
        rfl
      have grows := (lawful.poll id (world.modifyDeferred wait.deferred .lend)).size
      have looked : poll host wait.deferred world =
          (host.poll id (world.modifyDeferred wait.deferred .lend)).2.modifyDeferred wait.deferred
            (·.settle (host.poll id (world.modifyDeferred wait.deferred .lend)).1 (.host id)) := by
        unfold poll pollWithin
        rw [outstanding.state]
        rfl
      have unchanged := heap (world.modifyDeferred wait.deferred .lend)
      have state := deferred (world.modifyDeferred wait.deferred .lend)
      rw [lent] at state
      generalize host.poll id (world.modifyDeferred wait.deferred .lend) = asked at *
      obtain ⟨answer, later⟩ := asked
      have known : wait.deferred.index < later.deferreds.size := by
        refine Nat.lt_of_lt_of_le outstanding.known (Nat.le_trans (Nat.le_of_eq ?_) grows)
        exact Array.size_modify.symm
      have after : (poll host wait.deferred world).deferred wait.deferred =
          (later.deferred wait.deferred).settle answer (.host id) := by
        rw [looked, deferred_modifyDeferred_self later wait.deferred _ known]
      rw [after] at unresolved
      rcases state with same | resolved
      · rw [same] at after unresolved
        cases answer with
        | none =>
            refine ⟨⟨?_, after⟩, by rw [looked]; exact unchanged⟩
            rw [looked]
            exact Nat.lt_of_lt_of_eq known Array.size_modify.symm
        | some result => cases unresolved
      · have stays := (Deferred.Progress.ofSettle (later.deferred wait.deferred) answer
          (Provider.host id)).resolved resolved
        cases stays.symm.trans unresolved

end World

/-- Whether the request only asks the machine to go on. -/
def Request.goesOn : Request → Bool
  | .step => true
  | .cycles _ => true
  | .burst => true
  | .resume => true
  | .pause => false
  | .stop => false

namespace Machine

open World

variable {machine waiting : Machine} {world after : World σ} {wait : Wait} {poller : Option Nat}

/-- The machine and the world after requests to go on, none of which has brought the result. -/
inductive Awaits (host : Host σ) (ref : DeferredRef) (first : Machine) (initial : World σ) :
    Machine → World σ → Prop where
  | start : Awaits host ref first initial first initial
  | again {machine : Machine} {world : World σ}
      (before : Awaits host ref first initial machine world) (request : Request)
      (goesOn : request.goesOn = true)
      (unresolved : ((machine.serve host world request).world.deferred ref).resolved = false) :
      Awaits host ref first initial (machine.serve host world request).machine
        (machine.serve host world request).world

/-- A machine that looks in vain. -/
theorem resume_outstanding (waits : machine.WaitsFor wait)
    (before : world.Outstanding wait poller)
    (looked : (poll host wait.deferred world).Outstanding wait poller) :
    machine.resume (poll host) world = { machine, world := poll host wait.deferred world } := by
  simp only [resume, waits.wait, attend, before.isWoken, looked.isWoken, Bool.false_eq_true,
    if_false]

theorem step_outstanding (waits : machine.WaitsFor wait)
    (before : world.Outstanding wait poller)
    (looked : (poll host wait.deferred world).Outstanding wait poller) :
    machine.step host (poll host) world =
      { machine, world := poll host wait.deferred world } := by
  simp only [step, waits.status, resume_outstanding waits before looked]
  exact if_neg (waits.not_goesOn _)

theorem runCycles_outstanding (waits : machine.WaitsFor wait)
    (before : world.Outstanding wait poller)
    (looked : (poll host wait.deferred world).Outstanding wait poller) (budget : Nat) :
    machine.runCycles host (poll host) (budget + 1) world =
      { machine, world := poll host wait.deferred world } := by
  simp only [runCycles, step_outstanding waits before looked, waits.status]

/-- Whatever a waiting machine is asked, at first it looks. -/
theorem progress_resume (lawful : host.Keeps Progress) (waits : machine.WaitsFor wait)
    (before : world.Outstanding wait poller) :
    Progress (poll host wait.deferred world) (machine.resume (poll host) world).world := by
  simp only [resume, waits.wait, attend, before.isWoken, Bool.false_eq_true, if_false]
  split
  · exact (becomes_awaken machine wait.deferred _).progress lawful
  · exact .refl _

theorem progress_step (lawful : host.Keeps Progress) (waits : machine.WaitsFor wait)
    (before : world.Outstanding wait poller) :
    Progress (poll host wait.deferred world) (machine.step host (poll host) world).world := by
  have resumed := progress_resume lawful waits before
  simp only [step, waits.status]
  split
  · rename_i goes
    rw [settle_world (goesOn_iff.mp goes).2]
    exact resumed
  · exact resumed

theorem progress_runCycles (lawful : host.Keeps Progress)
    (waits : machine.WaitsFor wait) (before : world.Outstanding wait poller)
    (budget : Nat) :
    Progress (poll host wait.deferred world)
      (machine.runCycles host (poll host) (budget + 1) world).world := by
  have stepped := progress_step lawful waits before
  unfold runCycles
  dsimp only
  split
  · split
    · exact stepped
    · exact stepped.trans ((becomes_runCycles becomes_poll budget _ _).progress lawful)
  · exact stepped

/-- What a waiting machine is after a request that has not brought the result. -/
def StandsStill (machine : Machine) (wait : Wait) (poller : Option Nat) (world : World σ)
    (turn : Turn σ) : Prop :=
  turn.machine = machine ∧ turn.world.Outstanding wait poller ∧ turn.world.heap = world.heap

section

variable (lawful : host.Keeps Progress)
variable (quiet : ∀ id, poller = some id → host.LooksOnly id wait.deferred)

include lawful quiet

/-- Had the look brought the result, it would still be there after the request. -/
theorem standsStill_of_look (before : world.Outstanding wait poller) {turn : Turn σ}
    (progress : Progress (poll host wait.deferred world) turn.world)
    (inVain : (poll host wait.deferred world).Outstanding wait poller →
      turn = { machine, world := poll host wait.deferred world })
    (unresolved : (turn.world.deferred wait.deferred).resolved = false) :
    machine.StandsStill wait poller world turn := by
  cases looked : ((poll host wait.deferred world).deferred wait.deferred).resolved with
  | true => exact nomatch ((progress.deferred wait.deferred).resolved looked).symm.trans unresolved
  | false =>
      obtain ⟨outstanding, heap⟩ := before.look lawful quiet looked
      rw [inVain outstanding]
      exact ⟨rfl, outstanding, heap⟩

theorem runCycles_standsStill (waits : machine.WaitsFor wait)
    (before : world.Outstanding wait poller) (budget : Nat)
    (unresolved : ((machine.runCycles host (poll host) budget world).world.deferred
      wait.deferred).resolved = false) :
    machine.StandsStill wait poller world (machine.runCycles host (poll host) budget world) := by
  cases budget with
  | zero => exact ⟨rfl, before, rfl⟩
  | succ budget =>
      refine standsStill_of_look lawful quiet before ?_ ?_ unresolved
      · exact progress_runCycles lawful waits before budget
      · exact fun looked => runCycles_outstanding waits before looked budget

theorem serve_standsStill (waits : machine.WaitsFor wait)
    (before : world.Outstanding wait poller) {request : Request} (goesOn : request.goesOn = true)
    (unresolved : ((machine.serve host world request).world.deferred
      wait.deferred).resolved = false) :
    machine.StandsStill wait poller world (machine.serve host world request) := by
  cases request with
  | step =>
      refine standsStill_of_look lawful quiet before ?_ ?_ unresolved
      · exact progress_step lawful waits before
      · exact fun looked => step_outstanding waits before looked
  | cycles budget => exact runCycles_standsStill lawful quiet waits before budget unresolved
  | burst => exact runCycles_standsStill lawful quiet waits before _ unresolved
  | resume =>
      refine standsStill_of_look lawful quiet before ?_ ?_ unresolved
      · exact progress_resume lawful waits before
      · exact fun looked => resume_outstanding waits before looked
  | pause => cases goesOn
  | stop => cases goesOn

/-- However often a waiting machine is asked to go on. -/
theorem Awaits.standsStill {first : Machine} {initial : World σ}
    (waits : first.WaitsFor wait) (outstanding : initial.Outstanding wait poller)
    (awaits : Awaits host wait.deferred first initial machine world) :
    first.StandsStill wait poller initial { machine, world } := by
  induction awaits with
  | start => exact ⟨rfl, outstanding, rfl⟩
  | again before request goesOn unresolved ih =>
      obtain ⟨rfl, still, heap⟩ := ih
      obtain ⟨same, later, unchanged⟩ :=
        serve_standsStill lawful quiet waits still goesOn unresolved
      exact ⟨same, later, unchanged.trans heap⟩

end

/-- The next instruction of `machine` calls the native `id` of the host. At the call the machine is
`calling`, because functions whose code has run out are left first, and `next` once it has taken the
operands of the call. -/
inductive Invokes (world : World σ) (machine calling : Machine) (id : Nat) (call : Invocation)
    (next : Machine) : Prop where
  | native {instr : Instr} {closure : Closure} {args : List Value} {receiver : Option Value}
      {owner : Option MapRef}
      (active : machine.Active)
      (settled : ({ machine with status := .running }.settle world).machine = calling)
      (running : calling.status = .running)
      (fetched : calling.frame.code.instrs[calling.position]? = some instr)
      (planned : plan (world.pass 1000) calling.begun calling.position instr =
        .ok (.call next (.function closure) args receiver owner))
      (definition : world.heap.definition closure.definition = call.definition)
      (body : call.definition.body = .host id)
      (binds : bindArguments call.definition args receiver = .ok call.args)
      (scope : next.frame.scope = call.scope)

variable {calling next : Machine} {id : Nat} {call : Invocation}

/-- The operands are taken from the stack; nothing else happens to the machine before the call. -/
theorem Invokes.sameFrames (invokes : Invokes world machine calling id call next) :
    calling.begun.SameFrames next := by
  obtain ⟨active, settled, running, fetched, planned, definition, body, binds, scope⟩ := invokes
  exact (plan_continues _ _ _ _ _ planned).called rfl

theorem Invokes.status (invokes : Invokes world machine calling id call next) :
    next.status = .running := by
  have same := invokes.sameFrames
  obtain ⟨active, settled, running, fetched, planned, definition, body, binds, scope⟩ := invokes
  exact same.status.trans running

/-- Who calls waits for nothing. -/
theorem Invokes.free (invokes : Invokes world machine calling id call next) :
    calling.wait? = none ∧ next.wait? = none := by
  have same := invokes.sameFrames
  obtain ⟨active, rfl, running, fetched, planned, definition, body, binds, scope⟩ := invokes
  have free : ({ machine with status := .running }.settle world).machine.wait? = none :=
    @settle_free σ { machine with status := .running } active.awake world
  exact ⟨free, same.wait.trans free⟩

/-- The step of the call, whatever the native answers. -/
theorem Invokes.stepOnce (invokes : Invokes world machine calling id call next) (host : Host σ) :
    machine.stepOnce host world =
      match next.receiveOutcome (host.call id call (world.pass 1000)) with
      | (.ok next, world) =>
          if next.status = .running then next.settle world else { machine := next, world }
      | (.error error, world) =>
          { machine := calling.begun.halted, world
            error := some (error.locate calling.frame.code calling.position) } := by
  have free : calling.begun.wait? = none := invokes.free.1
  obtain ⟨active, rfl, running, fetched, planned, definition, body, binds, scope⟩ := invokes
  rw [Machine.stepOnce, step_of_running host _ active.status running, advance_eq]
  simp only [position] at fetched planned
  rw [fetched]
  dsimp only
  rw [execute_eq, planned]
  simp only [perform, Machine.call, World.pass, definition, binds, invoke, body, scope,
    abort_of_no_wait free]
  rfl

/-- Two machines have got to the same point: they differ at most in what they note about the last
instruction. -/
structure SamePoint (machine other : Machine) : Prop where
  frame : machine.frame = other.frame
  callers : machine.callers = other.callers
  stack : machine.stack = other.stack
  status : machine.status = other.status
  wait : machine.wait? = other.wait?

theorem SamePoint.refl (machine : Machine) : machine.SamePoint machine :=
  ⟨rfl, rfl, rfl, rfl, rfl⟩

/-- Whether a program has ended shows in the point it has got to, and not in the world. -/
theorem SamePoint.settle {other : Machine} (same : machine.SamePoint other) :
    (machine.settle world).machine.SamePoint (other.settle after).machine ∧
      (machine.settle world).error = (other.settle after).error := by
  unfold Machine.settle
  rw [same.frame, same.callers, same.stack]
  dsimp only
  split
  · split
    · exact ⟨⟨rfl, rfl, rfl, rfl, same.wait⟩, rfl⟩
    · refine ⟨⟨?_, rfl, rfl, rfl, rfl⟩, rfl⟩
      simp only [abort, halt, halted, outermost]
  · exact ⟨⟨rfl, rfl, rfl, same.status, same.wait⟩, rfl⟩

theorem halted_samePoint (same : machine.SameFrames next) (yields native : Bool) (status : Status)
    (wait? : Option Wait) :
    SamePoint
      { next with status, wait?, yieldRequested := yields, lastCallNative := native }.halted
      machine.halted := by
  refine ⟨?_, rfl, rfl, rfl, rfl⟩
  simp only [halted, outermost, same.callers, same.frame]

theorem resume_resolved (waits : machine.WaitsFor wait)
    (outstanding : world.Outstanding wait poller) (delivery : Delivery) :
    machine.resume (poll host) (world.modifyDeferred wait.deferred (·.resolve delivery)) =
      machine.awaken wait.deferred (world.modifyDeferred wait.deferred (·.resolve delivery)) := by
  simp only [resume, waits.wait, attend, outstanding.isWoken_resolve, if_true]

/-- The machine goes on with the value as an operand. -/
theorem resume_value (waits : machine.WaitsFor wait)
    (outstanding : world.Outstanding wait poller) (value : Value) :
    machine.resume (poll host) (world.modifyDeferred wait.deferred (·.resolve (.ok value))) =
      { machine := { machine with status := .running, wait? := none }.push value
        world := (world.modifyDeferred wait.deferred (·.resolve (.ok value))).modifyDeferred
          wait.deferred .take } := by
  rw [resume_resolved waits outstanding]
  unfold awaken
  rw [outstanding.resolve]
  rfl

/-- The failure is reported at the instruction before the one that would be next. -/
theorem resume_failure (waits : machine.WaitsFor wait)
    (outstanding : world.Outstanding wait poller) (error : RuntimeError) :
    machine.resume (poll host) (world.modifyDeferred wait.deferred (·.resolve (.error error))) =
      { machine := machine.halted
        world := (world.modifyDeferred wait.deferred (·.resolve (.error error))).modifyDeferred
          wait.deferred .take
        error := some ((ScriptError.runtime error).locate machine.frame.code
          (machine.position - 1)) } := by
  rw [resume_resolved waits outstanding]
  unfold awaken
  rw [outstanding.resolve]
  rfl

/-- A step in which the result comes also ends the program, if the call was its end. -/
theorem stepOnce_value (waits : machine.WaitsFor wait)
    (outstanding : world.Outstanding wait poller) (value : Value) :
    machine.stepOnce host (world.modifyDeferred wait.deferred (·.resolve (.ok value))) =
      ({ machine with status := .running, wait? := none }.push value).settle
        ((world.modifyDeferred wait.deferred (·.resolve (.ok value))).modifyDeferred
          wait.deferred .take) := by
  simp only [stepOnce, step, waits.status, resume_value waits outstanding]
  exact if_pos rfl

theorem stepOnce_failure (waits : machine.WaitsFor wait)
    (outstanding : world.Outstanding wait poller) (error : RuntimeError) :
    machine.stepOnce host (world.modifyDeferred wait.deferred (·.resolve (.error error))) =
      { machine := machine.halted
        world := (world.modifyDeferred wait.deferred (·.resolve (.error error))).modifyDeferred
          wait.deferred .take
        error := some ((ScriptError.runtime error).locate machine.frame.code
          (machine.position - 1)) } := by
  simp only [stepOnce, step, waits.status, resume_failure waits outstanding]
  exact if_neg (not_goesOn_of_error (Option.some_ne_none _))

/-- The machine while it waits for the answer of a native. -/
def parked (machine : Machine) (yields : Bool) (wait : Wait) : Machine :=
  { machine with
    status := .suspended
    wait? := some wait
    yieldRequested := yields
    lastCallNative := true }

theorem parked_waits (machine : Machine) (yields : Bool) (wait : Wait) :
    (machine.parked yields wait).WaitsFor wait :=
  ⟨rfl, rfl⟩

/-- A native that answers later: the machine waits for a result that is outstanding. -/
theorem Invokes.suspends (invokes : Invokes world machine calling id call next) {yields : Bool}
    (defers : host.call id call (world.pass 1000) =
      (.ok ⟨.pending after.nextDeferred, yields⟩, after.addDeferred (poller.map .host))) :
    ∃ initial, machine.stepOnce host world =
        { machine := next.parked yields ⟨after.nextDeferred, after.suspensions⟩
          world := initial } ∧
      initial.Outstanding ⟨after.nextDeferred, after.suspensions⟩ poller ∧
      initial.heap = after.heap := by
  rw [invokes.stepOnce host, defers]
  refine ⟨_, rfl, ⟨?_, ?_⟩, rfl⟩
  · simp only [World.modifyDeferred, World.addDeferred, World.nextDeferred, Array.size_modify,
      Array.size_push, Nat.lt_succ_self]
  · have fresh := deferred_nextDeferred after (poller.map Provider.host)
    have known : after.nextDeferred.index <
        (after.addDeferred (poller.map .host)).deferreds.size := by
      simp only [World.addDeferred, World.nextDeferred, Array.size_push, Nat.lt_succ_self]
    refine (deferred_modifyDeferred_self _ after.nextDeferred _ known).trans ?_
    rw [fresh]
    rfl

/-- A native that answers at once. -/
theorem Invokes.answers (invokes : Invokes world machine calling id call next) {yields : Bool}
    {value : Value} (atOnce : host.call id call (world.pass 1000) =
      (.ok ⟨.ready value, yields⟩, after)) :
    machine.stepOnce host world =
      ({ next with yieldRequested := yields, lastCallNative := true }.push value).settle after := by
  rw [invokes.stepOnce host, atOnce]
  exact if_pos invokes.status

/-- The instruction before the next one of a waiting machine is the call. -/
theorem Invokes.place (invokes : Invokes world machine calling id call next) :
    next.frame.code = calling.frame.code ∧ next.position - 1 = calling.position := by
  have same := invokes.sameFrames.frame
  constructor
  · rw [same]
    rfl
  · rw [position, same]
    rfl

/-- A native that answers with a result, and the same native if it delivers the result later: asked
to go on, the machine waits and does not change; after the result has come and one more step, both
runs are at the same point, with the same error and the same heap. -/
theorem suspension_is_transparent {now later : Host σ} {waited : World σ}
    (lawful : later.Keeps Progress) (invokes : Invokes world machine calling id call next)
    (delivery : Delivery) (yields hurries : Bool)
    (quiet : ∀ asked, poller = some asked → later.LooksOnly asked after.nextDeferred)
    (atOnce : now.call id call (world.pass 1000) =
      (delivery.map fun value => ⟨.ready value, yields⟩, after))
    (defers : later.call id call (world.pass 1000) =
      (.ok ⟨.pending after.nextDeferred, hurries⟩, after.addDeferred (poller.map .host)))
    (awaits : Awaits later after.nextDeferred (machine.stepOnce later world).machine
      (machine.stepOnce later world).world waiting waited) :
    let immediate := machine.stepOnce now world
    let parked := (machine.stepOnce later world).machine
    let told := waited.modifyDeferred after.nextDeferred (·.resolve delivery)
    let resumed := waiting.stepOnce later told
    waiting = parked ∧ parked.wait?.map (·.deferred) = some after.nextDeferred ∧
      resumed.machine.SamePoint immediate.machine ∧ resumed.error = immediate.error ∧
      resumed.world.heap = immediate.world.heap ∧
      (∀ value, delivery = .ok value →
        let answered := (waiting.resume (poll later) told).machine
        answered.stack = value :: parked.stack ∧
          resumed.machine.SamePoint (answered.settle told).machine) ∧
      ∀ error, delivery = .error error → resumed.error =
        some ((ScriptError.runtime error).locate calling.frame.code calling.position) := by
  obtain ⟨initial, parks, outstanding, unchanged⟩ := invokes.suspends defers
  rw [parks] at awaits ⊢
  have waits := parked_waits next hurries ⟨after.nextDeferred, after.suspensions⟩
  obtain ⟨rfl, still, heap⟩ := awaits.standsStill lawful quiet waits outstanding
  refine ⟨rfl, rfl, ?_⟩
  cases delivery with
  | ok value =>
      have point : SamePoint
          ({ next.parked hurries ⟨after.nextDeferred, after.suspensions⟩ with
            status := .running, wait? := none }.push value)
          ({ next with yieldRequested := yields, lastCallNative := true }.push value) :=
        ⟨rfl, rfl, rfl, invokes.status.symm, invokes.free.2.symm⟩
      rw [stepOnce_value waits still, invokes.answers atOnce,
        settle_world (point.wait.trans invokes.free.2), settle_world (point.wait.symm.trans rfl)]
      refine ⟨point.settle.1, point.settle.2, heap.trans unchanged, ?_, ?_⟩
      · rintro _ ⟨⟩
        rw [resume_value waits still]
        exact ⟨rfl, (SamePoint.refl _).settle.1⟩
      · rintro error ⟨⟩
  | error error =>
      have failed : machine.stepOnce now world =
          { machine := calling.begun.halted
            world := after
            error := some ((ScriptError.runtime error).locate calling.frame.code
              calling.position) } := by
        rw [invokes.stepOnce now, atOnce]
        rfl
      have point := halted_samePoint invokes.sameFrames hurries true .suspended
        (some ⟨after.nextDeferred, after.suspensions⟩)
      have place : (ScriptError.runtime error).locate next.frame.code (next.position - 1) =
          (ScriptError.runtime error).locate calling.frame.code calling.position := by
        rw [invokes.place.1, invokes.place.2]
      rw [stepOnce_failure waits still, failed]
      refine ⟨point, congrArg some place, heap.trans unchanged, ?_, ?_⟩
      · rintro value ⟨⟩
      · rintro _ ⟨⟩
        exact congrArg some place

end Machine

/-- A call of the only native. -/
def Invocation.native : Invocation where
  definition := { name := none, params := [], body := .host 0 }
  args := []
  scope := ⟨0⟩

/-- A machine whose next instruction, the last one, calls a native. -/
def Turn.beforeCall : Turn Unit :=
  (Machine.start .leftoverCall ⟨0⟩).stepOnce .slow (.withNative {})

/-- The machine once it waits for the native, and has looked for the result in vain. -/
def Turn.duringCall : Turn Unit :=
  let called := Turn.beforeCall.machine.stepOnce .slow Turn.beforeCall.world
  called.machine.serve .slow called.world (.cycles 3)

theorem Turn.beforeCall_invokes :
    Machine.Invokes Turn.beforeCall.world Turn.beforeCall.machine Turn.beforeCall.machine 0 .native
      { Turn.beforeCall.machine.begun with stack := [] } :=
  .native ⟨.inr rfl, rfl⟩ rfl rfl rfl rfl rfl rfl rfl rfl

theorem Turn.duringCall_awaits :
    let called := Turn.beforeCall.machine.stepOnce .slow Turn.beforeCall.world
    Machine.Awaits .slow ⟨0⟩ called.machine called.world Turn.duringCall.machine
      Turn.duringCall.world := by
  have unresolved : (Turn.duringCall.world.deferred ⟨0⟩).resolved = false := rfl
  exact .again .start (.cycles 3) rfl unresolved

/-- The result comes after the machine has looked for it in vain, and is left behind in both
runs. -/
theorem Machine.leftover_call_is_transparent :
    let told := Turn.duringCall.world.modifyDeferred ⟨0⟩ (·.resolve (.ok .null))
    let resumed := Turn.duringCall.machine.stepOnce .slow told
    let immediate := Turn.beforeCall.machine.stepOnce .silent Turn.beforeCall.world
    Turn.duringCall.machine.WaitsFor ⟨⟨0⟩, 0⟩ ∧
      immediate.error = some (.internal (.leftover 1)) ∧
      resumed.machine.SamePoint immediate.machine ∧ resumed.error = immediate.error ∧
      resumed.world.heap = immediate.world.heap := by
  have atOnce : Host.silent.call 0 .native (Turn.beforeCall.world.pass 1000) =
      (Except.map (fun value => ⟨.ready value, false⟩) (.ok .null),
        Turn.beforeCall.world.pass 1000) := rfl
  have defers : Host.slow.call 0 .native (Turn.beforeCall.world.pass 1000) =
      (.ok ⟨.pending (Turn.beforeCall.world.pass 1000).nextDeferred, false⟩,
        (Turn.beforeCall.world.pass 1000).addDeferred ((none : Option Nat).map .host)) := rfl
  have unasked : ∀ asked, (none : Option Nat) = some asked →
      Host.slow.LooksOnly asked (Turn.beforeCall.world.pass 1000).nextDeferred := nofun
  have transparent := Machine.suspension_is_transparent Host.slow_keeps Turn.beforeCall_invokes
    (.ok .null) false false unasked atOnce defers Turn.duringCall_awaits
  obtain ⟨-, -, point, error, heap, -⟩ := transparent
  exact ⟨⟨rfl, rfl⟩, rfl, point, error, heap⟩

end MiniScript
