import MiniScript.Proofs.Machine.Run
import MiniScript.Proofs.Machine.Seclusion

/-!
# What a step does to the variables of scopes

A secluded machine that takes a step in a secluded world leaves both secluded, as long
as it calls built-in functions and discreet natives alone. The only variables that have
changed afterwards are those of the current scope, and these only if the instruction was
an assignment or a turn of a loop. Waiting, stopping and being thrown away change none.
-/

namespace MiniScript

variable {σ : Type}

/-- A function that a program may call without anybody writing to its scopes. The import of a
module binds a variable of the caller, so it is none of them. -/
def Body.IsDiscreet (host : Host σ) : Body → Prop
  | .script _ => True
  | .builtin _ => True
  | .importer => False
  | .host id => host.CallsDiscreetly id

namespace Machine

/-- An outcome that leaves world and machine secluded, and no variables changed but those of
`writer`. -/
structure Confined (writer : Option ScopeRef) (before : World σ) (outcome : Outcome σ) : Prop where
  world : before.StaysSecluded writer outcome.2
  machine : Ensures (Secluded outcome.2.heap) outcome.1

section

variable {host : Host σ} {before world : World σ} {machine : Machine} {writer : Option ScopeRef}

theorem Confined.error {error : ScriptError} (stays : before.StaysSecluded writer world) :
    Confined writer before (.error error, world) :=
  ⟨stays, .error error⟩

theorem Confined.ok (stays : before.StaysSecluded writer world)
    (secluded : machine.Secluded world.heap) : Confined writer before (.ok machine, world) :=
  ⟨stays, .ok secluded⟩

theorem suspend_confined (stays : before.StaysSecluded writer world)
    (secluded : machine.Secluded world.heap) (ref : DeferredRef) :
    Confined writer before (machine.suspend ref world) := by
  have asked : world.StaysSecluded writer
      (world.modifyDeferred ref fun deferred => deferred.onReady world.suspensions) :=
    stays.secluded.modifyDeferred ref fun admits => admits.onReady _
  refine .ok ((stays.trans asked).trans (asked.secluded.records _ _ _ _ _)) ?_
  exact ⟨secluded.frame, secluded.callers, secluded.stack, secluded.apart⟩

theorem receive_confined (stays : before.StaysSecluded writer world)
    (secluded : machine.Secluded world.heap) {reply : Reply}
    (answered : ∀ value, reply.answer = .ready value → world.heap.Admits value) :
    Confined writer before (machine.receive reply world) := by
  have noted : Secluded world.heap
      { machine with yieldRequested := reply.yields, lastCallNative := true } :=
    ⟨secluded.frame, secluded.callers, secluded.stack, secluded.apart⟩
  unfold receive
  dsimp only
  split
  · rename_i value same
    exact .ok stays (noted.push (answered value same))
  · exact suspend_confined stays noted _

theorem receiveOutcome_confined {outcome : Except RuntimeError Reply × World σ}
    (stays : before.StaysSecluded writer outcome.2) (secluded : machine.Secluded outcome.2.heap)
    (answered : ∀ reply value, outcome.1 = .ok reply → reply.answer = .ready value →
      outcome.2.heap.Admits value) :
    Confined writer before (machine.receiveOutcome outcome) := by
  obtain ⟨error | reply, after⟩ := outcome
  · exact .error stays
  · exact receive_confined stays secluded fun value => answered reply value rfl

end

section

variable {heap : Heap}

theorem leadingArguments_admitted (definition : Definition) {receiver : Option Value}
    (received : ∀ value, receiver = some value → heap.Admits value) :
    ∀ value ∈ leadingArguments definition receiver, heap.Admits value := by
  unfold leadingArguments
  split
  · exact fun value member => received value (Option.mem_toList.mp member)
  · exact nofun

/-- What a function is called with is what was given, and its defaults. -/
theorem bindArguments_admitted {definition : Definition} (known : heap.AdmitsDefinition definition)
    {args : List Value} (admitted : ∀ arg ∈ args, heap.Admits arg) {receiver : Option Value}
    (received : ∀ value, receiver = some value → heap.Admits value) :
    Grants (fun bound => ∀ value ∈ bound, heap.Admits value)
      (bindArguments definition args receiver) := by
  unfold bindArguments
  dsimp only
  split
  · exact .error _
  · refine .ok (List.forall_mem_append.mpr ⟨List.forall_mem_append.mpr ⟨?_, admitted⟩, ?_⟩)
    · exact leadingArguments_admitted definition received
    · intro value member
      obtain ⟨param, among, rfl⟩ := List.mem_map.mp member
      exact known.defaults param (List.mem_of_mem_drop among)

theorem callVars_admitted (secluded : heap.Secluded) (definition : Definition)
    {bound : List Value} (admitted : ∀ value ∈ bound, heap.Admits value) {receiver : Option Value}
    (received : ∀ value, receiver = some value → heap.Admits value) (owner : Option MapRef) :
    ∀ pair ∈ callVars heap definition bound receiver owner, heap.Admits pair.2 := by
  unfold callVars
  refine List.forall_mem_append.mpr ⟨List.forall_mem_append.mpr ⟨?_, ?_⟩, ?_⟩
  · rintro ⟨name, value⟩ member
    exact admitted value (List.of_mem_zip member).2
  · intro pair member
    obtain ⟨value, same, rfl⟩ := Option.map_eq_some_iff.mp (Option.mem_toList.mp member)
    exact received value same
  · intro pair member
    obtain ⟨parent, same, rfl⟩ := Option.map_eq_some_iff.mp (Option.mem_toList.mp member)
    obtain ⟨map, _, isParent⟩ := Option.bind_eq_some_iff.mp same
    exact secluded.isaParent? isParent

end

section

variable {host : Host σ} {world : World σ} {machine : Machine} {writer : Option ScopeRef}
  (known : world.Secluded) (secluded : machine.Secluded world.heap)

include known

/-- An interceptor is asked while nothing has been stored, and then the map may be another one only
in what the interceptor has made of it. -/
theorem store_confined (reserved : host.IsReserved) {map : MapRef}
    (writable : world.heap.Writable writer map) {key value : Value}
    (keyed : world.heap.Admits key) (valued : world.heap.Admits value) :
    world.StaysSecluded writer (world.store host map key value).2 := by
  have inserts {middle : World σ} (stays : world.StaysSecluded none middle) :
      world.StaysSecluded writer (middle.modifyHeap fun heap => heap.insert map key value) := by
    have still := writable.later stays.confines
    have stored : middle.heap.Confines writer (middle.heap.insert map key value) :=
      still.confines stays.secluded.heap.layered _
    refine (stays.widen writer).trans (stays.secluded.modifyHeap stored ?_)
    exact stays.secluded.heap.insert still (keyed.later stays.confines)
      (valued.later stays.confines)
  unfold World.store
  split
  · exact inserts known.refl
  · rename_i id _
    have asked := reserved.intercept id key value world known keyed valued
    split
    all_goals rename_i same; rw [same] at asked
    · exact inserts asked
    · exact asked.widen writer

include secluded

/-- A call gets a scope that no frame has had before. -/
theorem enter_confined {code : Code} (discreet : code.IsDiscreet) {outer : Option ScopeRef}
    (inside : ∀ scope, outer = some scope → world.heap.HasScope scope)
    {vars : List (String × Value)} (admitted : ∀ pair ∈ vars, world.heap.Admits pair.2) :
    Confined writer world (machine.enter code outer vars world) := by
  unfold enter
  split
  · exact .error known.refl
  · have parent : ∀ scope, some (outer.getD world.globals) = some scope →
        world.heap.HasScope scope := by
      rintro _ ⟨⟩
      cases outer with
      | none => exact known.globals
      | some scope => exact inside scope rfl
    have confines : world.heap.Confines writer
        (world.heap.addScope (some (outer.getD world.globals)) (.ofNames vars)) :=
      .addScope _ _ known.heap.layered
    have grown : world.StaysSecluded writer (world.modifyHeap fun heap =>
        heap.addScope (some (outer.getD world.globals)) (.ofNames vars)) :=
      known.modifyHeap confines (known.heap.addScope parent (Heap.AdmitsEntry.ofNames admitted))
    refine .ok grown ?_
    have later := secluded.later confines
    refine ⟨⟨discreet, ?_, nofun⟩, List.forall_mem_cons.mpr ⟨later.frame, later.callers⟩,
      later.stack, ?_⟩
    · exact (Heap.hasScope_addScope _ _ world.heap).mpr (.inr rfl)
    · rw [List.map_cons]
      refine List.nodup_cons.mpr ⟨fun member => ?_, secluded.apart⟩
      obtain ⟨frame, among, taken⟩ := List.mem_map.mp member
      have same : frame.scope = world.heap.nextScope := taken
      refine Heap.not_hasScope_nextScope world.heap ?_
      rw [← same]
      rcases List.mem_cons.mp among with rfl | saved
      · exact secluded.frame.scope
      · exact (secluded.callers frame saved).scope

theorem invoke_confined {definition : Definition} (met : world.heap.AdmitsDefinition definition)
    (allowed : definition.body.IsDiscreet host) {outer : Option ScopeRef}
    (inside : ∀ scope, outer = some scope → world.heap.HasScope scope) {bound : List Value}
    (admitted : ∀ value ∈ bound, world.heap.Admits value) {receiver : Option Value}
    (received : ∀ value, receiver = some value → world.heap.Admits value) (owner : Option MapRef) :
    Confined writer world (machine.invoke host definition outer bound receiver owner world) := by
  unfold invoke
  dsimp only
  split
  · rename_i code script
    exact enter_confined known secluded (met.code code script) inside
      (callVars_admitted known.heap definition admitted received owner)
  · split
    · rename_i effect decided
      obtain ⟨stays, answered⟩ := Library.apply_secluded known
        (Library.effect_discreet known admitted _ effect decided)
      exact receive_confined (stays.widen writer) (secluded.later stays.confines) answered
    · exact .error known.refl
  · rename_i importer
    rw [importer] at allowed
    exact allowed.elim
  · rename_i id native
    rw [native] at allowed
    obtain ⟨stays, answered⟩ :=
      allowed ⟨definition, bound, machine.frame.scope⟩ world known admitted secluded.frame.scope
    exact receiveOutcome_confined (stays.widen writer) (secluded.later stays.confines) answered

theorem call_confined {callee : Value} {args : List Value} {receiver : Option Value}
    {owner : Option MapRef} (called : world.heap.Admits callee)
    (admitted : ∀ arg ∈ args, world.heap.Admits arg)
    (received : ∀ value, receiver = some value → world.heap.Admits value)
    (allowed : ∀ next call,
      (Action.call machine callee args receiver owner).native? world.heap = some (next, call) →
        call.definition.body.IsDiscreet host) :
    Confined writer world (machine.call host callee args receiver owner world) := by
  unfold call
  split
  · rename_i closure
    dsimp only
    split
    · rename_i bound binds
      have met := known.heap.definition closure.definition
      have discreet : (world.heap.definition closure.definition).body.IsDiscreet host := by
        cases body : (world.heap.definition closure.definition).body with
        | script code => trivial
        | _ =>
            have foreign (code : Code) :
                (world.heap.definition closure.definition).body ≠ .script code := by
              rw [body]
              exact nofun
            rw [← body]
            exact allowed _ _ (native?_of_binds foreign binds)
      exact invoke_confined known secluded met discreet called
        (bindArguments_admitted met admitted received bound binds) received owner
    · exact .error known.refl
  · split
    · exact .ok known.refl (secluded.push called)
    · exact .error known.refl

end

/-- Carrying out an action that has been planned. -/
theorem perform_confined {host : Host σ} (reserved : host.IsReserved) {world : World σ}
    (known : world.Secluded) {writer : Option ScopeRef} {action : Action}
    (planned : action.Secluded world.heap writer)
    (allowed : ∀ next call, action.native? world.heap = some (next, call) →
      call.definition.body.IsDiscreet host) :
    Confined writer world (perform host action world) := by
  cases planned with
  | proceed secluded => exact .ok known.refl secluded
  | produce secluded admitted =>
      have placed : world.StaysSecluded writer (world.modifyHeap _) := known.addTo admitted
      exact .ok placed ((secluded.later placed.confines).push (admitted.valueIn known.heap))
  | store secluded writable keyed admitted =>
      rename_i next map key draft
      have placed : world.StaysSecluded none (world.modifyHeap draft.addTo) := known.addTo admitted
      have stored := store_confined placed.secluded reserved (writable.later placed.confines)
        (keyed.later placed.confines) (admitted.valueIn known.heap)
      have changed := (placed.widen writer).trans stored
      have kept := secluded.later changed.confines
      unfold perform
      dsimp only
      split
      all_goals rename_i same; rw [same] at changed kept
      · exact .ok changed kept
      · exact .error changed
  | replaceItem secluded admits =>
      rename_i next list index value
      have confines : world.heap.Confines writer (world.heap.modifyItems list fun items =>
          items.setIfInBounds index value) := .ofMaps rfl rfl
      refine .ok (known.modifyHeap confines (known.heap.modifyItems fun item member => ?_))
        (secluded.later confines)
      rcases Array.mem_or_eq_of_mem_setIfInBounds member with old | rfl
      · exact known.heap.items list item old
      · exact admits
  | call secluded called admitted received =>
      exact call_confined known secluded called admitted received allowed

end Machine

/-- Polling asks the clock or the host; there are no modules to run. -/
theorem World.Secluded.pollWithin {host : Host σ} (reserved : host.IsReserved) {world : World σ}
    (known : world.Secluded) (level : Nat) (ref : DeferredRef) :
    world.StaysSecluded none (World.pollWithin host level ref world) := by
  cases level with
  | zero => exact known.refl
  | succ level =>
      have lent : world.StaysSecluded none (world.modifyDeferred ref .lend) :=
        known.modifyDeferred ref fun admits => admits.lend
      unfold World.pollWithin
      cases pollable : (world.deferred ref).pollable? with
      | none => exact known.refl
      | some provider =>
          have source : (world.deferred ref).source = some provider := by
            unfold Deferred.pollable? at pollable
            split at pollable
            · exact pollable
            · cases pollable
          cases provider with
          | clock deadline =>
              refine lent.trans (lent.secluded.modifyDeferred ref fun admits =>
                admits.settle ?_ (by rintro load ⟨⟩))
              intro value delivered
              split at delivered
              · cases delivered
                trivial
              · cases delivered
          | host id =>
              obtain ⟨stays, answered⟩ := reserved.poll id _ lent.secluded
              refine (lent.trans stays).trans ?_
              exact stays.secluded.modifyDeferred ref fun admits =>
                admits.settle answered (by rintro load ⟨⟩)
          | module load => exact absurd source ((known.deferreds ref).source load)

/-- A turn that leaves world and machine secluded, and no variables changed but those of
`writer`. -/
structure Turn.Confined (writer : Option ScopeRef) (before : World σ) (turn : Turn σ) : Prop where
  world : before.StaysSecluded writer turn.world
  machine : turn.machine.Secluded turn.world.heap

namespace Machine

namespace Secluded

variable {heap : Heap} {machine : Machine} (secluded : machine.Secluded heap)

include secluded

/-- Whether it runs, and what it notes of its last instruction, does not matter. -/
theorem noted (status : Status) (wait? : Option Wait) (yieldRequested lastCallNative : Bool) :
    ({ machine with status, wait?, yieldRequested, lastCallNative } : Machine).Secluded heap :=
  ⟨secluded.frame, secluded.callers, secluded.stack, secluded.apart⟩

theorem outermost : machine.outermost.Secluded heap := by
  unfold Machine.outermost
  cases last : machine.callers.getLast? with
  | none => exact secluded.frame
  | some frame => exact secluded.callers frame (List.mem_of_getLast? last)

theorem halted : machine.halted.Secluded heap where
  frame := ⟨secluded.outermost.code, secluded.outermost.scope, nofun⟩
  callers := nofun
  stack := nofun
  apart := List.nodup_singleton _

theorem begun : machine.begun.Secluded heap :=
  (secluded.withFrame (secluded.frame.moveTo (machine.frame.position + 1)) rfl).noted _ _ _ _

theorem unwind :
    let (frame, callers, stack) := Machine.unwind machine.frame machine.callers machine.stack
    ({ machine with frame, callers, stack } : Machine).Secluded heap := by
  obtain ⟨frame, callers, stack, status, wait?, yieldRequested, lastCallNative⟩ := machine
  induction callers generalizing frame stack with
  | nil => exact secluded
  | cons caller callers ih =>
      unfold Machine.unwind
      by_cases isDone : frame.isDone = true
      · simp only [isDone, if_true]
        exact ih caller (.null :: stack) (secluded.back rfl trivial)
      · simp only [isDone, Bool.false_eq_true, if_false]
        exact secluded

end Secluded

section

variable {host : Host σ} {world : World σ} {machine : Machine} {writer : Option ScopeRef}
  (known : world.Secluded) (secluded : machine.Secluded world.heap)

include known secluded

theorem halt_confined : Turn.Confined writer world (machine.halt world) := by
  have given : world.StaysSecluded writer (world.cancelWait machine) := known.cancelWait machine
  exact ⟨given, secluded.halted.later given.confines⟩

theorem abort_confined (error : ScriptError) :
    Turn.Confined writer world (machine.abort world error) := by
  have halted : Turn.Confined writer world (machine.halt world) := halt_confined known secluded
  exact ⟨halted.world, halted.machine⟩

theorem settle_confined : Turn.Confined writer world (machine.settle world) := by
  have left := secluded.unwind
  unfold settle
  generalize unwind machine.frame machine.callers machine.stack = unwound at left
  obtain ⟨frame, callers, stack⟩ := unwound
  dsimp only at left ⊢
  split
  · split
    · exact ⟨known.refl, left.noted _ _ _ _⟩
    · exact abort_confined known left _
  · exact ⟨known.refl, left⟩

theorem awaken_confined (ref : DeferredRef) :
    Turn.Confined writer world (machine.awaken ref world) := by
  have taken : world.StaysSecluded writer (world.modifyDeferred ref .take) :=
    known.modifyDeferred ref fun admits => admits.take
  have awake := secluded.noted machine.status none machine.yieldRequested machine.lastCallNative
  have aborted (error : ScriptError) : Turn.Confined writer (world.modifyDeferred ref .take)
      (abort { machine with wait? := none } (world.modifyDeferred ref .take) error) :=
    abort_confined taken.secluded awake error
  unfold awaken
  dsimp only
  split
  · rename_i value delivered
    have pushed := awake.push ((known.deferreds ref).result value delivered)
    exact ⟨taken, pushed.noted _ _ _ _⟩
  · exact ⟨taken.trans (aborted _).world, (aborted _).machine⟩
  · exact ⟨taken.trans (aborted _).world, (aborted _).machine⟩

theorem resume_confined (reserved : host.IsReserved) :
    Turn.Confined writer world (machine.resume (World.poll host) world) := by
  unfold resume
  split
  · exact ⟨known.refl, secluded⟩
  · rename_i wait _
    have attended : world.StaysSecluded none (attend (World.poll host) wait world) := by
      unfold attend
      split
      · exact known.refl
      · exact known.pollWithin reserved _ _
    have later := secluded.later attended.confines
    dsimp only
    split
    · have woken : Turn.Confined writer _ (machine.awaken wait.deferred _) :=
        awaken_confined attended.secluded later wait.deferred
      exact ⟨(attended.widen writer).trans woken.world, woken.machine⟩
    · exact ⟨attended.widen writer, later⟩

theorem stop_confined : Turn.Confined writer world (machine.stop world) := by
  unfold stop
  split
  · exact ⟨known.refl, secluded⟩
  · exact halt_confined known secluded

theorem pause_confined : Turn.Confined writer world (machine.pause world) := by
  unfold pause
  split
  · exact ⟨known.refl, secluded⟩
  · split
    · exact ⟨known.refl, secluded⟩
    · split
      · exact ⟨known.records _ _ _ _ _, secluded⟩
      · exact abort_confined known secluded _

theorem execute_confined (reserved : host.IsReserved) (position : Nat) {instr : Instr}
    (unscoped : instr.op ≠ .pushScope) (literal : instr.isLiteral = true)
    (allowed : ∀ action, plan world machine position instr = .ok action →
      ∀ next call, action.native? world.heap = some (next, call) →
        call.definition.body.IsDiscreet host) :
    Confined (instr.writer? machine.frame.scope) world
      (machine.execute host position instr world) := by
  have plans := plan_secluded known secluded position unscoped literal
  rw [execute_eq]
  split
  · rename_i action planned
    exact perform_confined reserved known (plans action planned) (allowed action planned)
  · exact .error known.refl

end

/-- The scope whose variables the next instruction may assign to. -/
def assigns? (machine : Machine) : Option ScopeRef :=
  machine.frame.code.instrs[machine.position]?.bind fun instr => instr.writer? machine.frame.scope

/-- The scope whose variables the next step may assign to: the current one, if an assignment or a
turn of a loop comes next. -/
def writer? (machine : Machine) (world : World σ) : Option ScopeRef :=
  match machine.status with
  | .ready | .running =>
      if (machine.poised world).status = .running then (machine.poised world).assigns? else none
  | _ => none

/-- If the next step calls a native, it is a discreet one. -/
def CallsDiscreetly (host : Host σ) (machine : Machine) (world : World σ) : Prop :=
  ∀ next call, machine.native? world = some (next, call) → call.definition.body.IsDiscreet host

section

variable {host : Host σ} {world : World σ} {machine : Machine} (reserved : host.IsReserved)
  (known : world.Secluded) (secluded : machine.Secluded world.heap)

include reserved known secluded

theorem advance_confined
    (allowed : ∀ next call, (machine.action? world).bind (Action.native? world.heap) =
      some (next, call) → call.definition.body.IsDiscreet host) :
    Turn.Confined machine.assigns? world (machine.advance host world) := by
  rw [advance_eq]
  split
  · exact abort_confined known secluded.begun _
  · rename_i instr fetched
    have among := Array.mem_of_getElem? fetched
    have passed : world.StaysSecluded machine.assigns? (world.pass 1000) :=
      known.records _ _ _ _ _
    have label : instr.writer? machine.begun.frame.scope = machine.assigns? := by
      rw [assigns?, position, fetched]
      rfl
    have executed := execute_confined passed.secluded secluded.begun reserved
      machine.frame.position (secluded.frame.code.unscoped instr among)
      (secluded.frame.code.constants instr among) fun action planned next call calls =>
        allowed next call (by
          have acts : machine.action? world = some action := by
            have again : plan world machine.begun machine.position instr = .ok action := planned
            rw [action?, position, fetched]
            dsimp only
            rw [position] at again
            rw [again]
            rfl
          rw [acts]
          exact calls)
    rw [label] at executed
    split
    all_goals rename_i same; rw [same] at executed
    · rename_i next after
      have stays := passed.trans executed.world
      have kept := executed.machine next rfl
      split
      · have settled : Turn.Confined machine.assigns? after (next.settle after) :=
          settle_confined stays.secluded kept
        exact ⟨stays.trans settled.world, settled.machine⟩
      · exact ⟨stays, kept⟩
    · rename_i error after
      have stays := passed.trans executed.world
      have aborted : Turn.Confined machine.assigns? after (machine.begun.abort after
          (error.locate machine.frame.code machine.frame.position)) :=
        abort_confined stays.secluded (secluded.begun.later stays.confines) _
      exact ⟨stays.trans aborted.world, aborted.machine⟩

/-- One step. -/
theorem stepOnce_confined (calls : machine.CallsDiscreetly host world) :
    Turn.Confined (machine.writer? world) world (machine.stepOnce host world) := by
  have resumed : Turn.Confined (machine.writer? world) world
      (machine.resume (World.poll host) world) := resume_confined known secluded reserved
  have settled : Turn.Confined none world ({ machine with status := .running }.settle world) :=
    settle_confined known (secluded.noted _ _ _ _)
  have stepped := step_stepped host (World.poll host) machine world
  unfold stepOnce
  generalize machine.step host (World.poll host) world = turn at stepped ⊢
  cases stepped with
  | ended => exact ⟨known.refl, secluded⟩
  | stayed => exact resumed
  | woke =>
      have settled : Turn.Confined (machine.writer? world) _
          ((machine.resume (World.poll host) world).machine.settle _) :=
        settle_confined resumed.world.secluded resumed.machine
      exact ⟨resumed.world.trans settled.world, settled.machine⟩
  | settled => exact ⟨settled.world.widen _, settled.machine⟩
  | advanced active running =>
      have again : (machine.poised world).status = .running := running
      have label : machine.writer? world = (machine.poised world).assigns? := by
        unfold writer?
        rcases active with status | status
        · rw [status]
          exact if_pos again
        · rw [status]
          exact if_pos again
      unfold CallsDiscreetly at calls
      rw [native?_of_awake active, if_pos again] at calls
      have poised := settled.machine
      rw [settle_world_of_running running] at poised
      rw [label]
      exact advance_confined reserved known poised calls

end

end Machine

end MiniScript
