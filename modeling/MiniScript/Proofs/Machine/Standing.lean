import MiniScript.Proofs.Machine.Discipline
import MiniScript.Proofs.Machine.Frames

/-!
# Where a machine stands

Of code of any origin: all frames of a machine run code that was there at the start
or that a function in the heap had when it was called, and a machine that waits
stands right behind the call that began the wait. This holds along every course of
requests, whoever polls.
-/

namespace MiniScript

def Action.isCall : Action → Bool
  | .call .. => true
  | _ => false

/-- Every script function in the heap has code of which `known` holds. -/
def World.Knows {σ : Type} (known : Code → Prop) (world : World σ) : Prop :=
  ∀ ref code, (world.heap.definition ref).body = .script code → known code

namespace Machine

variable {σ : Type} {host : Host σ} {world after : World σ} {machine next : Machine}
variable {known : Code → Prop} {position : Nat} {instr : Instr}

theorem planStore_isCall (heap : Heap) (machine : Machine) (subject key value : Value) :
    Ensures (fun action => action.isCall = false)
      (orFault (planStore heap machine subject key value)) := by
  cases subject with
  | map map => exact .ok rfl
  | list list =>
      cases key with
      | number index =>
          unfold planStore
          dsimp only
          cases Sequence.position index (heap.items list).size with
          | error fault => exact .error _
          | ok place => exact .ok rfl
      | _ => exact .error _
  | _ => exact .error _

/-- Only the opcodes of calls make an instruction a call. -/
theorem plan_calls (world : World σ) (machine : Machine) (position : Nat) (instr : Instr) :
    Ensures (fun action => action.isCall = true → instr.op.isCall = true)
      (plan world machine position instr) := by
  obtain ⟨op, first, second⟩ := instr
  cases op with
  | callVar | callIndex | callSuper | callValue => exact fun _ _ _ => rfl
  | pushValue | pushFunction | pushScope | dup2 =>
      unfold plan
      dsimp only
      split
      · exact .ok nofun
      · exact .error _
  | not | pop | jump | «return» => exact .skip fun _ => .ok nofun
  | loadVar | assignVar | breakForLoop | continueForLoop | buildList | buildMap | loadSuperIndex
  | negate | new => exact .skip fun _ => .skip fun _ => .ok nofun
  | loadIndex => exact .skip fun _ => .skip fun _ => .skip fun _ => .ok nofun
  | slice | binary | compareKeep | createForLoop =>
      exact .skip fun _ => .skip fun _ => .skip fun _ => .skip fun _ => .ok nofun
  | assignIndex =>
      refine .skip fun _ => .skip fun _ => .skip fun popped action planned calls => ?_
      exact nomatch (planStore_isCall _ popped.2 _ _ _ action planned).symm.trans calls
  | jumpIfFalse =>
      refine .skip fun _ => ?_
      dsimp only
      split
      · exact .ok nofun
      · exact .skip fun _ => .ok nofun
  | jumpIfTrue =>
      refine .skip fun _ => ?_
      dsimp only
      split
      · exact .skip fun _ => .ok nofun
      · exact .ok nofun
  | iterateForLoop =>
      refine .skip fun _ => .skip fun _ => .skip fun loop => .ok ?_
      unfold planTurn
      split
      · exact nofun
      · exact nofun

/-- All frames run known code, and a machine that waits stands right behind a call. -/
structure Standing (known : Code → Prop) (machine : Machine) : Prop where
  coherent : machine.Coherent
  frame : known machine.frame.code
  callers : ∀ caller ∈ machine.callers, known caller.code
  atCall : machine.status = .suspended → ∃ position op,
    machine.position = position + 1 ∧ machine.frame.code.opcodeAt? position = some op ∧
      op.isCall = true

namespace Standing

theorem start {code : Code} (written : known code) (scope : ScopeRef) :
    (start code scope).Standing known :=
  ⟨start_coherent code scope, written, (fun _ member => nomatch member), nofun⟩

/-- A machine that does not wait, with some of the frames. -/
theorem ofFrames (standing : machine.Standing known)
    (frame : next.frame.code = machine.frame.code ∨
      ∃ caller ∈ machine.callers, next.frame.code = caller.code)
    (callers : ∀ caller ∈ next.callers, caller ∈ machine.callers)
    (awake : next.status ≠ .suspended) (free : next.wait? = none) : next.Standing known where
  coherent := .ofFree awake free
  frame := by
    rcases frame with same | ⟨caller, member, same⟩
    · exact same ▸ standing.frame
    · exact same ▸ standing.callers caller member
  callers caller member := standing.callers caller (callers caller member)
  atCall waits := absurd waits awake

theorem halted (standing : machine.Standing known) : machine.halted.Standing known := by
  refine standing.ofFrames ?_ (fun _ member => nomatch member) nofun rfl
  show machine.outermost.code = _ ∨ ∃ caller ∈ machine.callers, machine.outermost.code = caller.code
  unfold outermost
  cases last : machine.callers.getLast? with
  | none => exact Or.inl rfl
  | some caller => exact Or.inr ⟨caller, List.mem_of_getLast? last, rfl⟩

end Standing

theorem unwind_frames (frame : Frame) (callers : List Frame) (stack : List Value) :
    let (inner, rest, _) := unwind frame callers stack
    (inner = frame ∨ inner ∈ callers) ∧ ∀ caller ∈ rest, caller ∈ callers := by
  induction callers generalizing frame stack with
  | nil => exact ⟨Or.inl rfl, fun _ member => member⟩
  | cons caller callers ih =>
      unfold unwind
      cases frame.isDone with
      | true =>
          obtain ⟨inner, rest⟩ := ih caller (.null :: stack)
          refine ⟨Or.inr ?_, fun other member => List.mem_cons_of_mem _ (rest other member)⟩
          rcases inner with same | member
          · rw [same]
            exact List.mem_cons_self
          · exact List.mem_cons_of_mem _ member
      | false => exact ⟨Or.inl rfl, fun _ member => member⟩

theorem settle_standing (standing : machine.Standing known) (awake : machine.status ≠ .suspended)
    (world : World σ) : (machine.settle world).machine.Standing known := by
  have spec := unwind_frames machine.frame machine.callers machine.stack
  unfold settle
  generalize unwind machine.frame machine.callers machine.stack = unwound at spec
  obtain ⟨frame, callers, stack⟩ := unwound
  obtain ⟨inner, rest⟩ := spec
  have frames : frame.code = machine.frame.code ∨
      ∃ caller ∈ machine.callers, frame.code = caller.code :=
    inner.imp (congrArg Frame.code) fun member => ⟨frame, member, rfl⟩
  have free := standing.coherent.free awake
  have below (status : Status) (awake : status ≠ .suspended) :
      Standing known { machine with frame, callers, stack, status } :=
    standing.ofFrames frames rest awake free
  dsimp only
  split
  · split
    · exact below .finished nofun
    · exact (below machine.status awake).halted
  · exact below machine.status awake

/-- An action that is carried out and is no call adds operands only. -/
theorem perform_ok {action : Action} (performed : perform host action world = (.ok next, after)) :
    (∃ stack, next = { action.next with stack }) ∨
      action.isCall = true ∧ Called world action.next next := by
  cases action with
  | proceed going =>
      cases performed
      exact Or.inl ⟨next.stack, rfl⟩
  | produce going draft =>
      cases performed
      exact Or.inl ⟨_, rfl⟩
  | store going map key draft =>
      unfold perform at performed
      dsimp only at performed
      split at performed
      · cases performed
        exact Or.inl ⟨next.stack, rfl⟩
      · exact nomatch performed
  | replaceItem going list index value =>
      cases performed
      exact Or.inl ⟨next.stack, rfl⟩
  | call going callee args receiver owner =>
      have called : Safe (Called world going)
          (perform host (.call going callee args receiver owner) world).1 :=
        call_called going callee args receiver owner world
      rw [performed] at called
      cases called with
      | ok known => exact Or.inr ⟨rfl, known⟩

/-- An instruction that is carried out. -/
theorem execute_standing (knows : world.Knows known) (standing : machine.Standing known)
    (running : machine.status = .running) (place : machine.position = position + 1)
    (here : machine.frame.code.instrs[position]? = some instr)
    (executed : machine.execute host position instr world = (.ok next, after)) :
    next.Standing known := by
  have free := (standing.coherent.active (Or.inr running)).awake
  rw [execute_eq] at executed
  split at executed
  · rename_i action planned
    have continues := plan_continues world machine position instr action planned
    rcases perform_ok executed with ⟨stack, rfl⟩ | ⟨calls, called⟩
    · have kept := continues.kept
      refine standing.ofFrames ?_ ?_ ?_ (kept.wait.trans free)
      · rcases kept.frames with ⟨-, same⟩ | callers
        · exact Or.inl same
        · exact Or.inr ⟨action.next.frame, callers ▸ List.mem_cons_self, rfl⟩
      · intro caller member
        rcases kept.frames with ⟨callers, -⟩ | callers
        · exact callers ▸ member
        · exact callers ▸ List.mem_cons_of_mem _ member
      · intro waits
        exact nomatch (kept.status.trans running).symm.trans waits
    · obtain ⟨going, callee, args, receiver, owner, rfl⟩ :
          ∃ going callee args receiver owner, action = .call going callee args receiver owner := by
        cases action with
        | call going callee args receiver owner => exact ⟨going, callee, args, receiver, owner, rfl⟩
        | _ => exact nomatch calls
      have same := continues.called rfl
      have isCall := plan_calls world machine position instr _ planned rfl
      have below : going.Standing known :=
        standing.ofFrames (Or.inl same.code) (fun _ member => same.callers ▸ member)
          (fun waits => nomatch (same.status.trans running).symm.trans waits)
          (same.wait.trans free)
      cases called with
      | answered value yields native =>
          exact ⟨below.coherent, below.frame, below.callers, below.atCall⟩
      | waits wait yields =>
          refine ⟨⟨fun _ => rfl, fun _ => rfl⟩, below.frame, below.callers,
            fun _ => ⟨position, instr.op, ?_, ?_, isCall⟩⟩
          · exact (congrArg Frame.position same.frame).trans place
          · show going.frame.code.opcodeAt? position = some instr.op
            rw [same.frame, Code.opcodeAt?, here]
            rfl
      | entered ref code scope found room =>
          refine ⟨below.coherent.congr rfl rfl, knows ref code found,
            List.forall_mem_cons.mpr ⟨below.frame, below.callers⟩, ?_⟩
          exact fun waits => nomatch (same.status.trans running).symm.trans waits
  · cases executed

theorem advance_standing (knows : world.Knows known) (standing : machine.Standing known)
    (running : machine.status = .running) :
    (machine.advance host world).machine.Standing known := by
  have begun : machine.begun.Standing known :=
    standing.ofFrames (Or.inl rfl) (fun _ member => member)
      (fun waits => nomatch running.symm.trans waits)
      (standing.coherent.active (Or.inr running)).awake
  rw [advance_eq]
  split
  · exact begun.halted
  · rename_i instr here
    split
    · rename_i next after executed
      have passed : (world.pass 1000).Knows known := knows
      have stands : next.Standing known := execute_standing passed begun running rfl here executed
      split
      · rename_i still
        exact settle_standing stands (still ▸ nofun) after
      · exact stands
    · exact begun.halted

theorem awaken_standing (standing : machine.Standing known) (ref : DeferredRef) (world : World σ) :
    (machine.awaken ref world).machine.Standing known := by
  unfold awaken
  dsimp only
  split
  · exact standing.ofFrames (Or.inl rfl) (fun _ member => member) nofun rfl
  · exact standing.halted
  · exact standing.halted

theorem resume_standing (standing : machine.Standing known) (poll : Poller σ) (world : World σ) :
    (machine.resume poll world).machine.Standing known := by
  unfold resume
  split
  · exact standing
  · dsimp only
    split
    · exact awaken_standing standing _ _
    · exact standing

theorem Standing.settled (standing : machine.Standing known)
    (active : machine.status = .ready ∨ machine.status = .running) (world : World σ) :
    ({ machine with status := .running }.settle world).machine.Standing known := by
  have goesOn : Active { machine with status := .running } :=
    ⟨Or.inr rfl, (standing.coherent.active active).awake⟩
  have started : Standing known { machine with status := .running } :=
    standing.ofFrames (Or.inl rfl) (fun _ member => member) (absurd · goesOn.going) goesOn.awake
  exact settle_standing started goesOn.going world

/-- One step, whoever polls. -/
theorem step_standing (knows : world.Knows known) (standing : machine.Standing known)
    (poll : Poller σ) : (machine.step host poll world).machine.Standing known := by
  have resumed := resume_standing standing poll world
  have stepped := step_stepped host poll machine world
  generalize machine.step host poll world = turn at stepped ⊢
  cases stepped with
  | ended => exact standing
  | stayed => exact resumed
  | woke _ _ free => exact settle_standing resumed (resumed.coherent.going free) _
  | settled active => exact standing.settled active world
  | advanced active running => exact advance_standing knows (standing.settled active world) running

/-- What can happen to a machine and its world: requests, steps with any poller, as for the machine
that runs the body of a module, and changes of the world from outside. -/
inductive Course (host : Host σ) (outside : World σ → World σ → Prop) (first : Machine)
    (initial : World σ) : Machine → World σ → Prop where
  | start : Course host outside first initial first initial
  | serve {machine : Machine} {world : World σ}
      (before : Course host outside first initial machine world) (request : Request) :
      Course host outside first initial (machine.serve host world request).machine
        (machine.serve host world request).world
  | cycles {machine : Machine} {world : World σ}
      (before : Course host outside first initial machine world) {poll : Poller σ}
      (polls : ∀ ref world, World.Becomes host world (poll ref world)) (budget : Nat) :
      Course host outside first initial (machine.runCycles host poll budget world).machine
        (machine.runCycles host poll budget world).world
  | change {machine : Machine} {world after : World σ}
      (before : Course host outside first initial machine world) (changed : outside world after) :
      Course host outside first initial machine after

/-- A property of worlds that the interpreter and its host keep, and with which all functions in the
heap have known code. -/
structure Safeguards (host : Host σ) (known : Code → Prop) (holds : World σ → Prop) : Prop where
  knows : ∀ {world}, holds world → world.Knows known
  stays : ∀ {before after}, World.Becomes host before after → holds before → holds after

namespace Safeguards

variable {holds : World σ → Prop} {outside : World σ → World σ → Prop}

theorem runCycles (guards : Safeguards host known holds) {poll : Poller σ}
    (polls : ∀ ref world, World.Becomes host world (poll ref world)) (budget : Nat)
    (standing : machine.Standing known) (held : holds world) :
    (machine.runCycles host poll budget world).machine.Standing known := by
  have kept := Machine.runCycles_keeps
    (motive := fun machine world => machine.Standing known ∧ holds world)
    (fun ⟨standing, held⟩ => ⟨step_standing (guards.knows held) standing poll,
      guards.stays (becomes_step polls _ _) held⟩)
    (fun ⟨standing, held⟩ =>
      ⟨⟨standing.coherent, standing.frame, standing.callers, standing.atCall⟩, held⟩)
    budget ⟨standing, held⟩
  exact kept.1

theorem serve (guards : Safeguards host known holds) (standing : machine.Standing known)
    (held : holds world) (request : Request) :
    (machine.serve host world request).machine.Standing known := by
  cases request with
  | step => exact step_standing (guards.knows held) standing (World.poll host)
  | cycles budget => exact guards.runCycles World.becomes_poll budget standing held
  | burst => exact guards.runCycles World.becomes_poll world.limits.burstCycles standing held
  | resume => exact resume_standing standing (World.poll host) world
  | pause =>
      show (machine.pause world).machine.Standing known
      unfold pause
      split
      · exact standing
      · split
        · exact standing
        · split
          · exact standing
          · exact standing.halted
  | stop =>
      show (machine.stop world).machine.Standing known
      unfold stop
      split
      · exact standing
      · exact standing.halted

/-- What holds at the start of a course holds all along it. -/
theorem course (guards : Safeguards host known holds)
    (changes : ∀ {before after}, outside before after → holds before → holds after)
    {first : Machine} {initial : World σ} (course : Course host outside first initial machine world)
    (standing : first.Standing known) (held : holds initial) :
    machine.Standing known ∧ holds world := by
  induction course with
  | start => exact ⟨standing, held⟩
  | serve before request ih =>
      exact ⟨guards.serve ih.1 ih.2 request, guards.stays (becomes_serve _ _ request) ih.2⟩
  | cycles before polls budget ih =>
      exact ⟨guards.runCycles polls budget ih.1 ih.2,
        guards.stays (becomes_runCycles polls budget _ _) ih.2⟩
  | change before changed ih => exact ⟨ih.1, changes changed ih.2⟩

end Safeguards

end Machine

end MiniScript
