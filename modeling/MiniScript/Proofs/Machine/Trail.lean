import MiniScript.Proofs.Code.Sealing
import MiniScript.Proofs.Machine.Returning

/-!
# The trail of a frame

Of code of any origin: from one of its instructions a frame goes on to the next
one, to an address that the instruction has, or to the bounds of a loop that it is
running, and those come from an instruction of the same code. While a frame stands
it leaves a trail, the instructions it has carried out one after the other; a call
is carried out once the function has returned or the result that was waited for is
there. Whatever the functions do that are called in between, each instruction on the
trail leads to the next, as it was planned.
-/

namespace MiniScript

/-- The bounds of the running loops come from instructions of the code, or are not known yet. -/
def Frame.LoopsKnown (frame : Frame) : Prop :=
  ∀ loop ∈ frame.loops, loop.start = 0 ∧ loop.exit = 0 ∨
    ∃ instr, frame.code.instrs[loop.start]? = some instr ∧ instr.op = .iterateForLoop ∧
      instr.second = .addr loop.exit

namespace Machine

variable {σ : Type} {host : Host σ} {world : World σ} {machine next : Machine} {position : Nat}
variable {instr : Instr} {action : Action}

/-- Where the frame goes on, and which loops it is running then. -/
structure Steers (machine : Machine) (position : Nat) (instr : Instr) (frame : Frame) : Prop where
  place : frame.position = machine.frame.position ∨ instr.Aims frame.position ∨
    (instr.op = .breakForLoop ∨ instr.op = .continueForLoop) ∧
      ∃ loop ∈ machine.frame.loops, frame.position = loop.start ∨ frame.position = loop.exit
  loops : ∀ loop ∈ frame.loops, loop ∈ machine.frame.loops ∨ loop.start = 0 ∧ loop.exit = 0 ∨
    loop.start = position ∧ instr.op = .iterateForLoop ∧ instr.second = .addr loop.exit

/-- As long as the frame is not left. -/
def Stays (machine : Machine) (position : Nat) (instr : Instr) (action : Action) : Prop :=
  action.next.callers = machine.callers → machine.Steers position instr action.next.frame

theorem SameFrames.stays (same : machine.SameFrames action.next) :
    machine.Stays position instr action := by
  intro _
  rw [same.frame]
  exact ⟨Or.inl rfl, fun _ member => Or.inl member⟩

theorem planTurn_stays (world : World σ) {exit : Nat} {loop : LoopState}
    (isTurn : instr.op = .iterateForLoop) (aims : instr.second = .addr exit) :
    machine.Stays position instr (planTurn world machine position exit loop) := by
  intro _
  unfold planTurn
  split
  · exact ⟨Or.inr (Or.inl (Or.inr aims)), fun _ member => Or.inl (List.mem_filter.mp member).1⟩
  · refine ⟨Or.inl rfl, fun other member => ?_⟩
    rcases List.mem_cons.mp member with rfl | member
    · exact Or.inr (Or.inr ⟨rfl, isTurn, aims⟩)
    · exact Or.inl (List.mem_filter.mp member).1

theorem addressOperand_addr (heap : Heap) (operand : Operand) :
    Ensures (fun address => operand = .addr address) (addressOperand heap operand) := by
  cases operand with
  | addr address => exact .ok rfl
  | _ => exact .error _

theorem activeLoop_mem (machine : Machine) (id : Nat) :
    Ensures (fun loop => loop ∈ machine.frame.loops) (machine.activeLoop id) := by
  unfold activeLoop
  split
  · rename_i found
    exact .ok (List.mem_of_find?_eq_some found)
  · exact .error _

/-- Where an instruction can lead. -/
theorem plan_stays (world : World σ) (machine : Machine) (position : Nat) (instr : Instr) :
    Ensures (machine.Stays position instr) (plan world machine position instr) := by
  by_cases straight : instr.op.goesStraightOn = true
  · intro action planned
    exact (plan_sameFrames world machine position straight action planned).stays
  obtain ⟨op, first, second⟩ := instr
  have jumps {next : Machine} {op : Opcode} {first second : Operand} {address : Nat}
      (same : machine.SameFrames next) (aims : first = .addr address) :
      machine.Stays position { op, first, second } (.proceed (next.jump address)) := by
    refine fun _ => ⟨Or.inr (Or.inl (Or.inl aims)), fun loop member => Or.inl ?_⟩
    rw [← same.frame]
    exact member
  cases op with
  | jump =>
      exact (addressOperand_addr _ first).bind fun address aims => .ok (jumps (.refl machine) aims)
  | jumpIfFalse =>
      refine (pop_sameFrames machine).bind fun popped same => ?_
      dsimp only
      split
      · exact .ok (SameFrames.stays same)
      · exact (addressOperand_addr _ first).bind fun address aims => .ok (jumps same aims)
  | jumpIfTrue =>
      refine (pop_sameFrames machine).bind fun popped same => ?_
      dsimp only
      split
      · exact (addressOperand_addr _ first).bind fun address aims => .ok (jumps same aims)
      · exact .ok (SameFrames.stays same)
  | «return» =>
      refine (pop_sameFrames machine).bind fun popped same => .ok ?_
      unfold leave
      split
      · exact SameFrames.stays same
      · rename_i caller callers left
        intro stays
        have shorter : callers = caller :: callers := stays.trans (same.callers.symm.trans left)
        exact absurd (congrArg List.length shorter) (by rw [List.length_cons]; omega)
  | createForLoop =>
      refine .skip fun id => .skip fun var => (pop_sameFrames machine).bind fun popped same => ?_
      have place : popped.2.frame.position = machine.frame.position := by rw [same.frame]
      refine .skip fun visited => .ok fun _ => ⟨Or.inl place, ?_⟩
      intro loop member
      rcases List.mem_cons.mp member with rfl | member
      · exact Or.inr (Or.inl ⟨rfl, rfl⟩)
      · refine Or.inl ?_
        rw [← same.frame]
        exact (List.mem_filter.mp member).1
  | iterateForLoop =>
      exact .skip fun id => (addressOperand_addr _ second).bind fun exit aims => .skip fun loop =>
        .ok (planTurn_stays world rfl aims)
  | breakForLoop =>
      refine .skip fun id => (activeLoop_mem machine id).bind fun loop member => .ok fun _ => ?_
      exact ⟨Or.inr (Or.inr ⟨Or.inl rfl, loop, member, Or.inr rfl⟩),
        fun _ member => Or.inl (List.mem_filter.mp member).1⟩
  | continueForLoop =>
      refine .skip fun id => (activeLoop_mem machine id).bind fun loop member => .ok fun _ => ?_
      exact ⟨Or.inr (Or.inr ⟨Or.inr rfl, loop, member, Or.inl rfl⟩), fun _ member => Or.inl member⟩
  | _ => exact absurd rfl straight

theorem Stays.loopsKnown (stays : machine.Stays position instr action)
    (same : action.next.callers = machine.callers)
    (code : action.next.frame.code = machine.frame.code)
    (found : machine.frame.code.instrs[position]? = some instr)
    (known : machine.frame.LoopsKnown) : action.next.frame.LoopsKnown := by
  intro loop member
  rw [code]
  rcases (stays same).loops loop member with old | fresh | ⟨rfl, isTurn, aims⟩
  · exact known loop old
  · exact Or.inl fresh
  · exact Or.inr ⟨instr, found, isTurn, aims⟩

end Machine

/-- What an action leaves on the stack once it has been carried out. -/
def Action.Leaves (heap : Heap) (stack : List Value) : Action → Prop
  | .produce next draft => stack = draft.valueIn heap :: next.stack
  | .call next _ _ _ _ => ∃ value, stack = value :: next.stack
  | action => stack = action.next.stack

/-- A machine that is about to carry out an instruction, and the world. -/
structure Visit (σ : Type) where
  machine : Machine
  world : World σ

namespace Visit

variable {σ : Type}

def position (visit : Visit σ) : Nat :=
  visit.machine.position

def stack (visit : Visit σ) : List Value :=
  visit.machine.stack

/-- The instruction has been carried out by the same frame, which then is at that position, with
those operands. -/
def LeadsTo (visit : Visit σ) (position : Nat) (stack : List Value) : Prop :=
  ∃ instr action, visit.machine.frame.code.instrs[visit.position]? = some instr ∧
    Machine.plan (visit.world.pass 1000) visit.machine.begun visit.position instr = .ok action ∧
    action.next.callers = visit.machine.callers ∧ action.next.frame.position = position ∧
    action.Leaves visit.world.heap stack

end Visit

/-- What a frame has carried out since it was at the position `start` with the operands `base`, the
last instruction first, and where it is now. -/
inductive Trail {σ : Type} (code : Code) (start : Nat) (base : List Value) :
    List (Visit σ) → Nat → List Value → Prop where
  | start : Trail code start base [] start base
  | goesOn {visits : List (Visit σ)} {visit : Visit σ} {position : Nat} {stack : List Value}
      (before : Trail code start base visits visit.position visit.stack)
      (same : visit.machine.frame.code = code) (known : visit.machine.frame.LoopsKnown)
      (leads : visit.LeadsTo position stack) :
      Trail code start base (visit :: visits) position stack

namespace Machine

variable {σ : Type} {host : Host σ} {world after : World σ} {machine next : Machine}
variable {instr : Instr} {action : Action} {outer : List Frame}

/-- The frame above `outer` has not been left and is not at the end of its code. -/
structure Stands (outer : List Frame) (machine : Machine) : Prop where
  unfinished : machine.status ≠ .finished
  deep : outer.length ≤ machine.depth
  goesOn : machine.depth = outer.length → machine.frame.isDone = false

/-- The next instruction of the machine is one of the frame above `outer`, and is not waited for. -/
def Acts (outer : List Frame) (machine : Machine) : Prop :=
  machine.depth = outer.length ∧ machine.wait? = none

instance (outer : List Frame) (machine : Machine) : Decidable (machine.Acts outer) :=
  inferInstanceAs (Decidable (_ ∧ _))

/-- The visits of the frame above `outer` once the next step has been made. -/
def noted (outer : List Frame) (machine : Machine) (world : World σ) (visits : List (Visit σ)) :
    List (Visit σ) :=
  if machine.Acts outer then ⟨{ machine with status := .running }, world⟩ :: visits else visits

/-- What can come of a frame above `outer` while it stands, with the instructions that it has begun,
the last one first: step by step, the functions that are entered being compiled ones; a burst may
end, and the world may become another at any time. -/
inductive Journey (host : Host σ) (outer : List Frame) (first : Machine) (initial : World σ) :
    List (Visit σ) → Machine → World σ → Prop where
  | start : Journey host outer first initial [] first initial
  | step {visits : List (Visit σ)} {machine : Machine} {world : World σ}
      (before : Journey host outer first initial visits machine world) (poll : Poller σ)
      (enters : machine.wait? = none →
        ∀ code, Enters host { machine with status := .running } world code → code.IsBody)
      (stands : (machine.step host poll world).machine.Stands outer) :
      Journey host outer first initial (machine.noted outer world visits)
        (machine.step host poll world).machine (machine.step host poll world).world
  | yielded {visits : List (Visit σ)} {machine : Machine} {world : World σ}
      (before : Journey host outer first initial visits machine world) :
      Journey host outer first initial visits { machine with yieldRequested := false } world
  | change {visits : List (Visit σ)} {machine : Machine} {world : World σ}
      (before : Journey host outer first initial visits machine world) (after : World σ) :
      Journey host outer first initial visits machine after

/-- A step that is known. -/
theorem Journey.goesOn {first : Machine} {initial : World σ} {visits : List (Visit σ)}
    {error : Option ScriptError}
    (before : Journey host outer first initial visits machine world) (poll : Poller σ)
    (enters : machine.wait? = none →
      ∀ code, Enters host { machine with status := .running } world code → code.IsBody)
    (stepped : machine.step host poll world = ⟨next, after, error⟩) (stands : next.Stands outer) :
    Journey host outer first initial (machine.noted outer world visits) next after := by
  have known := before.step poll enters
  rw [stepped] at known
  exact known stands

theorem Journey.stands {first : Machine} {initial : World σ} {visits : List (Visit σ)}
    (journey : Journey host outer first initial visits machine world)
    (begins : first.Stands outer) : machine.Stands outer := by
  induction journey with
  | start => exact begins
  | step before poll enters stands ih => exact stands
  | yielded before ih => exact ⟨ih.unfinished, ih.deep, ih.goesOn⟩
  | change before after ih => exact ih

theorem Journey.coherent {first : Machine} {initial : World σ} {visits : List (Visit σ)}
    (journey : Journey host outer first initial visits machine world)
    (coherent : first.Coherent) : machine.Coherent := by
  induction journey with
  | start => exact coherent
  | step before poll enters stands ih => exact step_coherent poll ih _
  | yielded before ih => exact ih
  | change before after ih => exact ih

/-- What has become of the frame: it is about to act, or waits, or has called a function that is
still running. -/
inductive Stage (code : Code) (outer : List Frame) (start : Nat) (base : List Value)
    (visits : List (Visit σ)) (machine : Machine) : Prop where
  | acts (active : machine.status = .ready ∨ machine.status = .running)
      (callers : machine.callers = outer) (same : machine.frame.code = code)
      (known : machine.frame.LoopsKnown)
      (trail : Trail code start base visits machine.position machine.stack)
  | waits (waiting : machine.status = .suspended)
      (callers : machine.callers = outer) (same : machine.frame.code = code)
      (known : machine.frame.LoopsKnown)
      (trail : ∀ value, Trail code start base visits machine.position (value :: machine.stack))
  | away {saved : Frame} {kept : List Value} (inside : Inside saved outer kept machine)
      (same : saved.code = code) (known : saved.LoopsKnown)
      (trail : ∀ value, Trail code start base visits saved.position (value :: kept))

/-- A settled machine on which the frame stands was not at the end of it before. -/
theorem Stands.settled (stands : (machine.settle world).machine.Stands outer)
    (callers : machine.callers = outer) : machine.settle world = { machine, world } := by
  cases isDone : machine.frame.isDone with
  | false => exact settle_of_not_done isDone world
  | true =>
      obtain ⟨frame, frames, stack, status, wait?, yields, native⟩ := machine
      subst callers
      cases frames with
      | nil =>
          have ended := stands.unfinished
          unfold settle unwind at ended
          dsimp only at ended isDone
          rw [if_pos isDone] at ended
          split at ended
          · exact absurd rfl ended
          · exact absurd rfl ended
      | cons caller callers =>
          have left :
              settle ⟨frame, caller :: callers, stack, status, wait?, yields, native⟩ world =
                settle ⟨caller, callers, .null :: stack, status, wait?, yields, native⟩ world := by
            unfold settle
            rw [unwind, if_pos isDone]
          have shallow := settle_depth_le
            ⟨caller, callers, .null :: stack, status, wait?, yields, native⟩ world
          rw [← left] at shallow
          exact absurd (Nat.le_trans stands.deep shallow) (Nat.not_succ_le_self _)

theorem Stands.shallow (stands : (machine.settle world).machine.Stands outer) :
    outer.length ≤ machine.depth :=
  Nat.le_trans stands.deep (settle_depth_le machine world)

/-- A running machine that is not at an end executes an instruction. -/
theorem Stands.advanced (stands : (machine.advance host world).machine.Stands outer)
    (running : machine.status = .running) (awake : machine.wait? = none) :
    ∃ instr next after, machine.Executes host world instr next after ∧
      machine.advance host world =
        if next.status = .running then next.settle after
        else { machine := next, world := after } := by
  have unfinished := stands.unfinished
  rw [advance_eq] at unfinished ⊢
  split at unfinished
  · exact absurd rfl unfinished
  · rename_i instr found
    split at unfinished
    · rename_i next after executed
      exact ⟨instr, next, after, ⟨running, awake, found, executed⟩, rfl⟩
    · exact absurd rfl unfinished

/-- An action that is no call, or a call that is answered, has been carried out; else the call is
waited for, or has entered a function. -/
theorem perform_leaves (performed : perform host action world = (.ok next, after)) :
    (action.next.SameFrames next ∧ action.Leaves world.heap next.stack) ∨
      ∃ calling callee args receiver owner, action = .call calling callee args receiver owner ∧
        ((∃ wait yields, next =
            { calling with
              status := .suspended, wait? := some wait, yieldRequested := yields
              lastCallNative := true }) ∨
          calling.depth < next.depth) := by
  cases action with
  | proceed goesOn =>
      cases performed
      exact Or.inl ⟨.refl _, rfl⟩
  | produce goesOn draft =>
      cases performed
      exact Or.inl ⟨⟨rfl, rfl, rfl, rfl⟩, rfl⟩
  | store goesOn map key draft =>
      unfold perform at performed
      dsimp only at performed
      split at performed
      · cases performed
        exact Or.inl ⟨.refl _, rfl⟩
      · cases performed
  | replaceItem goesOn list index value =>
      cases performed
      exact Or.inl ⟨.refl _, rfl⟩
  | call calling callee args receiver owner =>
      have called : Safe (Called world calling)
          (calling.call host callee args receiver owner world).1 :=
        call_called calling callee args receiver owner world
      rw [show calling.call host callee args receiver owner world = (.ok next, after) from
        performed] at called
      cases called with
      | ok known =>
          cases known with
          | answered value yields native => exact Or.inl ⟨⟨rfl, rfl, rfl, rfl⟩, value, rfl⟩
          | waits wait yields => exact Or.inr ⟨_, _, _, _, _, rfl, Or.inl ⟨wait, yields, rfl⟩⟩
          | entered ref code scope known room =>
              exact Or.inr ⟨_, _, _, _, _, rfl, Or.inr (Nat.lt_succ_self _)⟩

variable {code : Code} {start : Nat} {base : List Value} {visits : List (Visit σ)}

/-- What an instruction of the frame makes of it, as long as it stands. -/
theorem Executes.stage (executes : machine.Executes host world instr next after)
    (callers : machine.callers = outer) (same : machine.frame.code = code)
    (known : machine.frame.LoopsKnown)
    (trail : Trail code start base visits machine.position machine.stack)
    (body : machine.depth < next.depth → next.frame.code.IsBody)
    (deep : next.status = .running → outer.length ≤ next.depth) :
    Stage code outer start base (⟨machine, world⟩ :: visits) next := by
  obtain ⟨action, planned, performed⟩ := execute_eq_ok executes.executed
  have continues := plan_continues _ _ _ _ action planned
  have stays := plan_stays _ _ _ _ action planned
  have goesOn {stack : List Value} (kept : action.next.callers = machine.callers)
      (leaves : action.Leaves world.heap stack) :
      Trail code start base (⟨machine, world⟩ :: visits) action.next.frame.position stack :=
    .goesOn trail same known ⟨instr, action, executes.found, planned, kept, rfl, leaves⟩
  rcases perform_leaves performed with ⟨frames, leaves⟩ |
      ⟨calling, callee, args, receiver, owner, rfl, result⟩
  · have running : next.status = .running :=
      frames.status.trans (continues.kept.status.trans executes.running)
    rcases continues.kept.frames with ⟨kept, sameCode⟩ | left
    · have sameNext : action.next.callers = machine.callers := kept
      have sameCode : action.next.frame.code = machine.frame.code := sameCode
      have knownNext := stays.loopsKnown sameNext sameCode executes.found known
      rw [← frames.frame] at knownNext
      refine .acts (Or.inr running) (frames.callers.trans (sameNext.trans callers)) ?_ knownNext ?_
      · rw [frames.frame, sameCode, same]
      · rw [position, frames.frame]
        exact goesOn sameNext leaves
    · -- The frame has been left, and the frames below are one fewer than those under it.
      have shallow := deep running
      rw [depth, frames.callers, ← callers] at shallow
      rw [show machine.callers = action.next.frame :: action.next.callers from left] at shallow
      exact absurd shallow (Nat.not_succ_le_self _)
  · have frames : machine.begun.SameFrames calling := continues.called rfl
    have below : calling.stack = machine.stack.drop instr.taken :=
      (plan_leaves _ _ _ _ _ planned).called rfl
    have pending (value : Value) : Trail code start base (⟨machine, world⟩ :: visits)
        machine.begun.frame.position (value :: calling.stack) := by
      rw [← frames.frame]
      exact goesOn frames.callers ⟨value, rfl⟩
    rcases result with ⟨wait, yields, rfl⟩ | deeper
    · refine .waits rfl (frames.callers.trans callers) (frames.code.trans same) ?_ ?_
      · rw [show calling.frame = machine.begun.frame from frames.frame]
        exact known
      · rw [position, show calling.frame = machine.begun.frame from frames.frame]
        exact pending
    · have entered : machine.depth < next.depth := by
        rw [depth, frames.callers] at deeper
        exact deeper
      have inside := executes.inside entered (body entered)
      rw [callers, ← below] at inside
      exact .away inside same known pending

/-- The result that was waited for becomes an operand. -/
theorem awaken_cases (machine : Machine) (ref : DeferredRef) (world : World σ) :
    (machine.awaken ref world).error ≠ none ∧
        (machine.awaken ref world).machine.status = .finished ∨
      ∃ value after, machine.awaken ref world =
        { machine :=
            { machine with status := .running, wait? := none, stack := value :: machine.stack }
          world := after } := by
  unfold Machine.awaken
  dsimp only
  split
  · exact Or.inr ⟨_, _, rfl⟩
  · exact Or.inl ⟨Option.some_ne_none _, rfl⟩
  · exact Or.inl ⟨Option.some_ne_none _, rfl⟩

theorem Stage.step (stage : Stage code outer start base visits machine)
    (coherent : machine.Coherent) (stood : machine.Stands outer) (poll : Poller σ)
    (enters : machine.wait? = none →
      ∀ code, Enters host { machine with status := .running } world code → code.IsBody)
    (stands : (machine.step host poll world).machine.Stands outer) :
    Stage code outer start base (machine.noted outer world visits)
      (machine.step host poll world).machine := by
  cases stage with
  | acts active callers same known trail =>
      have awake := (coherent.active active).awake
      have top : machine.depth = outer.length := congrArg List.length callers
      rw [step_of_not_done host poll active (stood.goesOn top)] at stands ⊢
      obtain ⟨instr, next, after, executes, turn⟩ := stands.advanced rfl awake
      rw [turn] at stands ⊢
      have stage (deep : next.status = .running → outer.length ≤ next.depth) :
          Stage code outer start base (machine.noted outer world visits) next := by
        rw [noted, if_pos ⟨top, awake⟩]
        refine executes.stage callers same known trail (fun deeper => ?_) deep
        exact enters awake _ ⟨instr, next, after, executes, deeper, rfl⟩
      by_cases running : next.status = .running
      · rw [if_pos running] at stands ⊢
        have stage := stage fun _ => stands.shallow
        cases stage with
        | acts active callers same known trail =>
            rw [stands.settled callers]
            exact .acts active callers same known trail
        | waits waiting => cases running.symm.trans waiting
        | away inside same known trail =>
            rw [inside.settle]
            exact .away inside same known trail
      · rw [if_neg running] at stands ⊢
        exact stage fun impossible => absurd impossible running
  | waits waiting callers same known trail =>
      obtain ⟨wait, waits⟩ := coherent.waits waiting
      rw [noted, if_neg fun acts => waits.not_free acts.2]
      simp only [Machine.step, waiting, Machine.resume, waits.wait] at stands ⊢
      generalize attend poll wait world = attended at stands ⊢
      by_cases woken : attended.isWoken wait = true
      · rw [if_pos woken] at stands ⊢
        rcases awaken_cases machine wait.deferred attended with
          ⟨failed, ended⟩ | ⟨value, later, turn⟩
        · rw [if_neg (not_goesOn_of_error failed)] at stands
          exact absurd ended stands.unfinished
        · rw [turn, if_pos (goesOn_iff.mpr ⟨rfl, rfl⟩)] at stands ⊢
          rw [stands.settled callers]
          exact .acts (Or.inr rfl) callers same known (trail value)
      · rw [if_neg woken]
        dsimp only
        rw [if_neg (waits.not_goesOn attended)]
        exact .waits waiting callers same known trail
  | away inside same known trail =>
      have deep : outer.length < machine.depth := inside.above.suffix.length_le
      rw [noted, if_neg fun acts => Nat.ne_of_gt deep acts.1]
      have bodies (code : Code) (entered : machine.Enters host world code) : code.IsBody := by
        obtain ⟨instr, next, after, executes, deeper, rfl⟩ := entered
        have running : { machine with status := .running } = machine := by rw [← executes.running]
        refine enters executes.awake _ ⟨instr, next, after, ?_, deeper, rfl⟩
        rw [running]
        exact executes
      cases inside.step poll bodies with
      | fails failed => exact absurd failed.finished stands.unfinished
      | stays inside => exact .away inside same known trail
      | returns executes isReturn back settles =>
          obtain ⟨result, stack⟩ := back.stack
          rw [settles] at stands ⊢
          rw [stands.settled back.callers]
          refine .acts (Or.inr back.running) back.callers ?_ ?_ ?_
          · rw [back.frame, same]
          · rw [back.frame]
            exact known
          · rw [position, back.frame, stack]
            exact trail result

/-- Whatever happens in between, the instructions that the frame has begun are on one trail. -/
theorem Journey.stage {first : Machine} {initial : World σ}
    (journey : Journey host outer first initial visits machine world) (begins : first.Stands outer)
    (coherent : first.Coherent)
    (stage : Stage code outer start base ([] : List (Visit σ)) first) :
    Stage code outer start base visits machine := by
  induction journey with
  | start => exact stage
  | step before poll enters stands ih =>
      exact ih.step (before.coherent coherent) (before.stands begins) poll enters stands
  | yielded before ih =>
      cases ih with
      | acts active callers same known trail => exact .acts active callers same known trail
      | waits waiting callers same known trail => exact .waits waiting callers same known trail
      | away inside same known trail =>
          exact .away ⟨inside.coherent, inside.active, inside.above, inside.kept⟩ same known trail
  | change before after ih => exact ih

end Machine

end MiniScript
