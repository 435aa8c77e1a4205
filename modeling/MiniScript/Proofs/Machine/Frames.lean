import MiniScript.Proofs.Machine.Outcome

/-!
# What any instruction does to the frames

Of code of any origin: an instruction that can be carried out keeps the status of
the machine, and goes on in the frame it was in or in that of the caller. Only a
call adds a frame, if there is room for one, or lets the machine wait.
-/

namespace MiniScript

/-- Whatever the outcome is, if it is a value, something holds of it. -/
def Ensures {α : Type} (holds : α → Prop) (outcome : Except ScriptError α) : Prop :=
  ∀ value, outcome = .ok value → holds value

namespace Ensures

variable {α β : Type} {holds : α → Prop} {goal : β → Prop}

theorem ok {value : α} (known : holds value) : Ensures holds (.ok value) := by
  rintro other ⟨⟩
  exact known

theorem error (error : ScriptError) : Ensures holds (.error error) :=
  fun _ impossible => nomatch impossible

theorem bind {first : Except ScriptError α} {next : α → Except ScriptError β}
    (ensures : Ensures holds first) (rest : ∀ value, holds value → Ensures goal (next value)) :
    Ensures goal (first >>= next) := by
  cases first with
  | error error => exact .error error
  | ok value => exact rest value (ensures value rfl)

/-- Nothing needs to be known of the first value. -/
theorem skip {first : Except ScriptError α} {next : α → Except ScriptError β}
    (rest : ∀ value, Ensures goal (next value)) : Ensures goal (first >>= next) := by
  cases first with
  | error error => exact .error error
  | ok value => exact rest value

end Ensures

/-- Neither a jump nor a `return`, and of no loop over items. -/
def Opcode.goesStraightOn : Opcode → Bool
  | .jump | .jumpIfFalse | .jumpIfTrue | .return | .createForLoop | .iterateForLoop
  | .breakForLoop | .continueForLoop => false
  | _ => true

namespace Machine

variable {σ : Type} {host : Host σ} {world : World σ} {machine next : Machine} {position : Nat}

/-- The machine has the same frames and the same status as another. -/
structure SameFrames (before after : Machine) : Prop where
  frame : after.frame = before.frame
  callers : after.callers = before.callers
  status : after.status = before.status
  wait : after.wait? = before.wait?

theorem SameFrames.refl (machine : Machine) : machine.SameFrames machine :=
  ⟨rfl, rfl, rfl, rfl⟩

theorem SameFrames.code (same : machine.SameFrames next) :
    next.frame.code = machine.frame.code := by
  rw [same.frame]

theorem SameFrames.trans {third : Machine} (first : machine.SameFrames next)
    (second : next.SameFrames third) : machine.SameFrames third :=
  ⟨second.frame.trans first.frame, second.callers.trans first.callers,
    second.status.trans first.status, second.wait.trans first.wait⟩

theorem pop_sameFrames (machine : Machine) :
    Ensures (fun popped => machine.SameFrames popped.2) machine.pop := by
  unfold pop pop?
  cases machine.stack with
  | nil => exact .error _
  | cons value stack => exact .ok ⟨rfl, rfl, rfl, rfl⟩

theorem popMany_sameFrames (machine : Machine) (count : Nat) :
    Ensures (fun popped => machine.SameFrames popped.2) (machine.popMany count) := by
  unfold popMany popMany?
  split
  · rename_i same
    split at same
    · exact nomatch same
    · cases same
      exact .ok ⟨rfl, rfl, rfl, rfl⟩
  · exact .error _

/-- The machine goes on in its own frame, or in the caller's. -/
structure KeepsFrames (before after : Machine) : Prop where
  status : after.status = before.status
  wait : after.wait? = before.wait?
  frames : after.callers = before.callers ∧ after.frame.code = before.frame.code ∨
    before.callers = after.frame :: after.callers

theorem SameFrames.keeps (same : machine.SameFrames next) : machine.KeepsFrames next :=
  ⟨same.status, same.wait, Or.inl ⟨same.callers, same.code⟩⟩

/-- How a machine goes on after an instruction: a call leaves its frames as they are. -/
structure Continues (machine : Machine) (action : Action) : Prop where
  kept : machine.KeepsFrames action.next
  called : ∀ {next : Machine} {callee : Value} {args : List Value} {receiver : Option Value}
    {owner : Option MapRef}, action = .call next callee args receiver owner →
      machine.SameFrames next

theorem SameFrames.continues {action : Action} (same : machine.SameFrames action.next) :
    machine.Continues action := by
  refine ⟨same.keeps, ?_⟩
  rintro next callee args receiver owner rfl
  exact same

theorem KeepsFrames.continues (kept : machine.KeepsFrames next) :
    machine.Continues (.proceed next) :=
  ⟨kept, nofun⟩

theorem leave_keepsFrames (machine : Machine) (value : Value) :
    machine.KeepsFrames (machine.leave value) := by
  unfold leave
  split
  · exact (SameFrames.refl machine).keeps
  · rename_i callers
    exact ⟨rfl, rfl, Or.inr callers⟩

theorem planStore_sameFrames (heap : Heap) (machine : Machine) (subject key value : Value) :
    Ensures (fun action => machine.SameFrames action.next)
      (orFault (planStore heap machine subject key value)) := by
  cases subject with
  | map map => exact .ok (.refl machine)
  | list list =>
      cases key with
      | number index =>
          unfold planStore
          dsimp only
          cases Sequence.position index (heap.items list).size with
          | error fault => exact .error _
          | ok place => exact .ok (.refl machine)
      | _ => exact .error _
  | _ => exact .error _

theorem planTurn_continues (world : World σ) (machine : Machine) (position exit : Nat)
    (loop : LoopState) :
    machine.Continues (planTurn world machine position exit loop) := by
  unfold planTurn
  split
  · exact ⟨⟨rfl, rfl, Or.inl ⟨rfl, rfl⟩⟩, nofun⟩
  · exact ⟨⟨rfl, rfl, Or.inl ⟨rfl, rfl⟩⟩, nofun⟩

/-- An instruction that goes straight on takes its operands before anything else is done, and leaves
the frames alone. -/
theorem plan_sameFrames (world : World σ) (machine : Machine) (position : Nat) {instr : Instr}
    (straight : instr.op.goesStraightOn = true) :
    Ensures (fun action => machine.SameFrames action.next) (plan world machine position instr) := by
  obtain ⟨op, first, second⟩ := instr
  have pushes {next : Machine} (same : machine.SameFrames next) (value : Value) :
      machine.SameFrames (next.push value) :=
    ⟨same.frame, same.callers, same.status, same.wait⟩
  cases op with
  | pushValue | pushFunction | pushScope | dup2 =>
      unfold plan
      dsimp only
      split
      · exact .ok ⟨rfl, rfl, rfl, rfl⟩
      · exact .error _
  | loadVar => exact .skip fun name => .skip fun value => .ok (pushes (.refl machine) value)
  | callVar =>
      refine .skip fun name => .skip fun count => (popMany_sameFrames machine count).bind ?_
      intro popped same
      exact .skip fun callee => .ok same
  | assignVar =>
      refine .skip fun name => (pop_sameFrames machine).bind ?_
      intro popped same
      exact .ok same
  | loadIndex =>
      refine (pop_sameFrames machine).bind fun keyed first => ?_
      refine (pop_sameFrames keyed.2).bind fun popped second => ?_
      exact .skip fun member => .ok (pushes (first.trans second) _)
  | callIndex =>
      refine .skip fun count => (popMany_sameFrames machine count).bind fun args first => ?_
      refine (pop_sameFrames args.2).bind fun keyed second => ?_
      refine (pop_sameFrames keyed.2).bind fun popped third => ?_
      exact .skip fun member => .ok ((first.trans second).trans third)
  | assignIndex =>
      refine (pop_sameFrames machine).bind fun valued first => ?_
      refine (pop_sameFrames valued.2).bind fun keyed second => ?_
      refine (pop_sameFrames keyed.2).bind fun popped third => ?_
      intro action planned
      exact ((first.trans second).trans third).trans
        (planStore_sameFrames _ popped.2 _ _ _ action planned)
  | loadSuperIndex =>
      refine (pop_sameFrames machine).bind fun popped same => ?_
      exact .skip fun member => .ok (pushes same _)
  | callSuper =>
      refine .skip fun count => (popMany_sameFrames machine count).bind fun args first => ?_
      refine (pop_sameFrames args.2).bind fun popped second => ?_
      exact .skip fun member => .ok (first.trans second)
  | callValue =>
      refine .skip fun count => (popMany_sameFrames machine count).bind fun args first => ?_
      refine (pop_sameFrames args.2).bind fun popped second => ?_
      exact .ok (first.trans second)
  | slice =>
      refine (pop_sameFrames machine).bind fun upper first => ?_
      refine (pop_sameFrames upper.2).bind fun lower second => ?_
      refine (pop_sameFrames lower.2).bind fun popped third => ?_
      exact .skip fun draft => .ok ((first.trans second).trans third)
  | buildList =>
      refine .skip fun count => (popMany_sameFrames machine count).bind fun items same => ?_
      exact .ok same
  | buildMap =>
      refine .skip fun count => (popMany_sameFrames machine (count * 2)).bind fun flat same => ?_
      exact .ok same
  | binary =>
      refine .skip fun op => (pop_sameFrames machine).bind fun right first => ?_
      refine (pop_sameFrames right.2).bind fun left second => ?_
      exact .skip fun draft => .ok (first.trans second)
  | compareKeep =>
      refine .skip fun op => (pop_sameFrames machine).bind fun right first => ?_
      refine (pop_sameFrames right.2).bind fun left second => ?_
      exact .skip fun draft => .ok (pushes (first.trans second) _)
  | negate =>
      refine (pop_sameFrames machine).bind fun popped same => ?_
      exact .skip fun negated => .ok (pushes same _)
  | not =>
      refine (pop_sameFrames machine).bind fun popped same => ?_
      exact .ok (pushes same _)
  | new =>
      refine (pop_sameFrames machine).bind fun popped same => ?_
      exact .skip fun draft => .ok same
  | pop =>
      refine (pop_sameFrames machine).bind fun popped same => ?_
      exact .ok same
  | jump | jumpIfFalse | jumpIfTrue | «return» | createForLoop | iterateForLoop | breakForLoop
  | continueForLoop => exact nomatch straight

/-- Operands are taken before anything else is done; after that the machine goes on. -/
theorem plan_continues (world : World σ) (machine : Machine) (position : Nat) (instr : Instr) :
    Ensures machine.Continues (plan world machine position instr) := by
  by_cases straight : instr.op.goesStraightOn = true
  · intro action planned
    exact (plan_sameFrames world machine position straight action planned).continues
  obtain ⟨op, first, second⟩ := instr
  have jumps {next : Machine} (same : machine.SameFrames next) (address : Nat) :
      machine.Continues (.proceed (next.jump address)) :=
    KeepsFrames.continues ⟨same.status, same.wait, Or.inl ⟨same.callers, same.code⟩⟩
  cases op with
  | jump =>
      exact .skip fun address => .ok (KeepsFrames.continues ⟨rfl, rfl, Or.inl ⟨rfl, rfl⟩⟩)
  | jumpIfFalse =>
      refine (pop_sameFrames machine).bind fun popped same => ?_
      dsimp only
      split
      · exact .ok same.continues
      · exact .skip fun address => .ok (jumps same address)
  | jumpIfTrue =>
      refine (pop_sameFrames machine).bind fun popped same => ?_
      dsimp only
      split
      · exact .skip fun address => .ok (jumps same address)
      · exact .ok same.continues
  | «return» =>
      refine (pop_sameFrames machine).bind fun popped same => .ok ?_
      have left := leave_keepsFrames popped.2 popped.1
      refine KeepsFrames.continues ⟨left.status.trans same.status, left.wait.trans same.wait, ?_⟩
      rw [← same.callers, ← same.frame]
      exact left.frames
  | createForLoop =>
      refine .skip fun id => .skip fun var => (pop_sameFrames machine).bind fun popped same => ?_
      exact .skip fun visited =>
        .ok (KeepsFrames.continues ⟨same.status, same.wait, Or.inl ⟨same.callers, same.code⟩⟩)
  | iterateForLoop =>
      exact .skip fun id => .skip fun exit => .skip fun loop =>
        .ok (planTurn_continues world machine position exit loop)
  | breakForLoop =>
      exact .skip fun id => .skip fun loop =>
        .ok (KeepsFrames.continues ⟨rfl, rfl, Or.inl ⟨rfl, rfl⟩⟩)
  | continueForLoop =>
      exact .skip fun id => .skip fun loop => .ok (jumps (.refl machine) loop.start)
  | _ => exact absurd rfl straight

theorem outermost_cons (frame caller : Frame) (callers : List Frame) :
    (caller :: callers).getLast?.getD frame = callers.getLast?.getD caller := by
  rw [List.getLast?_cons, Option.getD_some]

/-- What an instruction of any code makes of a machine: at most one frame more, on the same
ground. -/
structure Advances (limits : Limits) (before after : Machine) : Prop where
  depth : after.depth ≤ before.depth ∨ after.depth ≤ limits.maxCallDepth
  outermost : after.outermost.code = before.outermost.code
  status : after.status = before.status ∧ after.wait? = before.wait? ∨
    after.status = .suspended ∧ after.wait?.isSome = true

theorem KeepsFrames.outermost (kept : machine.KeepsFrames next) :
    next.outermost.code = machine.outermost.code := by
  rcases kept.frames with ⟨callers, code⟩ | callers
  · unfold Machine.outermost
    rw [callers]
    cases machine.callers.getLast? with
    | none => exact code
    | some frame => rfl
  · unfold Machine.outermost
    rw [callers, outermost_cons]

theorem KeepsFrames.depth_le (kept : machine.KeepsFrames next) : next.depth ≤ machine.depth := by
  unfold depth
  rcases kept.frames with ⟨callers, _⟩ | callers
  · exact Nat.le_of_eq (congrArg List.length callers)
  · rw [callers]
    exact Nat.le_succ _

theorem Called.advances (called : Called world machine next) :
    machine.Advances world.limits next := by
  cases called with
  | answered value yields native => exact ⟨Or.inl (Nat.le_refl _), rfl, Or.inl ⟨rfl, rfl⟩⟩
  | waits wait yields => exact ⟨Or.inl (Nat.le_refl _), rfl, Or.inr ⟨rfl, rfl⟩⟩
  | entered ref code scope known room =>
      refine ⟨Or.inr room, ?_, Or.inl ⟨rfl, rfl⟩⟩
      unfold Machine.outermost
      rw [outermost_cons]

/-- An instruction that is carried out. -/
theorem execute_advances {after : World σ} {instr : Instr}
    (executed : machine.execute host position instr world = (.ok next, after)) :
    machine.Advances world.limits next := by
  rw [execute_eq] at executed
  split at executed
  · rename_i action planned
    have kept := (plan_continues world machine position instr action planned).kept
    have performed : Safe (Performed world action) (perform host action world).1 :=
      perform_performed action world
    rw [executed] at performed
    cases performed with
    | ok known =>
        cases known with
        | done results owed =>
            exact ⟨Or.inl kept.depth_le, kept.outermost, Or.inl ⟨kept.status, kept.wait⟩⟩
        | called owed called =>
            have further := called.advances
            refine ⟨further.depth.imp_left fun less => Nat.le_trans less kept.depth_le,
              further.outermost.trans kept.outermost, ?_⟩
            exact further.status.imp_left fun same =>
              ⟨same.1.trans kept.status, same.2.trans kept.wait⟩
  · cases executed

/-- The machine is suspended until a result is there. -/
structure WaitsFor (machine : Machine) (wait : Wait) : Prop where
  status : machine.status = .suspended
  wait : machine.wait? = some wait

theorem WaitsFor.not_free {wait : Wait} (waits : machine.WaitsFor wait) : machine.wait? ≠ none := by
  rw [waits.wait]
  exact Option.some_ne_none wait

/-- The machine is about to go on, and waits for nothing. -/
structure Active (machine : Machine) : Prop where
  status : machine.status = .ready ∨ machine.status = .running
  awake : machine.wait? = none

theorem WaitsFor.unfinished {wait : Wait} (waits : machine.WaitsFor wait) :
    machine.status ≠ .finished := by
  intro ended
  cases waits.status.symm.trans ended

theorem Active.unfinished (active : machine.Active) : machine.status ≠ .finished := by
  intro ended
  rcases active.status with ready | running
  · cases ready.symm.trans ended
  · cases running.symm.trans ended

theorem Active.going (active : machine.Active) : machine.status ≠ .suspended := by
  intro suspended
  rcases active.status with ready | running
  · cases ready.symm.trans suspended
  · cases running.symm.trans suspended

/-- The machine has something to wait for exactly while it is suspended. -/
def Coherent (machine : Machine) : Prop :=
  machine.status = .suspended ↔ machine.wait?.isSome = true

namespace Coherent

/-- A machine that is not suspended and waits for nothing. -/
theorem ofFree (going : machine.status ≠ .suspended) (free : machine.wait? = none) :
    machine.Coherent := by
  refine ⟨fun suspended => absurd suspended going, fun waits => ?_⟩
  rw [free] at waits
  exact nomatch waits

theorem ofActive (active : machine.Active) : machine.Coherent :=
  .ofFree active.going active.awake

theorem active (coherent : machine.Coherent)
    (status : machine.status = .ready ∨ machine.status = .running) : machine.Active := by
  refine ⟨status, Option.not_isSome_iff_eq_none.mp fun waits => ?_⟩
  rcases status with ready | running
  · exact nomatch (coherent.mpr waits).symm.trans ready
  · exact nomatch (coherent.mpr waits).symm.trans running

theorem free (coherent : machine.Coherent) (going : machine.status ≠ .suspended) :
    machine.wait? = none :=
  Option.not_isSome_iff_eq_none.mp fun waits => going (coherent.mpr waits)

theorem waits (coherent : machine.Coherent) (suspended : machine.status = .suspended) :
    ∃ wait, machine.WaitsFor wait := by
  obtain ⟨wait, waiting⟩ := Option.isSome_iff_exists.mp (coherent.mp suspended)
  exact ⟨wait, suspended, waiting⟩

theorem going (coherent : machine.Coherent) (free : machine.wait? = none) :
    machine.status ≠ .suspended := by
  intro suspended
  obtain ⟨wait, waits⟩ := coherent.waits suspended
  exact waits.not_free free

theorem waitsFor {wait : Wait} (coherent : machine.Coherent) (waiting : machine.wait? = some wait) :
    machine.WaitsFor wait :=
  ⟨coherent.mpr (waiting ▸ rfl), waiting⟩

theorem congr (coherent : machine.Coherent) (status : next.status = machine.status)
    (wait : next.wait? = machine.wait?) : next.Coherent := by
  unfold Coherent
  rw [status, wait]
  exact coherent

end Coherent

theorem WaitsFor.coherent {wait : Wait} (waits : machine.WaitsFor wait) : machine.Coherent :=
  ⟨fun _ => waits.wait ▸ rfl, fun _ => waits.status⟩

theorem Advances.coherent {limits : Limits} (advances : machine.Advances limits next)
    (coherent : machine.Coherent) : next.Coherent := by
  rcases advances.status with ⟨status, wait⟩ | ⟨suspended, waits⟩
  · exact coherent.congr status wait
  · exact ⟨fun _ => waits, fun _ => suspended⟩

theorem start_coherent (code : Code) (scope : ScopeRef) : (start code scope).Coherent :=
  .ofFree nofun rfl

theorem halted_coherent (machine : Machine) : machine.halted.Coherent :=
  .ofFree nofun rfl

/-- A machine that is not suspended, and may be made to run or to end. -/
theorem settle_coherent (free : machine.wait? = none) (going : machine.status ≠ .suspended)
    (world : World σ) : (machine.settle world).machine.Coherent := by
  unfold settle
  dsimp only
  split
  · split
    · exact .ofFree nofun free
    · exact halted_coherent _
  · exact .ofFree going free

theorem settle_free (free : machine.wait? = none) (world : World σ) :
    (machine.settle world).machine.wait? = none := by
  unfold settle
  dsimp only
  split
  · split
    · exact free
    · rfl
  · exact free

theorem advance_coherent (coherent : machine.Coherent) (world : World σ) :
    (machine.advance host world).machine.Coherent := by
  rw [advance_eq]
  split
  · exact halted_coherent _
  · split
    · rename_i next after executed
      have advances := execute_advances executed
      have begun : machine.begun.Coherent := coherent
      have reached := advances.coherent begun
      split
      · rename_i running
        have going : next.status ≠ .suspended := by
          rw [running]
          exact nofun
        exact settle_coherent (reached.free going) going after
      · exact reached
    · exact halted_coherent _

theorem awaken_coherent (machine : Machine) (ref : DeferredRef) (world : World σ) :
    (machine.awaken ref world).machine.Coherent := by
  unfold awaken
  dsimp only
  split
  · exact .ofFree nofun rfl
  · exact halted_coherent _
  · exact halted_coherent _

/-- An error ends the machine. -/
theorem awaken_ended (ref : DeferredRef) : (machine.awaken ref world).error ≠ none →
    (machine.awaken ref world).machine.status = .finished := by
  unfold awaken
  dsimp only
  split
  · exact fun failed => absurd rfl failed
  · exact fun _ => rfl
  · exact fun _ => rfl

section

variable (poll : Poller σ)

theorem resume_ended : (machine.resume poll world).error ≠ none →
    (machine.resume poll world).machine.status = .finished := by
  unfold resume
  split
  · exact fun failed => absurd rfl failed
  · dsimp only
    split
    · exact awaken_ended _
    · exact fun failed => absurd rfl failed

theorem resume_coherent (coherent : machine.Coherent) (world : World σ) :
    (machine.resume poll world).machine.Coherent := by
  unfold resume
  split
  · exact coherent
  · dsimp only
    split
    · exact awaken_coherent _ _ _
    · exact coherent

/-- Only an error ends a machine that looks for its result. -/
theorem resume_unfinished (unfinished : machine.status ≠ .finished)
    (noError : (machine.resume poll world).error = none) :
    (machine.resume poll world).machine.status ≠ .finished := by
  unfold resume at noError ⊢
  split
  · exact unfinished
  · dsimp only at noError ⊢
    split
    · rename_i wait waiting woken
      rw [waiting] at noError
      dsimp only at noError
      rw [if_pos woken] at noError
      unfold awaken at noError ⊢
      dsimp only at noError ⊢
      split
      · exact nofun
      · rename_i failed
        rw [failed] at noError
        exact nomatch noError
      · rename_i missing
        rw [missing] at noError
        exact nomatch noError
    · exact unfinished

theorem not_goesOn_of_error {turn : Turn σ} (failed : turn.error ≠ none) : ¬ goesOn turn = true :=
  fun goes => failed (goesOn_iff.mp goes).1

/-- A machine that still waits does not go on. -/
theorem WaitsFor.not_goesOn {wait : Wait} (waits : machine.WaitsFor wait) (world : World σ) :
    ¬ goesOn { machine, world } = true :=
  fun goes => waits.not_free (goesOn_iff.mp goes).2

theorem step_coherent (coherent : machine.Coherent) (world : World σ) :
    (machine.step host poll world).machine.Coherent := by
  have resumed := resume_coherent poll coherent world
  have goesOn (status : machine.status = .ready ∨ machine.status = .running) :
      ({ machine with status := .running }.settle world).machine.Coherent := by
    have active : Active { machine with status := .running } :=
      ⟨Or.inr rfl, (coherent.active status).awake⟩
    exact settle_coherent active.awake active.going world
  have stepped := step_stepped host poll machine world
  generalize machine.step host poll world = turn at stepped ⊢
  cases stepped with
  | ended => exact coherent
  | stayed => exact resumed
  | woke _ _ free => exact settle_coherent free (resumed.going free) _
  | settled status => exact goesOn status
  | advanced status => exact advance_coherent (goesOn status) world

theorem runCycles_coherent (budget : Nat) (coherent : machine.Coherent) (world : World σ) :
    (machine.runCycles host poll budget world).machine.Coherent :=
  runCycles_keeps (motive := fun machine _ => machine.Coherent)
    (fun coherent => step_coherent poll coherent _) (·.congr rfl rfl) budget coherent

end

end Machine

end MiniScript
