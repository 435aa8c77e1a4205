import MiniScript.Proofs.Machine.Frames
import MiniScript.Proofs.Machine.Plan
import MiniScript.Proofs.Machine.Run
import MiniScript.Proofs.World.Compiled

/-!
# The stack discipline of compiled code

A machine that runs compiled code always stands at a place of the layout of its
code, and so does every caller, behind its call; the frames share the operand
stack, and each owns as many operands as its slot says. One step keeps this, so no
run finds an operand, a loop or an instruction missing, every function is left by a
`return`, and at the end no operand is left.
-/

namespace MiniScript

open Compiler

/-- The frame stands at a place of the layout of its code and runs the loops of the slot there. -/
def Frame.Held (outermost : Bool) (frame : Frame) (slot : Slot) : Prop :=
  ∃ places, LaidOut outermost frame.code places ∧ places frame.position slot ∧
    frame.Runs slot.loops

/-- The frames together hold that many operands. A caller stands behind its call, with the result of
the call already counted. -/
inductive Stacked : Frame → List Frame → Nat → Prop where
  | outermost {frame : Frame} {slot : Slot} (held : frame.Held true slot) :
      Stacked frame [] slot.height
  | inner {frame caller : Frame} {callers : List Frame} {slot : Slot} {below : Nat}
      (held : frame.Held false slot) (rest : Stacked caller callers (below + 1)) :
      Stacked frame (caller :: callers) (slot.height + below)

namespace Stacked

variable {frame : Frame} {callers : List Frame} {count : Nat}

/-- The innermost frame, and what is below it. -/
theorem top (stacked : Stacked frame callers count) :
    ∃ slot below, frame.Held callers.isEmpty slot ∧ count = slot.height + below ∧
      (∀ {other : Frame} {after : Slot}, other.Held callers.isEmpty after →
        Stacked other callers (after.height + below)) ∧
      ∀ {caller : Frame} {rest : List Frame}, callers = caller :: rest →
        Stacked caller rest (below + 1) := by
  cases stacked with
  | outermost held => exact ⟨_, 0, held, rfl, .outermost, nofun⟩
  | inner held rest =>
      refine ⟨_, _, held, rfl, fun other => .inner other rest, ?_⟩
      rintro _ _ ⟨⟩
      exact rest

/-- Only outermost code runs out, and then it has neither operands nor callers. -/
theorem done (stacked : Stacked frame callers count) (isDone : frame.isDone = true) :
    callers = [] ∧ count = 0 := by
  have beyond : frame.code.size ≤ frame.position := of_decide_eq_true isDone
  cases stacked with
  | outermost held =>
      obtain ⟨places, layout, reached, _⟩ := held
      obtain ⟨_, rfl⟩ := layout.ends reached beyond
      exact ⟨rfl, rfl⟩
  | inner held rest =>
      obtain ⟨places, layout, reached, _⟩ := held
      exact nomatch (layout.ends reached beyond).1

end Stacked

namespace Machine

variable {σ : Type} {host : Host σ} {world : World σ} {machine next : Machine}

/-- The number of operands, with the one that the machine waits for. -/
def operands (machine : Machine) : Nat :=
  match machine.wait? with
  | some _ => machine.stack.length + 1
  | none => machine.stack.length

/-- The frames hold the operands of the machine as their code says; at the end there are none. -/
structure Disciplined (machine : Machine) : Prop where
  coherent : machine.Coherent
  stacked : machine.status ≠ .finished → Stacked machine.frame machine.callers machine.operands
  finished : machine.status = .finished → machine.stack = []

/-- The code that is being run and its scope, in the innermost frame first. -/
def activations (machine : Machine) : List (Code × ScopeRef) :=
  (machine.frame :: machine.callers).map fun frame => (frame.code, frame.scope)

/-- Every activation goes on, or the innermost one is left by a `return`. -/
def LeavesByReturn (before after : Machine) : Prop :=
  before.activations <:+ after.activations ∨
    before.nextOpcode? = some .return ∧ before.callers = after.frame :: after.callers

theorem Disciplined.ofRunning (running : machine.status = .running) (free : machine.wait? = none)
    (stacked : Stacked machine.frame machine.callers machine.stack.length) :
    machine.Disciplined where
  coherent := .ofActive ⟨Or.inr running, free⟩
  stacked _ := by
    rw [operands, free]
    exact stacked
  finished ended := nomatch running.symm.trans ended

/-- A machine that is not suspended has all its operands. -/
theorem Disciplined.present (disciplined : machine.Disciplined)
    (unfinished : machine.status ≠ .finished) (free : machine.wait? = none) :
    Stacked machine.frame machine.callers machine.stack.length := by
  have stacked := disciplined.stacked unfinished
  rw [operands, free] at stacked
  exact stacked

theorem Disciplined.ofFinished (ended : machine.status = .finished) (free : machine.wait? = none)
    (empty : machine.stack = []) : machine.Disciplined where
  coherent := .ofFree (ended ▸ nofun) free
  stacked unfinished := absurd ended unfinished
  finished _ := empty

theorem execute_safe {position : Nat} {instr : Instr} {holds : Action → Prop}
    (planned : Safe holds (plan world machine position instr)) :
    Safe (fun next => ∃ action, holds action ∧ Performed world action next)
      (machine.execute host position instr world).1 := by
  rw [execute_eq]
  generalize plan world machine position instr = outcome at planned
  cases planned with
  | ok known =>
      exact (perform_performed _ world).mono fun next performed => ⟨_, known, performed⟩
  | fault error => exact .fault error

/-- What an instruction makes of a machine whose frames hold its operands. -/
theorem performed_disciplined {instr : Instr} {slot : Slot} {below : Nat} {places : Places}
    {action : Action} (leads : Leads places machine instr slot action)
    (performed : Performed world action next) (compiled : world.Compiled)
    (running : machine.status = .running) (free : machine.wait? = none)
    (layout : LaidOut machine.callers.isEmpty machine.frame.code places)
    (count : machine.stack.length = slot.height + below)
    (replace : ∀ {other : Frame} {after : Slot}, other.Held machine.callers.isEmpty after →
      Stacked other machine.callers (after.height + below))
    (back : ∀ {caller : Frame} {rest : List Frame}, machine.callers = caller :: rest →
      Stacked caller rest (below + 1)) :
    next.Disciplined ∧ (machine.activations <:+ next.activations ∨
      instr.op = .return ∧ machine.callers = next.frame :: next.callers) := by
  cases leads with
  | onward place loops stack after same reached runs moved =>
      have held : Frame.Held machine.callers.isEmpty
          { machine.frame with position := place, loops } after := ⟨places, layout, reached, runs⟩
      have stacked := replace held
      rw [show after.height + below = stack.length + action.owed by omega] at stacked
      cases performed with
      | done results owed =>
          rw [same]
          refine ⟨.ofRunning running free ?_, Or.inl (List.suffix_refl _)⟩
          rw [List.length_append, owed, Nat.add_comm]
          exact stacked
      | called owed called =>
          rw [owed] at stacked
          rw [same] at called
          cases called with
          | answered value yields native =>
              exact ⟨.ofRunning running free stacked, Or.inl (List.suffix_refl _)⟩
          | waits wait yields =>
              exact ⟨⟨⟨fun _ => rfl, fun _ => rfl⟩, fun _ => stacked, nofun⟩,
                Or.inl (List.suffix_refl _)⟩
          | entered ref code scope known room =>
              obtain ⟨inside, entered⟩ := (compiled.definition ref code known).laidOut
              have body : Frame.Held false { code, scope } (.level []) :=
                ⟨inside, entered, entered.start, nofun⟩
              have deeper := Stacked.inner body stacked
              rw [show (Slot.level []).height + stack.length = stack.length from Nat.zero_add _]
                at deeper
              exact ⟨.ofRunning running free deeper, Or.inl (List.suffix_cons _ _)⟩
  | leave value stack isReturn only inner same moved =>
      subst same
      cases performed with
      | called owed => exact nomatch owed
      | done results owed =>
          have none : results = [] := List.eq_nil_of_length_eq_zero owed
          subst none
          cases callers : machine.callers with
          | nil => exact absurd callers inner
          | cons caller rest =>
              have stacked := back callers
              simp only [Action.next, leave, List.nil_append]
              refine ⟨.ofRunning running free ?_, Or.inr ⟨isReturn, trivial⟩⟩
              rw [show (value :: stack).length = below + 1 by rw [List.length_cons]; omega]
              exact stacked

/-- No function is left for want of code, and at the end no operand is left over. -/
theorem settle_of_stacked (stacked : Stacked machine.frame machine.callers machine.stack.length)
    (world : World σ) :
    machine.stack = [] ∧
        machine.settle world = { machine := { machine with status := .finished }, world } ∨
      machine.frame.isDone = false ∧ machine.settle world = { machine, world } := by
  cases isDone : machine.frame.isDone with
  | true =>
      obtain ⟨none, empty⟩ := stacked.done isDone
      have nothing : machine.stack = [] := List.eq_nil_of_length_eq_zero empty
      refine Or.inl ⟨nothing, ?_⟩
      obtain ⟨frame, callers, stack, status, wait?, yields, native⟩ := machine
      subst none nothing
      simp only [settle, unwind, isDone, if_true, List.isEmpty_nil]
  | false =>
      have still : unwind machine.frame machine.callers machine.stack =
          (machine.frame, machine.callers, machine.stack) := by
        cases callers : machine.callers with
        | nil => rfl
        | cons caller rest => simp only [unwind, isDone, Bool.false_eq_true, if_false]
      refine Or.inr ⟨rfl, ?_⟩
      simp only [settle, still, isDone, Bool.false_eq_true, if_false]

end Machine

/-- A machine that holds its operands, and no error but a runtime error or a wait without a
result. -/
structure Turn.Disciplined {σ : Type} (turn : Turn σ) : Prop where
  machine : turn.machine.Disciplined
  ended : turn.error ≠ none → turn.machine.status = .finished
  error : ∀ defect, turn.error = some (.internal defect) → defect = .noResult ∨ defect = .hopeless

namespace Machine

variable {σ : Type} {host : Host σ} {world : World σ} {machine next : Machine}

/-- What one step makes of a disciplined machine. -/
structure Served (before : Machine) (turn : Turn σ) : Prop extends turn.Disciplined where
  frames : turn.error = none → before.LeavesByReturn turn.machine

theorem halted_disciplined (machine : Machine) : machine.halted.Disciplined :=
  .ofFinished rfl rfl rfl

namespace LeavesByReturn

theorem refl (machine : Machine) : machine.LeavesByReturn machine :=
  Or.inl (List.suffix_refl _)

theorem congr {other : Machine} (left : machine.LeavesByReturn next)
    (sameFrame : other.frame = next.frame) (sameCallers : other.callers = next.callers) :
    machine.LeavesByReturn other := by
  obtain ⟨frame, callers, stack, status, wait?, yields, native⟩ := other
  cases sameFrame
  cases sameCallers
  exact left

end LeavesByReturn

theorem Served.ofAbort (before : Machine) (world : World σ) (error : RuntimeError) :
    before.Served (machine.abort world (.runtime error)) where
  machine := halted_disciplined machine
  ended _ := rfl
  error := nofun
  frames := nofun

theorem Served.ofOk (disciplined : next.Disciplined) (left : machine.LeavesByReturn next)
    (world : World σ) : machine.Served { machine := next, world } where
  machine := disciplined
  ended failed := absurd rfl failed
  error := nofun
  frames _ := left

/-- Settling a machine that goes on changes neither its frames nor the discipline. -/
theorem settle_served (disciplined : next.Disciplined) (left : machine.LeavesByReturn next)
    (unfinished : next.status ≠ .finished) (free : next.wait? = none) (world : World σ) :
    machine.Served (next.settle world) := by
  have stacked := disciplined.present unfinished free
  rcases settle_of_stacked stacked world with ⟨empty, settled⟩ | ⟨_, settled⟩
  · rw [settled]
    refine .ofOk ?_ ?_ world
    · exact .ofFinished rfl free empty
    · exact left.congr rfl rfl
  · rw [settled]
    exact .ofOk disciplined left world

/-- One instruction. -/
theorem advance_served (compiled : world.Compiled) (running : machine.status = .running)
    (free : machine.wait? = none)
    (stacked : Stacked machine.frame machine.callers machine.stack.length)
    (unfinished : machine.frame.isDone = false) : machine.Served (machine.advance host world) := by
  obtain ⟨slot, below, ⟨places, layout, reached, runs⟩, count, replace, back⟩ := stacked.top
  have within : machine.frame.position < machine.frame.code.size := by
    rw [Frame.isDone, decide_eq_false_iff_not] at unfinished
    exact Nat.lt_of_not_le unfinished
  obtain ⟨instr, found, accepts⟩ := layout.accepts reached within
  have planned : Safe (Leads places machine.begun instr slot)
      (plan (world.pass 1000) machine.begun machine.frame.position instr) :=
    plan_accepted accepts rfl runs (count ▸ Nat.le_add_right _ _)
  have executed : Safe (fun next => ∃ action, Leads places machine.begun instr slot action ∧
        Performed (world.pass 1000) action next)
      (machine.begun.execute host machine.frame.position instr (world.pass 1000)).1 :=
    execute_safe planned
  rw [advance_eq]
  simp only [found]
  cases outcome : machine.begun.execute host machine.frame.position instr (world.pass 1000) with
  | mk result after =>
      rw [outcome] at executed
      cases executed with
      | fault error => exact .ofAbort machine after _
      | ok known =>
          obtain ⟨action, leads, performed⟩ := known
          obtain ⟨disciplined, frames⟩ := performed_disciplined leads performed compiled running
            free layout count replace back
          have opcode : instr.op = .return → machine.nextOpcode? = some .return := by
            intro isReturn
            rw [nextOpcode?, Code.opcodeAt?, position, found, Option.map_some, isReturn]
          rename_i next
          have left : machine.LeavesByReturn next := frames.imp id (And.imp_left opcode)
          dsimp only
          split
          · rename_i running
            have active := disciplined.coherent.active (Or.inr running)
            exact settle_served disciplined left active.unfinished active.awake after
          · exact .ofOk disciplined left after

theorem awaken_served (disciplined : machine.Disciplined) {wait : Wait}
    (waits : machine.wait? = some wait) (world : World σ) :
    machine.Served (machine.awaken wait.deferred world) := by
  have stacked : Stacked machine.frame machine.callers (machine.stack.length + 1) := by
    have suspended := (disciplined.coherent.waitsFor waits).status
    have expected := disciplined.stacked (suspended ▸ nofun)
    rw [operands, waits] at expected
    exact expected
  unfold awaken
  dsimp only
  split
  · refine .ofOk ?_ ?_ _
    · exact .ofRunning rfl rfl stacked
    · exact .refl machine
  · exact .ofAbort machine _ _
  · refine ⟨⟨halted_disciplined _, fun _ => rfl, fun defect failed => Or.inl ?_⟩, nofun⟩
    cases failed
    rfl

theorem resume_served (disciplined : machine.Disciplined) (poll : Poller σ) (world : World σ) :
    machine.Served (machine.resume poll world) := by
  unfold resume
  split
  · exact .ofOk disciplined (.refl machine) world
  · rename_i wait waiting
    dsimp only
    split
    · exact awaken_served disciplined waiting _
    · exact .ofOk disciplined (.refl machine) _

/-- One step. -/
theorem step_served (disciplined : machine.Disciplined) (poll : Poller σ)
    (compiled : world.Compiled) :
    machine.Served (machine.step host poll world) := by
  have resumed := resume_served disciplined poll world
  have stepped := step_stepped host poll machine world
  generalize machine.step host poll world = turn at stepped ⊢
  cases stepped with
  | ended => exact .ofOk disciplined (.refl machine) world
  | stayed => exact resumed
  | woke asleep noError free =>
      obtain ⟨wait, waits⟩ := disciplined.coherent.waits asleep
      have unfinished := resume_unfinished poll waits.unfinished noError
      exact settle_served resumed.machine (resumed.frames noError) unfinished free _
  | settled status =>
      have active := disciplined.coherent.active status
      have stacked := disciplined.present active.unfinished active.awake
      have goesOn : Active { machine with status := .running } := ⟨Or.inr rfl, active.awake⟩
      have started : Disciplined { machine with status := .running } :=
        .ofRunning rfl active.awake stacked
      exact settle_served started ((LeavesByReturn.refl machine).congr rfl rfl) goesOn.unfinished
        active.awake world
  | advanced status running =>
      have active := disciplined.coherent.active status
      have stacked := disciplined.present active.unfinished active.awake
      have outcomes := @settle_of_stacked σ { machine with status := .running } stacked world
      rcases outcomes with ⟨_, settled⟩ | ⟨unfinished, settled⟩
      · rw [settled] at running
        cases running
      · rw [settled]
        have advanced : Served { machine with status := .running }
            (Machine.advance host { machine with status := .running } world) :=
          advance_served compiled rfl active.awake stacked unfinished
        exact ⟨advanced.toDisciplined, advanced.frames⟩

section

variable {poll : Poller σ} (polls : ∀ ref world, World.Becomes host world (poll ref world))
variable (keeps : host.KeepsCompiled)

include polls keeps

/-- Any number of steps. -/
theorem runCycles_disciplined (budget : Nat) (disciplined : machine.Disciplined)
    (compiled : world.Compiled) : (machine.runCycles host poll budget world).Disciplined := by
  induction budget generalizing machine world with
  | zero => exact (Served.ofOk disciplined (.refl machine) world).toDisciplined
  | succ budget ih =>
      have stepped : machine.Served (machine.step host poll world) :=
        step_served disciplined poll compiled
      have later : (machine.step host poll world).world.Compiled :=
        (becomes_step polls machine world).compiled keeps compiled
      unfold runCycles
      dsimp only
      split
      · rename_i running
        split
        · refine ⟨⟨stepped.machine.coherent, fun unfinished => ?_, fun ended => ?_⟩,
            stepped.ended, stepped.error⟩
          · exact stepped.machine.stacked unfinished
          · exact stepped.machine.finished ended
        · exact ih stepped.machine later
      · exact stepped.toDisciplined

end

theorem pause_disciplined (disciplined : machine.Disciplined) (world : World σ) :
    (machine.pause world).Disciplined := by
  have stays (world : World σ) : Turn.Disciplined { machine, world } :=
    (Served.ofOk disciplined (.refl machine) world).toDisciplined
  unfold pause
  split
  · exact stays world
  · split
    · exact stays world
    · split
      · exact stays _
      · refine ⟨halted_disciplined machine, fun _ => rfl, fun defect failed => Or.inr ?_⟩
        cases failed
        rfl

theorem stop_disciplined (disciplined : machine.Disciplined) (world : World σ) :
    (machine.stop world).Disciplined := by
  unfold stop
  split
  · exact (Served.ofOk disciplined (.refl machine) world).toDisciplined
  · exact ⟨halted_disciplined machine, fun failed => absurd rfl failed, nofun⟩

theorem serve_disciplined (keeps : host.KeepsCompiled)
    (disciplined : machine.Disciplined) (compiled : world.Compiled) (request : Request) :
    (machine.serve host world request).Disciplined := by
  cases request with
  | step => exact (step_served disciplined (World.poll host) compiled).toDisciplined
  | cycles budget =>
      exact runCycles_disciplined World.becomes_poll keeps budget disciplined compiled
  | burst =>
      exact runCycles_disciplined World.becomes_poll keeps world.limits.burstCycles disciplined
        compiled
  | resume => exact (resume_served disciplined (World.poll host) world).toDisciplined
  | pause => exact pause_disciplined disciplined world
  | stop => exact stop_disciplined disciplined world

/-- What holds at the start of a run holds all along it. -/
theorem Run.disciplined {first : Machine} {initial : World σ}
    (keeps : host.KeepsCompiled)
    (run : Run host World.StaysCompiled first initial machine world)
    (disciplined : first.Disciplined) (compiled : initial.Compiled) :
    machine.Disciplined ∧ world.Compiled := by
  induction run with
  | start => exact ⟨disciplined, compiled⟩
  | serve before request ih =>
      refine ⟨(serve_disciplined keeps ih.1 ih.2 request).machine, ?_⟩
      exact (becomes_serve _ _ request).compiled keeps ih.2
  | change before changed ih => exact ⟨ih.1, changed ih.2⟩

theorem start_disciplined {code : Code} {places : Places} (layout : LaidOut true code places)
    (scope : ScopeRef) : (start code scope).Disciplined where
  coherent := .ofFree nofun rfl
  stacked _ := by
    have held : Frame.Held true { code, scope } (.level []) := ⟨places, layout, layout.start, nofun⟩
    exact .outermost held
  finished ended := nomatch ended

/-- What the discipline promises of a machine, whatever it is asked next. -/
structure KeepsDiscipline (host : Host σ) (machine : Machine) (world : World σ) : Prop where
  noDefect : ∀ request defect, (machine.serve host world request).error = some (.internal defect) →
    defect = .noResult ∨ defect = .hopeless
  leavesByReturn : (machine.stepOnce host world).error = none →
    machine.LeavesByReturn (machine.stepOnce host world).machine
  nothingLeft : machine.status = .finished → machine.stack = []

end Machine

namespace Compiler

/-- Code for the outermost level, as the compiler writes it, with the definitions that go with
it. There are enough numbers for the loops. -/
inductive Writes (functions : Array Definition) (code : Code) (result : Array Definition) :
    Prop where
  | program {sourceName : Option String} {stmts : List Stmt} (few : FewLoops stmts)
      (compiled : compileProgram sourceName stmts functions = .ok (code, result))
  | module {sourceName : Option String} {name : String} {stmts : List Stmt} (few : FewLoops stmts)
      (compiled : compileModule sourceName name stmts functions = .ok (code, result))

theorem Writes.laidOut {functions result : Array Definition} {code : Code}
    (written : Writes functions code result) :
    (∃ places, LaidOut true code places) ∧ Extends functions result := by
  cases written with
  | program few compiled =>
      exact ⟨compileProgram_laidOut few compiled, compileBody_extends few compiled⟩
  | module few compiled => exact compileModule_laidOut few compiled

end Compiler

namespace Machine

variable {σ : Type} {host : Host σ}

/-- Every run of compiled code, in a heap whose functions are compiled or natives, keeps the stack
discipline, whatever the natives do, as long as they bring in no function with code from
elsewhere and no body has more loops than there are numbers for. -/
theorem run_keeps_discipline (keeps : host.KeepsCompiled) {before : World σ}
    (compiled : before.Compiled) {code : Code} {functions : Array Definition}
    (written : Compiler.Writes before.heap.functions code functions) (scope : ScopeRef)
    {machine : Machine} {world : World σ}
    (run : Run host World.StaysCompiled (.start code scope)
      (before.modifyHeap fun heap => { heap with functions }) machine world) :
    machine.KeepsDiscipline host world := by
  obtain ⟨⟨places, layout⟩, extension⟩ := written.laidOut
  obtain ⟨disciplined, stillCompiled⟩ :=
    run.disciplined keeps (start_disciplined layout scope) (compiled.adopt extension)
  refine ⟨fun request => ?_, ?_, disciplined.finished⟩
  · exact (serve_disciplined keeps disciplined stillCompiled request).error
  · exact (step_served disciplined (World.poll host) stillCompiled).frames

end Machine

/-- A loop that defines a function, calls it and is left early, run in two requests. -/
theorem Machine.loop_with_call_keeps_discipline :
    ∃ code functions,
      Compiler.compileProgram none
        [.forLoop 0 default ⟨"c", default, 0⟩ (.text "ab" default 0)
          [.assign 0 (.name ⟨"f", default, 0⟩) none
              (.function default 0 [] [.returnValue 0 default (some (.name ⟨"c", default, 0⟩))]),
            .expr 0 (.call default 0 (.name ⟨"f", default, 0⟩) []), .breakLoop 0 default]]
        (World.initial {} ()).heap.functions = .ok (code, functions) ∧
      let world : World Unit :=
        (World.initial {} ()).modifyHeap fun heap => { heap with functions }
      let turn := (Machine.start code ⟨0⟩).serve .silent world (.cycles 5)
      turn.machine.KeepsDiscipline .silent turn.world := by
  generalize stmts : [Stmt.forLoop 0 default ⟨"c", default, 0⟩ _ _] = program
  have few : Compiler.FewLoops program := by
    rw [← stmts]
    decide
  have accepted : ∃ pair, Compiler.compileProgram none program
      (World.initial {} ()).heap.functions = .ok pair := by
    rw [← stmts]
    exact Compiler.accepted (by decide +kernel)
  obtain ⟨⟨code, functions⟩, compiled⟩ := accepted
  refine ⟨code, functions, compiled, ?_⟩
  exact Machine.run_keeps_discipline Host.silent_keepsCompiled (World.initial_compiled {} ())
    (.program few compiled) ⟨0⟩ (.serve .start (.cycles 5))

end MiniScript
