import MiniScript.Proofs.Compiler.Lines
import MiniScript.Proofs.Machine.Standing

/-!
# Runtime errors have a place

A runtime error comes from an instruction: it fails when it is executed, or the
result that it waits for turns out to be a failure. An instruction that stands at no
line never fails. So an error in compiled code, unless it already has a line, gets
that of the innermost statement whose code contains the instruction.
-/

namespace MiniScript

open Compiler

namespace Code

/-- Code that the compiler has written: that of a body, or the code that calls the body of a
module. -/
inductive IsWritten (code : Code) : Prop where
  | body {sourceName : Option String} {kind : BodyKind} {stmts : List Stmt}
      {functions result : Array Definition}
      (compiled : compileBody sourceName kind stmts functions = .ok (code, result))
  | module {sourceName : Option String} {name : String} {stmts : List Stmt}
      {functions result : Array Definition}
      (compiled : compileModule sourceName name stmts functions = .ok (code, result))

theorem IsBody.isWritten {code : Code} (body : code.IsBody) : code.IsWritten := by
  obtain ⟨sourceName, kind, stmts, functions, result, -, -, compiled⟩ := body
  exact .body compiled

/-- What the instruction at a position of the code makes of an error that it raises. -/
structure Pinpoints (code : Code) (position : Nat) (raised error : RuntimeError) : Prop where
  carried : raised.line.isSome → error = raised
  named : raised.line = none → error.sourceName = code.sourceName
  inBody : raised.line = none → ∀ {sourceName kind stmts functions result},
    compileBody sourceName kind stmts functions = .ok (code, result) →
      ∃ stmt, statementAt? stmts position = some stmt ∧
        error = { raised with line := some stmt.line, sourceName }
  inModule : raised.line = none → ∀ {sourceName name stmts functions result},
    compileModule sourceName name stmts functions = .ok (code, result) →
      error = { raised with line := some (firstLine stmts), sourceName }

/-- An instruction that stands at no line aside, an error gets the place of the instruction. -/
theorem pinpoints {code : Code} {position : Nat} {instr : Instr}
    (here : code.instrs[position]? = some instr) (lined : ¬ Unlined instr.op)
    (raised : RuntimeError) :
    code.Pinpoints position raised (raised.locate (code.lineAt? position) code.sourceName) := by
  have unknown (free : raised.line = none) (line : Option Nat) (sourceName : Option String) :
      raised.locate line sourceName = { raised with line, sourceName } := by
    rw [RuntimeError.locate, free]
  refine ⟨fun known => ?_, fun free => ?_, fun free => ?_, fun free => ?_⟩
  · obtain ⟨line, known⟩ := Option.isSome_iff_exists.mp known
    exact RuntimeError.locate_of_line known _ _
  · rw [unknown free]
  · intro sourceName kind stmts functions result compiled
    obtain ⟨stmt, inside, line⟩ := (lineAt?_of_body compiled here).resolve_right lined
    refine ⟨stmt, inside, ?_⟩
    rw [unknown free, line, sourceName_of_body compiled]
  · intro sourceName name stmts functions result compiled
    rw [unknown free, lineAt?_of_module compiled here, sourceName_of_module compiled]

end Code

namespace Machine

variable {σ : Type} {host : Host σ} {world after : World σ} {machine : Machine} {poll : Poller σ}
variable {known : Code → Prop} {position : Nat} {instr : Instr} {error : RuntimeError}

/-- Instructions that stand at no line do not fail. -/
theorem execute_unlined (free : Unlined instr.op) :
    machine.execute host position instr world ≠ (.error (.runtime error), after) := by
  obtain ⟨op, first, second⟩ := instr
  rw [execute_eq]
  rcases free with rfl | rfl | rfl | rfl
  · cases first <;> exact nofun
  · cases first <;> exact nofun
  · cases first <;> exact nofun
  · obtain ⟨frame, callers, _ | ⟨value, stack⟩, status, wait?,
      yields, native⟩ := machine <;> exact nofun

/-- An instruction raises an error: the next one of a machine that is awake, or the call behind
which the machine waits. -/
inductive Raises (host : Host σ) (poll : Poller σ) (machine : Machine) (world : World σ) :
    Code → Nat → RuntimeError → Prop where
  | executing {calling : Machine} {instr : Instr} {raised : RuntimeError} {after : World σ}
      (awake : machine.status = .ready ∨ machine.status = .running)
      (settled : ({ machine with status := .running }.settle world).machine = calling)
      (here : calling.frame.code.instrs[calling.position]? = some instr)
      (failed : calling.begun.execute host calling.position instr (world.pass 1000) =
        (.error (.runtime raised), after)) :
      Raises host poll machine world calling.frame.code calling.position raised
  | waiting {wait : Wait} {position : Nat} {op : Opcode} {raised : RuntimeError}
      (waits : machine.WaitsFor wait) (place : machine.position = position + 1)
      (here : machine.frame.code.opcodeAt? position = some op) (calls : op.isCall = true)
      (delivered : ((attend poll wait world).deferred wait.deferred).result =
        some (.error raised)) :
      Raises host poll machine world machine.frame.code position raised

theorem Raises.lined {code : Code} (raises : Raises host poll machine world code position error) :
    ∃ instr, code.instrs[position]? = some instr ∧ ¬ Unlined instr.op := by
  cases raises with
  | executing awake settled here failed =>
      exact ⟨_, here, fun free => execute_unlined free failed⟩
  | waiting waits place here calls delivered =>
      obtain ⟨instr, found, rfl⟩ := Option.map_eq_some_iff.mp here
      refine ⟨instr, found, ?_⟩
      rintro (op | op | op | op) <;> exact nomatch op ▸ calls

theorem settle_error {failure : ScriptError}
    (failed : (machine.settle world).error = some failure) :
    ∃ defect, failure = .internal defect := by
  unfold settle at failed
  dsimp only at failed
  split at failed
  · split at failed
    · exact nomatch failed
    · cases failed
      exact ⟨_, rfl⟩
  · exact nomatch failed

theorem advance_error (failed : (machine.advance host world).error = some (.runtime error)) :
    ∃ instr raised after, machine.frame.code.instrs[machine.position]? = some instr ∧
      machine.begun.execute host machine.position instr (world.pass 1000) =
        (.error (.runtime raised), after) ∧
      error = raised.locate (machine.frame.code.lineAt? machine.position)
        machine.frame.code.sourceName := by
  rw [advance_eq] at failed
  split at failed
  · exact nomatch failed
  · rename_i instr here
    split at failed
    · split at failed
      · obtain ⟨defect, same⟩ := settle_error failed
        exact nomatch same
      · exact nomatch failed
    · rename_i failure after executed
      cases failure with
      | runtime raised =>
          cases failed
          exact ⟨instr, raised, after, here, executed, rfl⟩
      | _ => exact nomatch failed

/-- A look for a result fails only with the failure that has been delivered. -/
theorem resume_error {wait : Wait} (waits : machine.WaitsFor wait)
    (failed : (machine.resume poll world).error = some (.runtime error)) :
    ∃ raised, ((attend poll wait world).deferred wait.deferred).result = some (.error raised) ∧
      error = raised.locate (machine.frame.code.lineAt? (machine.position - 1))
        machine.frame.code.sourceName := by
  unfold resume at failed
  rw [waits.wait] at failed
  dsimp only at failed
  split at failed
  · unfold awaken at failed
    dsimp only at failed
    split at failed
    · exact nomatch failed
    · rename_i raised delivered
      cases failed
      exact ⟨raised, delivered, rfl⟩
    · exact nomatch failed
  · exact nomatch failed

/-- An error has been raised by an instruction of known code, which has given it its place. -/
def Blames (host : Host σ) (poll : Poller σ) (known : Code → Prop) (machine : Machine)
    (world : World σ) (error : RuntimeError) : Prop :=
  ∃ code position raised, known code ∧ Raises host poll machine world code position raised ∧
    code.Pinpoints position raised error

theorem Raises.blames {code : Code} {raised : RuntimeError}
    (raises : Raises host poll machine world code position raised) (written : known code)
    (same : error = raised.locate (code.lineAt? position) code.sourceName) :
    Blames host poll known machine world error := by
  obtain ⟨instr, here, lined⟩ := raises.lined
  exact ⟨code, position, raised, written, raises, same ▸ Code.pinpoints here lined raised⟩

theorem resume_blames (standing : machine.Standing known)
    (failed : (machine.resume poll world).error = some (.runtime error)) :
    Blames host poll known machine world error := by
  cases waiting : machine.wait? with
  | some wait =>
      have waits := standing.coherent.waitsFor waiting
      obtain ⟨raised, delivered, same⟩ := resume_error waits failed
      obtain ⟨position, op, place, here, calls⟩ := standing.atCall waits.status
      rw [place, Nat.add_sub_cancel] at same
      exact (Raises.waiting waits place here calls delivered).blames standing.frame same
  | none =>
      unfold resume at failed
      rw [waiting] at failed
      exact nomatch failed

/-- One step, whoever polls. -/
theorem step_blames (standing : machine.Standing known)
    (failed : (machine.step host poll world).error = some (.runtime error)) :
    Blames host poll known machine world error := by
  have stepped := step_stepped host poll machine world
  generalize machine.step host poll world = turn at stepped failed
  cases stepped with
  | ended => cases failed
  | stayed => exact resume_blames standing failed
  | woke | settled =>
      obtain ⟨defect, same⟩ := settle_error failed
      cases same
  | advanced active =>
      obtain ⟨instr, raised, after, here, executed, same⟩ := advance_error failed
      exact (Raises.executing active rfl here executed).blames
        (standing.settled active world).frame same

/-- Steps with a poller lead from one state to another. -/
inductive Reaches (host : Host σ) (poll : Poller σ) (there : Machine) (later : World σ) :
    Machine → World σ → Prop where
  | here : Reaches host poll there later there later
  | step {machine : Machine} {world : World σ}
      (rest : Reaches host poll there later (machine.step host poll world).machine
        (machine.step host poll world).world) : Reaches host poll there later machine world

/-- An error comes from an instruction of known code that raises it after some steps. -/
def Located (host : Host σ) (poll : Poller σ) (known : Code → Prop) (machine : Machine)
    (world : World σ) (error : RuntimeError) : Prop :=
  ∃ there later, Reaches host poll there later machine world ∧
    Blames host poll known there later error

/-- Whatever a machine is asked next, whoever polls, the runtime errors that it reports are
located. -/
structure LocatesErrors (host : Host σ) (known : Code → Prop) (machine : Machine)
    (world : World σ) :
    Prop where
  served : ∀ request error, (machine.serve host world request).error = some (.runtime error) →
    machine.Located host (World.poll host) known world error
  cycled : ∀ {poll}, (∀ ref world, World.Becomes host world (poll ref world)) →
    ∀ budget error, (machine.runCycles host poll budget world).error = some (.runtime error) →
      machine.Located host poll known world error

theorem runCycles_located {holds : World σ → Prop} (guards : Safeguards host known holds)
    (polls : ∀ ref world, World.Becomes host world (poll ref world)) (budget : Nat)
    (standing : machine.Standing known) (held : holds world)
    (failed : (machine.runCycles host poll budget world).error = some (.runtime error)) :
    machine.Located host poll known world error := by
  induction budget generalizing machine world with
  | zero => exact nomatch failed
  | succ budget ih =>
      have stepped : (machine.step host poll world).machine.Standing known :=
        step_standing (guards.knows held) standing poll
      unfold runCycles at failed
      dsimp only at failed
      split at failed
      · split at failed
        · exact ⟨machine, world, .here, step_blames standing failed⟩
        · have next := guards.stays (becomes_step polls machine world) held
          obtain ⟨there, later, reaches, blames⟩ := ih stepped next failed
          exact ⟨there, later, .step reaches, blames⟩
      · exact ⟨machine, world, .here, step_blames standing failed⟩

theorem Standing.locatesErrors {holds : World σ → Prop} (guards : Safeguards host known holds)
    (standing : machine.Standing known) (held : holds world) :
    machine.LocatesErrors host known world := by
  refine ⟨fun request error failed => ?_, fun polls budget error failed => ?_⟩
  · cases request with
    | step => exact ⟨machine, world, .here, step_blames standing failed⟩
    | cycles budget => exact runCycles_located guards World.becomes_poll budget standing held failed
    | burst => exact runCycles_located guards World.becomes_poll _ standing held failed
    | resume => exact ⟨machine, world, .here, resume_blames standing failed⟩
    | pause =>
        have failed : (machine.pause world).error = some (.runtime error) := failed
        unfold pause at failed
        split at failed
        · exact nomatch failed
        · split at failed
          · exact nomatch failed
          · split at failed
            · exact nomatch failed
            · exact nomatch failed
    | stop =>
        have failed : (machine.stop world).error = some (.runtime error) := failed
        unfold stop at failed
        split at failed
        · exact nomatch failed
        · exact nomatch failed
  · exact runCycles_located guards polls budget standing held failed

/-- Nothing brings in a function with code from elsewhere. -/
structure OnlyCompiled (host : Host σ) (outside : World σ → World σ → Prop) (before : World σ) :
    Prop where
  natives : host.KeepsCompiled
  changes : ∀ {world after}, outside world after → world.StaysCompiled after
  start : before.Compiled

/-- Along every course of compiled code, a runtime error that did not already have a line is
reported at the innermost statement whose code contains the instruction that raised it. The code
that raised it is compiled, unless code from elsewhere has been brought in. -/
theorem runtime_errors_are_located {outside : World σ → World σ → Prop} {before : World σ}
    {code : Code} {functions : Array Definition}
    (written : Compiler.Writes before.heap.functions code functions) (scope : ScopeRef)
    {machine : Machine} {world : World σ}
    (course : Course host outside (.start code scope)
      (before.modifyHeap fun heap => { heap with functions }) machine world) :
    machine.LocatesErrors host (fun code => OnlyCompiled host outside before → code.IsWritten)
      world := by
  have guards : Safeguards host (fun code => OnlyCompiled host outside before → code.IsWritten)
      fun world => OnlyCompiled host outside before → world.Compiled := by
    refine ⟨fun compiled ref code script only => ?_, fun becomes compiled only => ?_⟩
    · exact ((compiled only).definition ref code script).isWritten
    · exact becomes.compiled only.natives (compiled only)
  have standing : (start code scope).Standing
      fun code => OnlyCompiled host outside before → code.IsWritten := by
    refine .start (fun _ => ?_) scope
    cases written with
    | program few compiled => exact .body compiled
    | module few compiled => exact .module compiled
  obtain ⟨stands, held⟩ := guards.course
    (fun changed compiled only => only.changes changed (compiled only)) course standing
    fun only => only.start.adopt written.laidOut.2
  exact stands.locatesErrors guards held

end Machine

/-- A function fails in the second branch of a statement in it. -/
def faultyBranch : List Stmt :=
  [.assign 0 (.name ⟨"f", ⟨0, 0, 1⟩, 0⟩) none
      (.function ⟨0, 0, 1⟩ 0 []
        [.ifElse 0 ⟨0, 0, 2⟩ (.null ⟨0, 0, 2⟩ 0) [.returnValue 0 ⟨0, 0, 3⟩ none]
          (some [.returnValue 0 ⟨0, 0, 5⟩ (some (.name ⟨"missing", ⟨0, 0, 5⟩, 0⟩))])]),
    .expr 0 (.name ⟨"f", ⟨0, 0, 7⟩, 0⟩)]

theorem Machine.faulty_branch_is_located :
    ∃ code functions,
      compileProgram (some "main") faultyBranch (World.initial {} ()).heap.functions =
        .ok (code, functions) ∧
      let world : World Unit :=
        (World.initial {} ()).modifyHeap fun heap => { heap with functions }
      let turn := (Machine.start code ⟨0⟩).serve .silent world (.cycles 3)
      let known := fun code => Machine.OnlyCompiled .silent (fun _ _ => False)
        (World.initial {} ()) → code.IsWritten
      Machine.OnlyCompiled .silent (fun _ _ => False) (World.initial {} ()) ∧
        (∃ error, (turn.machine.serve .silent turn.world (.cycles 5)).error =
          some (.runtime error)) ∧
        turn.machine.LocatesErrors .silent known turn.world := by
  have accepted : ∃ pair, compileProgram (some "main") faultyBranch
      (World.initial {} ()).heap.functions = .ok pair ∧
        let world : World Unit :=
          (World.initial {} ()).modifyHeap fun heap => { heap with functions := pair.2 }
        let turn := (Machine.start pair.1 ⟨0⟩).serve .silent world (.cycles 3)
        ∃ error, (turn.machine.serve .silent turn.world (.cycles 5)).error =
          some (.runtime error) := by
    rw [compileProgram, compileBody_eq_layBody]
    exact ⟨_, rfl, _, rfl⟩
  obtain ⟨⟨code, functions⟩, compiled, fails⟩ := accepted
  refine ⟨code, functions, compiled, ?_, fails, ?_⟩
  · exact ⟨Host.silent_keepsCompiled, nofun, World.initial_compiled {} ()⟩
  · exact Machine.runtime_errors_are_located (.program (by decide) compiled) ⟨0⟩
      (.serve .start (.cycles 3))

end MiniScript
