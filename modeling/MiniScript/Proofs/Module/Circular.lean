import MiniScript.Proofs.Machine.Located
import MiniScript.Proofs.Module.Import

/-!
# Circular imports

While a machine is driven, the bodies of the modules that it waits for are run one
inside the other. An import is refused as circular exactly if the importing code runs
inside the load of that module, or if a load of that name is kept up by another
machine of the same world. The names that are loading belong to the whole world, so
in the second case the error speaks of a cycle where there is none.
-/

namespace MiniScript

open World

section

variable {σ : Type} {host : Host σ} {mine : σ → DeferredRef → Prop}
variable {past : String → Value → Prop} {lent : List (DeferredRef × String)}
variable {held : DeferredRef → Prop} {world there : World σ} {machine running : Machine}
variable {inside last : List String} {name : String} {call : Invocation} {poll : Poller σ}

namespace Library

/-- An import is refused as circular exactly if its name is loading and not remembered. -/
theorem importModule_circular_iff :
    (∃ error after, importModule host call world = (.error error, after) ∧
      error.fault = .circularImport name) ↔
      call.arg 0 = .text name ∧ world.cachedModule? name = none ∧ name ∈ world.loading := by
  constructor
  · rintro ⟨error, after, refused, fault⟩
    unfold importModule at refused
    split at refused
    · rename_i title named
      split at refused
      · cases refused
      · rename_i uncached
        split at refused
        · rename_i loading
          cases refused
          cases fault
          exact ⟨named, uncached, List.contains_iff_mem.mp loading⟩
        · split at refused
          · cases refused
            cases fault
          · unfold loadModule at refused
            split at refused
            · cases refused
              cases fault
            · cases refused
              cases fault
            · split at refused
              · cases refused
                cases fault
              · cases refused
    · cases refused
      cases fault
  · rintro ⟨named, uncached, loading⟩
    refine ⟨{ fault := .circularImport name }, world, ?_, rfl⟩
    simp only [importModule, named, uncached, List.contains_iff_mem.mpr loading, if_true]
    rfl

end Library

namespace Machine

/-- The next instruction of a machine that does not wait is an import. -/
inductive CallsImport (world : World σ) (machine : Machine) (call : Invocation) : Prop where
  | intro {calling next : Machine} {instr : Instr} {closure : Closure} {args : List Value}
      {receiver : Option Value} {owner : Option MapRef}
      (active : machine.Active)
      (settled : ({ machine with status := .running }.settle world).machine = calling)
      (running : calling.status = .running)
      (fetched : calling.frame.code.instrs[calling.position]? = some instr)
      (planned : plan (world.pass 1000) calling.begun calling.position instr =
        .ok (.call next (.function closure) args receiver owner))
      (definition : world.heap.definition closure.definition = call.definition)
      (body : call.definition.body = .importer)
      (binds : bindArguments call.definition args receiver = .ok call.args)
      (scope : next.frame.scope = call.scope)

theorem CallsImport.wait? (calls : CallsImport world machine call) : machine.wait? = none := by
  obtain ⟨active⟩ := calls
  exact active.awake

/-- The step of an import, whoever polls. -/
theorem CallsImport.step (calls : CallsImport world machine call) (host : Host σ)
    (poll : Poller σ) : ∃ calling next : Machine, machine.step host poll world =
      match next.receiveOutcome (Library.importModule host call (world.pass 1000)) with
      | (.ok next, world) =>
          if next.status = .running then next.settle world else { machine := next, world }
      | (.error error, world) =>
          { machine := calling.begun.halted, world
            error := some (error.locate calling.frame.code calling.position) } := by
  obtain @⟨_, next, _, _, _, _, _, active, rfl, running, fetched, planned, definition, body, binds,
    scope⟩ := calls
  refine ⟨({ machine with status := .running }.settle world).machine, next, ?_⟩
  have free : ({ machine with status := .running }.settle world).machine.begun.wait? = none :=
    @settle_free σ { machine with status := .running } active.awake world
  rw [step_of_running host poll active.status running, advance_eq]
  simp only [position] at fetched planned
  rw [fetched]
  dsimp only
  rw [execute_eq, planned]
  simp only [perform, Machine.call, World.pass, definition, binds, invoke, body, scope,
    abort_of_no_wait free]
  rfl

theorem locate_fault (error : RuntimeError) (line : Option Nat) (sourceName : Option String) :
    (error.locate line sourceName).fault = error.fault := by
  unfold RuntimeError.locate
  split
  · rfl
  · rfl

/-- An import fails at once exactly as the library refuses it. -/
theorem CallsImport.step_fault_iff (calls : CallsImport world machine call) {fault : Fault} :
    (∃ error, (machine.step host poll world).error = some (.runtime error) ∧
      error.fault = fault) ↔
      ∃ error after, Library.importModule host call (world.pass 1000) = (.error error, after) ∧
        error.fault = fault := by
  obtain ⟨calling, next, stepped⟩ := calls.step host poll
  rw [stepped]
  constructor
  · rintro ⟨error, failed, named⟩
    cases imported : Library.importModule host call (world.pass 1000) with
    | mk answer after =>
        rw [imported] at failed
        cases answer with
        | ok reply =>
            rw [receiveOutcome] at failed
            split at failed
            · split at failed
              · obtain ⟨defect, same⟩ := settle_error failed
                cases same
              · cases failed
            · rename_i refused
              exact absurd refused (receive_error _ _ _ _ _)
        | error raised =>
            rw [receiveOutcome] at failed
            cases failed
            exact ⟨raised, after, rfl, (locate_fault _ _ _).symm.trans named⟩
  · rintro ⟨raised, after, refused, named⟩
    rw [refused, receiveOutcome]
    exact ⟨_, rfl, (locate_fault _ _ _).trans named⟩

/-- The import fails with an error that speaks of a cycle. -/
def RefusesCircular (host : Host σ) (poll : Poller σ) (world : World σ) (machine : Machine)
    (name : String) : Prop :=
  ∃ error, (machine.step host poll world).error = some (.runtime error) ∧
    error.fault = .circularImport name

theorem CallsImport.refusesCircular_iff (calls : CallsImport world machine call) :
    machine.RefusesCircular host poll world name ↔
      call.arg 0 = .text name ∧ world.cachedModule? name = none ∧ name ∈ world.loading :=
  calls.step_fault_iff.trans Library.importModule_circular_iff

/-- How results are looked for while a machine is driven, from outside or from within a module. -/
inductive Looks (host : Host σ) : Poller σ → Prop where
  | outside : Looks host (World.poll host)
  | within (level : Nat) : Looks host (World.pollWithin host level)

/-- What is run while a machine is driven: the machine step by step, and inside the load of a
module that it waits for, the body of that module in the same way. The names are those of the
loads around the code that is run, the innermost first. -/
inductive Visits (host : Host σ) (last : List String) (running : Machine) (there : World σ) :
    List String → Machine → World σ → Prop where
  | here : Visits host last running there last running there
  | later {inside : List String} {machine : Machine} {world : World σ} {poll : Poller σ}
      (looks : Looks host poll)
      (rest : Visits host last running there inside (machine.step host poll world).machine
        (machine.step host poll world).world) :
      Visits host last running there inside machine world
  | within {inside : List String} {machine : Machine} {world : World σ} {wait : Wait}
      {load : ModuleLoad} (waits : machine.wait? = some wait)
      (loads : (world.deferred wait.deferred).load? = some load)
      (rest : Visits host last running there (load.name :: inside) load.machine
        (world.modifyDeferred wait.deferred .lend)) :
      Visits host last running there inside machine world

/-- The loads around the code that is run are lent out, and the books are in order. -/
theorem Visits.orderly (lawful : host.Keeps (Custody mine)) (hands : host.HandsOwn mine)
    (visits : Visits host last running there inside machine world) (coherent : machine.Coherent)
    (orderly : Orderly host mine past lent held machine.wait? world)
    (around : lent.map (·.2) = inside) :
    ∃ lent, lent.map (·.2) = last ∧ Orderly host mine past lent held running.wait? there := by
  induction visits generalizing lent with
  | here => exact ⟨lent, around, orderly⟩
  | later looks rest ih =>
      refine ih (step_coherent _ coherent _)
        (WaitInvariant.step ?_ (Or.inl coherent) orderly) around
      refine orderly_waitInvariant lawful hands fun wait world before => ?_
      cases looks with
      | outside => exact before.pollWithin lawful hands _
      | within level => exact before.pollWithin lawful hands level
  | within waits loads rest ih =>
      rw [waits] at orderly
      have began := (orderly.books.sound _ _ loads).ran.coherent
      exact ih began (orderly.lend loads) (congrArg _ around)

end Machine

/-- A name is loading if its load is lent out, or if it is behind a result that is held. -/
theorem World.Books.mem_loading_iff (books : Books host mine past lent held world) :
    name ∈ world.loading ↔ name ∈ lent.map (·.2) ∨
      ∃ first ref load, held first ∧ world.Behind first ref load ∧ load.name = name := by
  rw [books.ledger.listed]
  constructor
  · rintro ⟨ref, member | ⟨load, running, named⟩⟩
    · exact Or.inl (List.mem_map_of_mem member)
    · obtain ⟨first, holds, behind⟩ := books.attended running
      exact Or.inr ⟨first, ref, load, holds, behind, named⟩
  · rintro (member | ⟨first, ref, load, holds, behind, rfl⟩)
    · obtain ⟨⟨ref, title⟩, lent, rfl⟩ := List.mem_map.mp member
      exact ⟨ref, Or.inl lent⟩
    · exact ⟨ref, Or.inr ⟨load, behind.loads, rfl⟩⟩

namespace Fleet

/-- A machine waits for a load of that name, directly or through the bodies of other loads. -/
def Loading (machines : List Machine) (world : World σ) (name : String) : Prop :=
  ∃ machine ∈ machines, ∃ first ref load, machine.awaited? = some first ∧
    world.Behind first ref load ∧ load.name = name

/-- However the machines of a world have been driven before, the import of a module is refused as
circular exactly if it runs inside the load of that module, or if another machine waits for that
load. -/
theorem circular_iff_inside_or_loading_elsewhere (lawful : host.Keeps (Custody mine))
    (hands : host.HandsOwn mine) {initial : World σ} (unread : initial.Unread mine)
    {before after : List Machine}
    (run : Run host (Outside mine) { world := initial } ⟨before ++ machine :: after, world⟩)
    (visits : Machine.Visits host inside running there [] machine world)
    (calls : running.CallsImport there call) :
    running.RefusesCircular host poll there name ↔
      call.arg 0 = .text name ∧ (name ∈ inside ∨ Loading (before ++ after) there name) := by
  have kept : Kept host mine (fun _ _ => False) ⟨before ++ machine :: after, world⟩ :=
    Run.kept lawful hands run (kept_of_unread unread)
  have acting : Books host mine (fun _ _ => False) []
      (Joined (Holds (before ++ after)) machine.awaited?) world :=
    kept.toBooks.hold fun ref _ _ holds => (holds_append_cons before machine after ref).mp holds
  have coherent := kept.coherent machine (List.mem_append_right before List.mem_cons_self)
  obtain ⟨lent, rfl, orderly⟩ := visits.orderly lawful hands coherent (.ofBooks acting) rfl
  -- The code that imports does not wait, so only the others hold results.
  have books := orderly.books
  rw [calls.wait?] at books
  have books := books.joined_none
  have elsewhere : (∃ first ref load, Holds (before ++ after) first ∧
      there.Behind first ref load ∧ load.name = name) ↔ Loading (before ++ after) there name := by
    constructor
    · rintro ⟨first, ref, load, ⟨other, member, waits⟩, behind, named⟩
      exact ⟨other, member, first, ref, load, waits, behind, named⟩
    · rintro ⟨other, member, first, ref, load, waits, behind, named⟩
      exact ⟨first, ref, load, ⟨other, member, waits⟩, behind, named⟩
  rw [calls.refusesCircular_iff, books.mem_loading_iff, elsewhere]
  refine and_congr_right fun named => and_iff_right_of_imp fun taken => ?_
  exact books.ledger.uncached (books.mem_loading_iff.mpr (taken.imp_right elsewhere.mpr))

end Fleet

end

/-- The body of a module that is loading, inside its load. -/
def Turn.inside (turn : Turn Unit) (ref : DeferredRef) : Turn Unit :=
  match (turn.world.deferred ref).load? with
  | some load => { machine := load.machine, world := turn.world.modifyDeferred ref .lend }
  | none => turn

/-- Steps of the machine, one after the other. -/
def Turn.further (host : Host Unit) : Nat → Turn Unit → Turn Unit
  | 0, turn => turn
  | count + 1, turn => further host count (turn.machine.stepOnce host turn.world)

theorem Machine.Visits.inside {host : Host Unit} {last names : List String} {running : Machine}
    {there : World Unit} {turn : Turn Unit} {wait : Wait} {name : String}
    (waits : turn.machine.wait? = some wait)
    (loads : (turn.world.deferred wait.deferred).load?.map (·.name) = some name)
    (rest : Visits host last running there (name :: names) (turn.inside wait.deferred).machine
      (turn.inside wait.deferred).world) :
    Visits host last running there names turn.machine turn.world := by
  obtain ⟨load, found, rfl⟩ := Option.map_eq_some_iff.mp loads
  rw [Turn.inside, found] at rest
  exact .within waits found rest

theorem Machine.Visits.further {host : Host Unit} {last names : List String} {running : Machine}
    {there : World Unit} {turn : Turn Unit} (count : Nat)
    (rest : Visits host last running there names (turn.further host count).machine
      (turn.further host count).world) :
    Visits host last running there names turn.machine turn.world := by
  induction count generalizing turn with
  | zero => exact rest
  | succ count ih => exact .later .outside (ih rest)

/-- A host with modules that import one another. -/
def Host.circling : Host Unit :=
  .offering fun name => [.importing (if name = "outer" then "inner" else "outer")]

/-- A machine imports `outer`. -/
def Turn.opensCircle : Turn Unit :=
  (Machine.start (.importing "outer") ⟨0⟩).serve .circling .withImporter (.cycles 3)

/-- Its body imports `inner`. -/
def Turn.carriesOn : Turn Unit :=
  (Turn.opensCircle.inside ⟨0⟩).further .circling 4

/-- The body of `inner` is about to import `outer`. -/
def Turn.closesCircle : Turn Unit :=
  (Turn.carriesOn.inside ⟨1⟩).further .circling 3

theorem Turn.closesCircle_visits :
    Machine.Visits .circling ["inner", "outer"] Turn.closesCircle.machine Turn.closesCircle.world
      [] Turn.opensCircle.machine Turn.opensCircle.world := by
  have waitsOuter : Turn.opensCircle.machine.wait? = some ⟨⟨0⟩, 0⟩ := by decide +kernel
  have waitsInner : Turn.carriesOn.machine.wait? = some ⟨⟨1⟩, 1⟩ := by decide +kernel
  have loadsOuter : (Turn.opensCircle.world.deferred ⟨0⟩).load?.map (·.name) = some "outer" := by
    decide +kernel
  have loadsInner : (Turn.carriesOn.world.deferred ⟨1⟩).load?.map (·.name) = some "inner" := by
    decide +kernel
  refine .inside waitsOuter loadsOuter (.further 4 ?_)
  exact .inside waitsInner loadsInner (.further 3 .here)

theorem Turn.closesCircle_callsImport : Turn.closesCircle.machine.CallsImport
    Turn.closesCircle.world
      ⟨World.withImporter.heap.definition ⟨0⟩, [.text "outer"], ⟨2⟩⟩ := by
  have running : Turn.closesCircle.machine.status = .running := by decide +kernel
  have awake : Turn.closesCircle.machine.wait? = none := by decide +kernel
  exact .intro ⟨Or.inr running, awake⟩ rfl running rfl rfl rfl rfl rfl rfl

/-- The module `outer` imports `inner`, which imports `outer`. -/
theorem Fleet.circle_is_refused :
    Machine.Visits .circling ["inner", "outer"] Turn.closesCircle.machine Turn.closesCircle.world
        [] Turn.opensCircle.machine Turn.opensCircle.world ∧
      Turn.closesCircle.machine.RefusesCircular .circling (World.poll .circling)
        Turn.closesCircle.world "outer" := by
  have started : Run .circling (World.Outside fun _ _ => False) { world := .withImporter } _ :=
    .single (.spawn [] .withImporter (.importing "outer") ⟨0⟩)
  have run := started.tail (.serve [] _ [] _ (.cycles 3))
  refine ⟨Turn.closesCircle_visits, ?_⟩
  refine (circular_iff_inside_or_loading_elsewhere (Host.offering_custody _)
    (Host.offering_handsOwn _) World.withImporter_unread run Turn.closesCircle_visits
    Turn.closesCircle_callsImport).mpr ⟨rfl, Or.inl ?_⟩
  decide

/-- A host whose modules are empty. -/
def Host.empty : Host Unit :=
  .offering fun _ => []

/-- A machine imports a module. -/
def Turn.importsFirst : Turn Unit :=
  (Machine.start (.importing "plain") ⟨0⟩).serve .empty .withImporter (.cycles 3)

/-- Another one is about to import it too. -/
def Turn.importsSecond : Turn Unit :=
  (Machine.start (.importing "plain") ⟨0⟩).serve .empty Turn.importsFirst.world (.cycles 2)

/-- Two machines import a module that imports nothing. While the first one waits for it, the second
one is refused: its code runs inside no load at all, and the error speaks of a cycle. -/
theorem Fleet.import_beside_import_is_refused :
    Run .empty (World.Outside fun _ _ => False) { world := .withImporter }
        ⟨[Turn.importsSecond.machine, Turn.importsFirst.machine], Turn.importsSecond.world⟩ ∧
      Machine.Visits .empty [] Turn.importsSecond.machine Turn.importsSecond.world []
        Turn.importsSecond.machine Turn.importsSecond.world ∧
      Turn.importsSecond.machine.CallsImport Turn.importsSecond.world
        ⟨World.withImporter.heap.definition ⟨0⟩, [.text "plain"], ⟨0⟩⟩ ∧
      Turn.importsSecond.machine.RefusesCircular .empty (World.poll .empty)
        Turn.importsSecond.world "plain" ∧
      "plain" ∉ ([] : List String) := by
  have first : Run .empty (World.Outside fun _ _ => False) { world := .withImporter }
      ⟨[Turn.importsFirst.machine], Turn.importsFirst.world⟩ :=
    .tail (.single (.spawn [] .withImporter (.importing "plain") ⟨0⟩))
      (.serve [] _ [] _ (.cycles 3))
  refine ⟨?_, .here, ?_, ⟨_, rfl, rfl⟩, List.not_mem_nil⟩
  · exact (first.tail (.spawn _ _ (.importing "plain") ⟨0⟩)).tail (.serve [] _ _ _ (.cycles 2))
  · exact .intro ⟨Or.inr rfl, rfl⟩ rfl rfl rfl rfl rfl rfl rfl rfl

end MiniScript
