import MiniScript.Proofs.Machine.Run
import MiniScript.Proofs.Machine.Lifecycle
import MiniScript.Proofs.Module.Fate

/-!
# The bookkeeping of imports

For any number of machines that share a world, however they are started, driven,
stopped and thrown away, and whatever the host does with its handles meanwhile:
each name has at most one live load, the names that are loading are exactly those
of the live loads, and what is remembered was left behind by a body that ended
without an error and is never replaced. An import that fails, and a load whose
importer is stopped or thrown away, leaves its name free.
-/

namespace MiniScript

open World

section

variable {σ : Type} {host : Host σ} {mine : σ → DeferredRef → Prop}
variable {past : String → Value → Prop} {held : DeferredRef → Prop} {world after : World σ}
variable {machine : Machine} {first ref : DeferredRef} {load : ModuleLoad} {name : String}

namespace Library

/-- A module that is remembered is bound again; neither its loader nor its body is asked. -/
theorem importModule_of_cached {call : Invocation} {value : Value}
    (named : call.arg 0 = .text name) (cached : world.cachedModule? name = some value) :
    importModule host call world =
      (.ok { answer := .ready value },
        world.modifyHeap fun heap => heap.setLocal call.scope name value) := by
  simp only [importModule, named, cached]

/-- An import that is refused leaves its name free, unless the name is loading. -/
theorem released_of_refused (lawful : host.Keeps (Custody mine)) {call : Invocation}
    (named : call.arg 0 = .text name) {error : RuntimeError}
    (refused : importModule host call world = (.error error, after))
    (other : error.fault ≠ .circularImport name) : after.Released name := by
  simp only [importModule, named] at refused
  split at refused
  · cases refused
  · rename_i uncached
    split at refused
    · cases refused
      exact absurd rfl other
    · rename_i unloaded
      have free : world.Released name := by
        refine ⟨?_, uncached⟩
        simpa only [List.contains_eq_mem, decide_eq_true_eq] using unloaded
      split at refused
      · cases refused
        exact free
      · rename_i loader loads
        have custody := lawful.load loader loads name world
        have still : (loader name world).2.Released name := by
          refine ⟨custody.loading ▸ free.unloaded, ?_⟩
          rw [cachedModule?, custody.modules]
          exact free.uncached
        unfold loadModule at refused
        split at refused
        · rename_i answered
          cases refused
          rw [answered] at still
          exact still
        · rename_i answered
          cases refused
          rw [answered] at still
          exact still
        · rename_i answered
          rw [answered] at still
          split at refused
          · cases refused
            exact still
          · cases refused

end Library

namespace Machine

/-- Whatever a machine is asked but to stop, every load it waited for is still there, or its module
is remembered, or its name is free. -/
theorem serve_fate (lawful : host.Keeps (Custody mine)) (hands : host.HandsOwn mine)
    (coherent : machine.Coherent)
    (books : Books host mine past [] (Joined held machine.awaited?) world)
    (waits : machine.awaited? = some first) (behind : world.Behind first ref load)
    (request : Request) (goesOn : request ≠ .stop) :
    (machine.serve host world request).Fate machine.wait? ref load.name := by
  obtain ⟨wait, waiting, rfl⟩ := Option.map_eq_some_iff.mp waits
  have waitsFor := coherent.waitsFor waiting
  have orderly := Orderly.ofBooks books
  have keeps (past : String → Value → Prop) :
      WaitInvariant host (World.poll host) (Orderly host mine past [] held) :=
    orderly_waitInvariant lawful hands fun _ _ orderly => orderly.pollWithin lawful hands _
  obtain ⟨other, running⟩ := behind.starts
  have untold := books.untold _ _ (Books.busy_of_load? running)
  have asleep := isWoken_of_untold untold
  have loads : world.Loads ref load.name := ⟨load, behind.loads, rfl⟩
  have seen : (World.poll host wait.deferred world).Seen wait.deferred ref load.name := by
    rw [waiting] at orderly
    exact orderly.seen lawful hands _ behind
  cases request with
  | step => exact (step_fate waitsFor asleep seen).1
  | cycles budget => exact runCycles_fate keeps orderly waitsFor untold loads seen budget
  | burst => exact runCycles_fate keeps orderly waitsFor untold loads seen _
  | resume => exact resume_fate waiting asleep seen
  | pause =>
      have driving : (world.deferred wait.deferred).isSelfDriving = true := by
        rw [Deferred.isSelfDriving, source_of_load? running]
        rfl
      simp only [serve, pause, waiting, asleep, driving, Bool.false_eq_true, if_false, if_true]
      exact .waits waiting loads
  | stop => exact absurd rfl goesOn

/-- A machine that looks for the module it imports goes on waiting, is given the value that is
remembered from then on, or fails with the name free. -/
inductive Imports (host : Host σ) (machine : Machine) (world : World σ) (name : String) : Prop where
  | waits (still : (machine.serve host world .resume).machine = machine)
  | binds (value : Value)
      (given : (machine.serve host world .resume).machine =
        { machine with status := .running, wait? := none }.push value)
      (fine : (machine.serve host world .resume).error = none)
      (cached : (machine.serve host world .resume).world.cachedModule? name = some value)
  | fails (failed : (machine.serve host world .resume).error ≠ none)
      (released : (machine.serve host world .resume).world.Released name)

theorem resume_imports (lawful : host.Keeps (Custody mine)) (hands : host.HandsOwn mine)
    (books : Books host mine past [] (Joined held machine.awaited?) world)
    (waits : machine.awaited? = some ref) (running : (world.deferred ref).load? = some load) :
    machine.Imports host world load.name := by
  obtain ⟨wait, waiting, rfl⟩ := Option.map_eq_some_iff.mp waits
  have orderly := Orderly.ofBooks books
  rw [waiting] at orderly
  have seen : (World.poll host wait.deferred world).Seen wait.deferred wait.deferred load.name :=
    orderly.seen lawful hands _ (.here running)
  have asleep := isWoken_of_untold (books.untold _ _ (Books.busy_of_load? running))
  cases woken : (World.poll host wait.deferred world).isWoken wait with
  | false =>
      refine .waits ?_
      rw [serve, resume_of_untold waiting asleep woken]
  | true =>
      have told := resume_of_told waiting asleep woken
      cases seen with
      | waits untold left =>
          exact Bool.noConfusion ((isWoken_of_untold untold).symm.trans woken)
      | ended value result remembers bound =>
          simp only [awaken, result] at told
          refine .binds value ?_ ?_ ?_
          · rw [serve, told]
            rfl
          · rw [serve, told]
          · rw [serve, told]
            exact bound rfl
      | failed error result left =>
          have free : ({ machine with wait? := none } : Machine).wait? = none := rfl
          simp only [awaken, result, abort_of_no_wait free] at told
          have released := left.resolve_left fun inner => inner.1 rfl
          refine .fails ?_ ?_
          · rw [serve, told]
            exact Option.some_ne_none _
          · rw [serve, told]
            exact ⟨released.unloaded, released.uncached⟩

/-- A machine that is stopped leaves the names of all loads it waited for free. -/
theorem stop_released (coherent : machine.Coherent)
    (books : Books host mine past [] (Joined held machine.awaited?) world)
    (waits : machine.awaited? = some first) (behind : world.Behind first ref load) :
    (machine.stop world).world.Released load.name := by
  obtain ⟨wait, waiting, rfl⟩ := Option.map_eq_some_iff.mp waits
  rw [waits] at books
  have unfinished : machine.isFinished = false := by
    rw [isFinished, (coherent.waitsFor waiting).status]
    rfl
  have halted : (machine.stop world).world = world.cancel wait.deferred := by
    simp only [stop, unfinished, Bool.false_eq_true, if_false, halt, cancelWait, waiting]
  rw [halted]
  exact books.released_cancel behind

/-- So does a machine that is thrown away. -/
theorem release_released (books : Books host mine past [] (Joined held machine.awaited?) world)
    (waits : machine.awaited? = some first) (behind : world.Behind first ref load) :
    (world.release machine).Released load.name := by
  obtain ⟨wait, waiting, rfl⟩ := Option.map_eq_some_iff.mp waits
  obtain ⟨other, running⟩ := behind.starts
  rw [waits] at books
  have given : world.release machine = world.cancel wait.deferred := by
    simp only [World.release, waiting, source_of_load? running]
  rw [given]
  exact books.released_cancel behind

end Machine

end

/-- No module has been imported yet, and the host owns only handles that there are. -/
structure World.Unread {σ : Type} (mine : σ → DeferredRef → Prop) (world : World σ) : Prop where
  modules : world.modules = []
  loading : world.loading = []
  idle : ∀ ref, (world.deferred ref).load? = none
  owned : ∀ ref, mine world.host ref → ref.index < world.deferreds.size

namespace Fleet

variable {σ : Type} {host : Host σ} {mine : σ → DeferredRef → Prop}
variable {past : String → Value → Prop} {fleet later : Fleet σ} {ref : DeferredRef}
variable {load : ModuleLoad}

/-- A machine waits for the result. -/
def Holds (machines : List Machine) (ref : DeferredRef) : Prop :=
  ∃ machine ∈ machines, machine.awaited? = some ref

/-- A machine of the fleet waits for the load, directly or through the bodies of other loads. -/
def Live (fleet : Fleet σ) (ref : DeferredRef) (load : ModuleLoad) : Prop :=
  ∃ machine ∈ fleet.machines, ∃ first, machine.awaited? = some first ∧
    fleet.world.Behind first ref load

/-- The books of a fleet between two events, and what is known of its machines. -/
structure Kept (host : Host σ) (mine : σ → DeferredRef → Prop) (past : String → Value → Prop)
    (fleet : Fleet σ) : Prop extends
    Books host mine past [] (Holds fleet.machines) fleet.world where
  coherent : ∀ machine ∈ fleet.machines, machine.Coherent

theorem holds_append_cons (before : List Machine) (machine : Machine) (after : List Machine)
    (ref : DeferredRef) : Holds (before ++ machine :: after) ref ↔
      Joined (Holds (before ++ after)) machine.awaited? ref := by
  constructor
  · rintro ⟨other, member, waits⟩
    rcases List.mem_append.mp member with first | rest
    · exact Or.inl ⟨other, List.mem_append_left after first, waits⟩
    · rcases List.mem_cons.mp rest with rfl | last
      · exact Or.inr waits
      · exact Or.inl ⟨other, List.mem_append_right before last, waits⟩
  · rintro (⟨other, member, waits⟩ | waits)
    · refine ⟨other, ?_, waits⟩
      rcases List.mem_append.mp member with first | last
      · exact List.mem_append_left _ first
      · exact List.mem_append_right _ (List.mem_cons_of_mem _ last)
    · exact ⟨machine, List.mem_append_right _ List.mem_cons_self, waits⟩

/-- One machine acts, and the others hold what they wait for. -/
theorem Kept.act {machine : Machine} (kept : fleet.Kept host mine past)
    (member : machine ∈ fleet.machines) :
    ∃ held, Books host mine past [] (Joined held machine.awaited?) fleet.world := by
  obtain ⟨before, after, same⟩ := List.append_of_mem member
  refine ⟨Holds (before ++ after), kept.toBooks.hold fun ref _ _ holds => ?_⟩
  rw [same] at holds
  exact (holds_append_cons before machine after ref).mp holds

/-- Every event keeps the books. -/
theorem Step.kept (lawful : host.Keeps (Custody mine)) (hands : host.HandsOwn mine)
    (step : Step host (Outside mine) fleet later) (kept : fleet.Kept host mine past) :
    later.Kept host mine past := by
  cases step with
  | spawn machines world code scope =>
      refine ⟨kept.toBooks.hold fun ref _ _ holds => ?_,
        List.forall_mem_cons.mpr ⟨Machine.start_coherent code scope, kept.coherent⟩⟩
      obtain ⟨machine, member, waits⟩ := holds
      exact ⟨machine, List.mem_cons_of_mem _ member, waits⟩
  | serve before machine after world request =>
      have acting := kept.toBooks.hold fun ref _ _ holds =>
        (holds_append_cons before machine after ref).mp holds
      obtain ⟨front, rest⟩ := List.forall_mem_append.mp kept.coherent
      obtain ⟨coherent, back⟩ := List.forall_mem_cons.mp rest
      have served := Books.serve lawful hands coherent acting request
      have stays : (machine.serve host world request).machine.Coherent :=
        Machine.serve_coherent coherent world request
      exact ⟨served.hold fun ref _ _ holds => (holds_append_cons before _ after ref).mpr holds,
        List.forall_mem_append.mpr ⟨front, List.forall_mem_cons.mpr ⟨stays, back⟩⟩⟩
  | drop before machine after world =>
      have acting := kept.toBooks.hold fun ref _ _ holds =>
        (holds_append_cons before machine after ref).mp holds
      obtain ⟨front, rest⟩ := List.forall_mem_append.mp kept.coherent
      obtain ⟨_, back⟩ := List.forall_mem_cons.mp rest
      exact ⟨acting.release, List.forall_mem_append.mpr ⟨front, back⟩⟩
  | change machines changed => exact ⟨kept.toBooks.outside changed, kept.coherent⟩

theorem Run.kept (lawful : host.Keeps (Custody mine)) (hands : host.HandsOwn mine)
    (run : Run host (Outside mine) fleet later) (kept : fleet.Kept host mine past) :
    later.Kept host mine past := by
  induction run with
  | refl => exact kept
  | tail before step ih => exact step.kept lawful hands ih

/-- The chain of those who wait for a load ends at a machine. -/
theorem Kept.live (kept : fleet.Kept host mine past)
    (running : (fleet.world.deferred ref).load? = some load) : fleet.Live ref load := by
  obtain ⟨first, ⟨machine, member, waits⟩, behind⟩ := kept.attended running
  exact ⟨machine, member, first, waits, behind⟩

theorem Live.loads (live : fleet.Live ref load) :
    (fleet.world.deferred ref).load? = some load := by
  obtain ⟨_, _, _, _, behind⟩ := live
  exact behind.loads

/-- The state of the imports of a fleet, and what can become of it. -/
structure Accounted (host : Host σ) (mine : σ → DeferredRef → Prop) (fleet : Fleet σ) : Prop where
  /-- A load that no machine waits for any more is gone. -/
  attended : ∀ {ref load}, (fleet.world.deferred ref).load? = some load → fleet.Live ref load
  /-- A name has at most one live load. -/
  single : ∀ {ref other load inner}, fleet.Live ref load → fleet.Live other inner →
    load.name = inner.name → ref = other ∧ load = inner
  /-- The names that are loading are those of the live loads, none of which has finished. -/
  loading : ∀ name, name ∈ fleet.world.loading ↔
    ∃ ref load, fleet.Live ref load ∧ load.name = name ∧ load.machine.status ≠ .finished
  /-- What is remembered was left behind by a body that ended without an error. -/
  cached : ∀ name value, fleet.world.cachedModule? name = some value →
    name ∉ fleet.world.loading ∧ host.Leaves name value
  /-- It is never replaced. -/
  lasting : ∀ name value, fleet.world.cachedModule? name = some value →
    ∀ later, Run host (Outside mine) fleet later → later.world.cachedModule? name = some value
  /-- Every import of the name binds that value and does nothing else, also one by a body that runs
  while a machine looks for its result. -/
  recalled : ∀ (world : World σ) call name value, call.arg 0 = .text name →
    world.cachedModule? name = some value → Library.importModule host call world =
      (.ok { answer := .ready value },
        world.modifyHeap fun heap => heap.setLocal call.scope name value)
  /-- An import that fails at once leaves its name free, unless the name is loading. -/
  refused : ∀ (world : World σ) call name error after, call.arg 0 = .text name →
    Library.importModule host call world = (.error error, after) →
      error.fault ≠ .circularImport name → after.Released name
  /-- An import whose body has been started goes on, binds what is remembered, or fails and leaves
  its name free. -/
  imports : ∀ machine ∈ fleet.machines, ∀ ref load, machine.awaited? = some ref →
    (fleet.world.deferred ref).load? = some load → machine.Imports host fleet.world load.name
  /-- So does every import that it depends on. -/
  served : ∀ machine ∈ fleet.machines, ∀ first ref load, machine.awaited? = some first →
    fleet.world.Behind first ref load → ∀ request, request ≠ .stop →
      (machine.serve host fleet.world request).Fate machine.wait? ref load.name
  /-- Stopping a machine or throwing it away frees the names of all loads it waits for. -/
  ended : ∀ machine ∈ fleet.machines, ∀ first ref load, machine.awaited? = some first →
    fleet.world.Behind first ref load →
      (machine.serve host fleet.world .stop).world.Released load.name ∧
        (fleet.world.release machine).Released load.name

theorem kept_of_unread {initial : World σ} (unread : initial.Unread mine) :
    Kept host mine (fun _ _ => False) { world := initial } := by
  have unnamed (ref : DeferredRef) (name : String) : ¬ initial.Busy [] ref name := by
    rintro (member | ⟨load, running, _⟩)
    · exact List.not_mem_nil member
    · exact Option.some_ne_none load (running.symm.trans (unread.idle ref))
  have nothing {ref : DeferredRef} {load : ModuleLoad} {goal : Prop}
      (running : (initial.deferred ref).load? = some load) : goal :=
    absurd (running.symm.trans (unread.idle ref)) (Option.some_ne_none load)
  have names : Ledger host.Leaves (fun _ _ => False) (initial.Busy []) initial.loading
      initial.modules := by
    rw [unread.loading, unread.modules]
    refine ⟨fun busy => absurd busy (unnamed _ _), ?_, ?_, ?_, False.elim⟩
    · refine ⟨fun member => absurd member List.not_mem_nil, ?_⟩
      rintro ⟨ref, busy⟩
      exact absurd busy (unnamed ref _)
    · exact fun _ => rfl
    · exact fun found => absurd found.symm (Option.some_ne_none _)
  refine ⟨⟨names, ?_, ?_, ?_, ?_, ?_, ?_, unread.owned⟩, nofun⟩
  · exact fun ref name busy => absurd busy (unnamed ref name)
  · exact fun ref name busy => absurd busy (unnamed ref name)
  · exact fun ref name busy => absurd busy (unnamed ref name)
  · exact fun entry member => absurd member List.not_mem_nil
  · exact fun ref load running => nothing running
  · exact fun ref load running => nothing running

/-- However many machines share a world, and however they are driven, stopped and thrown away while
the host looks after its handles, the imports are accounted for. -/
theorem imports_are_accounted_for (lawful : host.Keeps (Custody mine)) (hands : host.HandsOwn mine)
    {initial : World σ} (unread : initial.Unread mine)
    (run : Run host (Outside mine) { world := initial } fleet) : fleet.Accounted host mine := by
  have kept : fleet.Kept host mine fun _ _ => False :=
    Run.kept lawful hands run (kept_of_unread unread)
  refine ⟨kept.live, ?_, ?_, ?_, ?_, ?_, ?_, ?_, ?_, ?_⟩
  · intro ref other load inner live also same
    have first : fleet.world.Busy [] ref load.name := Books.busy_of_load? live.loads
    have second : fleet.world.Busy [] other inner.name := Books.busy_of_load? also.loads
    obtain rfl := kept.ledger.distinct first (same ▸ second)
    exact ⟨rfl, Option.some.inj (live.loads.symm.trans also.loads)⟩
  · intro name
    rw [kept.ledger.listed]
    constructor
    · rintro ⟨ref, member | ⟨load, running, named⟩⟩
      · exact absurd member List.not_mem_nil
      · exact ⟨ref, load, kept.live running, named, (kept.sound ref load running).unfinished⟩
    · rintro ⟨ref, load, live, named, _⟩
      exact ⟨ref, Or.inr ⟨load, live.loads, named⟩⟩
  · intro name value cached
    refine ⟨fun listed => ?_, kept.ledger.cached cached⟩
    exact Option.some_ne_none value (cached.symm.trans (kept.ledger.uncached listed))
  · intro name value cached later onward
    have recalls := Run.kept lawful hands onward ⟨kept.toBooks.recall cached, kept.coherent⟩
    exact recalls.ledger.kept ⟨rfl, rfl⟩
  · intro world call name value named cached
    exact Library.importModule_of_cached named cached
  · intro world call name error after named refused other
    exact Library.released_of_refused lawful named refused other
  · intro machine member ref load waits running
    obtain ⟨held, books⟩ := kept.act member
    exact Machine.resume_imports lawful hands books waits running
  · intro machine member first ref load waits behind request goesOn
    obtain ⟨held, books⟩ := kept.act member
    exact Machine.serve_fate lawful hands (kept.coherent machine member)
      books waits behind request goesOn
  · intro machine member first ref load waits behind
    obtain ⟨held, books⟩ := kept.act member
    exact ⟨Machine.stop_released (kept.coherent machine member) books waits behind,
      Machine.release_released books waits behind⟩

end Fleet

/-- A statement that imports a module. -/
def Stmt.importing (name : String) : Stmt :=
  .expr 0 (.call default 0 (.name ⟨"import", default, 0⟩) [.text name default 0])

/-- A host whose natives answer later. Its module `outer` imports another one, and all others are
empty. -/
def Host.nesting : Host Unit :=
  { Host.slow with
    load? := some fun name world =>
      (.ok (some (if name = "outer" then [.importing "inner"] else [])), world) }

theorem World.Custody.refl {σ : Type} {mine : σ → DeferredRef → Prop} (world : World σ) :
    Custody mine world world where
  modules := rfl
  loading := rfl
  size := Nat.le_refl _
  owns _ owns := Or.inl owns
  others _ _ _ := rfl
  starts _ idle := idle

/-- A host whose natives answer later and whose modules are always there. -/
def Host.offering (modules : String → List Stmt) : Host Unit :=
  { Host.slow with load? := some fun name world => (.ok (some (modules name)), world) }

theorem Host.offering_custody (modules : String → List Stmt) :
    (Host.offering modules).Keeps (World.Custody fun _ _ => False) where
  call _ _ world :=
    { modules := rfl
      loading := rfl
      size := Nat.le_trans (Nat.le_succ _) (Nat.le_of_eq (Array.size_push _).symm)
      owns := fun _ => False.elim
      others := fun _ known _ => World.deferred_addDeferred_of_lt none known
      starts := fun ref idle => (World.load?_addDeferred rfl ref).trans idle }
  poll _ world := .refl world
  intercept _ _ _ world := .refl world
  load := by
    rintro load ⟨⟩ name world
    exact .refl world

theorem Host.nesting_custody : Host.nesting.Keeps (World.Custody fun _ _ => False) :=
  offering_custody _

theorem Host.offering_handsOwn (modules : String → List Stmt) :
    (Host.offering modules).HandsOwn fun _ _ => False := by
  rintro id call world ref yields after ⟨⟩
  refine Or.inr ⟨Nat.le_refl _, ?_⟩
  simp only [World.nextDeferred, World.addDeferred, Array.size_push, Nat.lt_succ_self]

theorem Host.nesting_handsOwn : Host.nesting.HandsOwn fun _ _ => False :=
  offering_handsOwn _

/-- A world with nothing but the function that imports modules. -/
def World.withImporter : World Unit :=
  (World.initial {} ()).modifyHeap fun heap =>
    { heap with
      functions := #[{ name := none, params := [⟨"libname", .null⟩], body := .importer }]
    }.setLocal ⟨0⟩ "import" (.function ⟨⟨0⟩, none⟩)

theorem World.withImporter_unread : World.withImporter.Unread fun _ _ => False where
  modules := rfl
  loading := rfl
  idle _ := rfl
  owned _ := False.elim

/-- Code that imports a module. -/
def Code.importing (name : String) : Code where
  instrs := #[{ op := .pushFunction, first := .func ⟨0⟩ },
    { op := .pushValue, first := .value (.text name) }, Compiler.withCount .callValue 1]

/-- A machine imports a module. -/
def Turn.importsOuter : Turn Unit :=
  (Machine.start (.importing "outer") ⟨0⟩).serve .nesting .withImporter (.cycles 3)

/-- The body of this module imports another one. -/
def Turn.importsInner : Turn Unit :=
  Turn.importsOuter.machine.serve .nesting Turn.importsOuter.world .resume

/-- Both modules are loading, and neither is when the machine is stopped. -/
theorem Fleet.nested_imports_are_accounted_for :
    let turn := Turn.importsInner
    turn.world.loading = ["inner", "outer"] ∧
      (turn.machine.serve .nesting turn.world .stop).world.loading = [] ∧
      Accounted .nesting (fun _ _ => False) ⟨[turn.machine], turn.world⟩ := by
  refine ⟨by decide +kernel, by decide +kernel, ?_⟩
  have started : Run .nesting (World.Outside fun _ _ => False) { world := .withImporter } _ :=
    .single (.spawn [] .withImporter (.importing "outer") ⟨0⟩)
  exact imports_are_accounted_for Host.nesting_custody Host.nesting_handsOwn
    World.withImporter_unread
    ((started.tail (.serve [] _ [] _ (.cycles 3))).tail (.serve [] _ [] _ .resume))

end MiniScript
