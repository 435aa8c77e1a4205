import MiniScript.Proofs.Machine.Natives

/-!
# What a program sees of the world

The scene of a world is what instructions can see of it: the heap, the limits, the
names that are known, and the view that the host gives of its state. The time, the
deferred results, the modules and the printed lines are no part of it. An
instruction that calls no native does the same in worlds with the same scene, and
leaves worlds with the same scene behind.
-/

namespace MiniScript

variable {σ ν α : Type}

/-- What instructions can see of a world. -/
structure Scene (ν : Type) where
  heap : Heap
  limits : Limits
  globals : ScopeRef
  core : CoreTables
  intrinsics : List (String × Value)
  host : ν

namespace World

/-- The scene of a world whose host shows the `view` of its state. -/
def scene (view : σ → ν) (world : World σ) : Scene ν where
  heap := world.heap
  limits := world.limits
  globals := world.globals
  core := world.core
  intrinsics := world.intrinsics
  host := view world.host

variable {view : σ → ν} {world other : World σ}

theorem scene_modifyHeap (same : world.scene view = other.scene view) (change : Heap → Heap) :
    (world.modifyHeap change).scene view = (other.modifyHeap change).scene view := by
  injection same with heap limits globals core intrinsics host
  simp only [scene, modifyHeap, heap, limits, globals, core, intrinsics, host]

theorem heap_of_scene (same : world.scene view = other.scene view) : world.heap = other.heap :=
  congrArg Scene.heap same

/-- The same result, and worlds with the same scene. -/
structure SameOutcome (view : σ → ν) (outcome other : α × World σ) : Prop where
  result : outcome.1 = other.1
  scene : outcome.2.scene view = other.2.scene view

end World

open World

/-- Two hosts whose interceptors answer alike and who make the same of what they are told, as far
as a program can see. -/
structure Host.Matches (first second : Host σ) (view : σ → ν) : Prop where
  intercept : ∀ {world other : World σ} (id : Nat) (key value : Value),
    world.scene view = other.scene view →
      SameOutcome view (first.intercept id key value world) (second.intercept id key value other)
  notify : ∀ {world other : World σ} (notice : Notice), world.scene view = other.scene view →
    (first.notify notice world).scene view = (second.notify notice other).scene view

section

variable {first second : Host σ} {view : σ → ν} {world other : World σ}

theorem World.store_sameOutcome (matching : first.Matches second view)
    (same : world.scene view = other.scene view) (map : MapRef) (key value : Value) :
    SameOutcome view (world.store first map key value) (other.store second map key value) := by
  unfold World.store
  rw [heap_of_scene same]
  cases other.heap.interceptor? map key with
  | none => exact ⟨rfl, scene_modifyHeap same _⟩
  | some id =>
      have heard := matching.intercept id key value same
      dsimp only
      generalize first.intercept id key value world = left at heard
      generalize second.intercept id key value other = right at heard
      obtain ⟨result, after⟩ := left
      obtain ⟨_, later⟩ := right
      obtain ⟨rfl, scene⟩ := heard
      cases result with
      | ok _ => exact ⟨rfl, scene_modifyHeap scene _⟩
      | error error => exact ⟨rfl, scene⟩

namespace Machine

theorem plan_of_scene (same : world.scene view = other.scene view) (machine : Machine)
    (position : Nat) (instr : Instr) :
    plan world machine position instr = plan other machine position instr := by
  obtain ⟨heap, limits, globals, core, intrinsics⟩ := world
  obtain ⟨_, _, _, _, _⟩ := other
  injection same with heap limits globals core intrinsics host
  subst heap limits globals core intrinsics
  rfl

theorem enter_sameOutcome (same : world.scene view = other.scene view) (machine : Machine)
    (code : Code) (outer : Option ScopeRef) (vars : List (String × Value)) :
    SameOutcome view (machine.enter code outer vars world)
      (machine.enter code outer vars other) := by
  have limits : world.limits = other.limits := congrArg Scene.limits same
  have globals : world.globals = other.globals := congrArg Scene.globals same
  unfold enter
  rw [limits, globals, heap_of_scene same]
  split
  · exact ⟨rfl, same⟩
  · exact ⟨rfl, scene_modifyHeap same _⟩

/-- A call of a value that is no native. -/
theorem call_sameOutcome (same : world.scene view = other.scene view) {next : Machine}
    {callee : Value} {args : List Value} {receiver : Option Value} {owner : Option MapRef}
    (plain : (Action.call next callee args receiver owner).native? world.heap = none) :
    SameOutcome view (next.call first callee args receiver owner world)
      (next.call second callee args receiver owner other) := by
  have heap := heap_of_scene same
  cases callee with
  | function closure =>
      unfold Machine.call
      dsimp only
      rw [← heap]
      cases bound : bindArguments (world.heap.definition closure.definition) args receiver with
      | error fault => exact ⟨rfl, same⟩
      | ok bound =>
          simp only [Action.native?, bound] at plain
          dsimp only
          unfold invoke
          cases body : (world.heap.definition closure.definition).body with
          | script code =>
              dsimp only
              rw [heap]
              exact enter_sameOutcome same next code closure.outer _
          | _ =>
              rw [body] at plain
              cases plain
  | _ =>
      unfold Machine.call
      dsimp only
      split
      · exact ⟨rfl, same⟩
      · exact ⟨rfl, same⟩

/-- An action that calls no native. -/
theorem perform_sameOutcome (matching : first.Matches second view)
    (same : world.scene view = other.scene view) {action : Action}
    (plain : action.native? world.heap = none) :
    SameOutcome view (perform first action world) (perform second action other) := by
  cases action with
  | proceed next => exact ⟨rfl, same⟩
  | produce next draft =>
      unfold perform
      rw [heap_of_scene same]
      exact ⟨rfl, scene_modifyHeap same _⟩
  | store next map key draft =>
      have stored := World.store_sameOutcome matching (scene_modifyHeap same draft.addTo) map key
        (draft.valueIn other.heap)
      unfold perform
      dsimp only
      rw [heap_of_scene same]
      generalize (world.modifyHeap draft.addTo).store first map key _ = left at stored
      generalize (other.modifyHeap draft.addTo).store second map key _ = right at stored
      obtain ⟨result, after⟩ := left
      obtain ⟨_, later⟩ := right
      obtain ⟨rfl, scene⟩ := stored
      cases result with
      | ok _ => exact ⟨rfl, scene⟩
      | error error => exact ⟨rfl, scene⟩
  | replaceItem next list index value => exact ⟨rfl, scene_modifyHeap same _⟩
  | call next callee args receiver owner => exact call_sameOutcome same plain

/-- An instruction that calls no native. -/
theorem execute_sameOutcome (matching : first.Matches second view)
    (same : world.scene view = other.scene view) {machine : Machine} {position : Nat}
    {instr : Instr}
    (plain : ∀ action, plan world machine position instr = .ok action →
      action.native? world.heap = none) :
    SameOutcome view (machine.execute first position instr world)
      (machine.execute second position instr other) := by
  rw [execute_eq, execute_eq, ← plan_of_scene same]
  split
  · rename_i action planned
    exact perform_sameOutcome matching same (plain action planned)
  · exact ⟨rfl, same⟩

variable {machine again : Machine}

/-- Machines at the same place are at the same next instruction. -/
theorem SamePlace.poised (place : machine.SamePlace again) (wait : machine.wait? = again.wait?) :
    SamePoint (machine.poised world) (again.poised other) := by
  have point : SamePoint { machine with status := .running } { again with status := .running } :=
    ⟨place.frame.symm, place.callers.symm, place.stack.symm, rfl, wait⟩
  exact point.settle.1

theorem SamePoint.begun (point : SamePoint machine again) : machine.begun = again.begun := by
  simp only [Machine.begun, point.frame, point.callers, point.stack, point.status, point.wait]

/-- Machines at the same place, in worlds with the same scene, call the same natives. -/
theorem native?_of_scene (place : machine.SamePlace again)
    (same : world.scene view = other.scene view) (active : machine.Active)
    (also : again.Active) :
    machine.native? world = again.native? other := by
  have point : SamePoint (machine.poised world) (again.poised other) :=
    place.poised (active.awake.trans also.awake.symm)
  have acts : (machine.poised world).action? world = (again.poised other).action? other := by
    simp only [action?, position, point.frame, point.begun, plan_of_scene same]
  rw [native?_of_awake active.status, native?_of_awake also.status, point.status, acts,
    heap_of_scene same]

/-- A step that calls no native, of machines at the same place, in worlds with the same scene. -/
theorem step_meets_of_plain (matching : first.Matches second view) (awake : machine.Awake)
    (also : again.Awake) (place : machine.SamePlace again)
    (same : world.scene view = other.scene view) (plain : machine.native? world = none)
    (poll look : Poller σ) :
    (machine.step first poll world).Meets (again.step second look other) ∧
      (machine.step first poll world).world.scene view =
        (again.step second look other).world.scene view := by
  cases isDone : machine.frame.isDone with
  | true =>
      have alsoDone : again.frame.isDone = true := place.frame ▸ isDone
      rw [awake.step_of_done isDone, also.step_of_done alsoDone]
      have point : SamePoint { machine with status := .finished }
          { again with status := .finished } :=
        ⟨place.frame.symm, place.callers.symm, place.stack.symm, rfl,
          awake.wait.trans also.wait.symm⟩
      exact ⟨⟨point, rfl⟩, same⟩
  | false =>
      have alsoOn : again.frame.isDone = false := place.frame ▸ isDone
      have free : machine.executing.wait? = none := rfl
      rw [awake.step_of_not_done isDone, also.step_of_not_done alsoOn, advance_eq, advance_eq]
      dsimp only
      rw [executing_of_free awake.wait, executing_of_free also.wait, place.executing, place.frame]
      simp only [abort_of_no_wait free]
      split
      · exact ⟨⟨.refl _, rfl⟩, same⟩
      · rename_i instr fetched
        have executed : SameOutcome view
            (machine.executing.execute first machine.frame.position instr (world.pass 1000))
            (machine.executing.execute second machine.frame.position instr (other.pass 1000)) := by
          have later : (world.pass 1000).scene view = (other.pass 1000).scene view := same
          exact execute_sameOutcome matching later fun action planned =>
            native?_of_plain awake isDone plain fetched planned
        have started : machine.executing.Coherent := .ofFree nofun free
        have reached (next : Machine) (after : World σ) (ended :
            machine.executing.execute first machine.frame.position instr (world.pass 1000) =
              (.ok next, after)) : next.Coherent := (execute_advances ended).coherent started
        generalize machine.executing.execute first machine.frame.position instr (world.pass 1000) =
          left at executed reached
        generalize machine.executing.execute second machine.frame.position instr
          (other.pass 1000) = right at executed
        obtain ⟨result, after⟩ := left
        obtain ⟨_, later⟩ := right
        obtain ⟨rfl, scene⟩ := executed
        cases result with
        | error error => exact ⟨⟨.refl _, rfl⟩, scene⟩
        | ok next =>
            dsimp only
            split
            · rename_i running
              have settled : next.wait? = none :=
                ((reached next after rfl).active (Or.inr running)).awake
              rw [settle_world settled, settle_world settled]
              exact ⟨(SamePoint.refl next).settle_meets _ _, scene⟩
            · exact ⟨⟨.refl _, rfl⟩, scene⟩

end Machine

end

end MiniScript
