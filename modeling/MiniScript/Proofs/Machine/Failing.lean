import MiniScript.Proofs.Machine.Interceptors

/-!
# Instructions that fail

An instruction takes its operands and looks at the world before it changes anything,
and so does a built-in function. What can fail after a change is outside: an interceptor
that hears of a write, a native of the host, and the import of a module. Where none of
these is involved, an instruction that fails leaves the world as it was, with every list,
map and scope, the tables of methods and of modules, and what has been printed.
-/

namespace MiniScript

variable {σ : Type}

/-- Whether a function is neither a script nor part of the library. -/
def Body.isOutside : Body → Bool
  | .script _ => false
  | .builtin _ => false
  | .importer => true
  | .host _ => true

/-- What an action may involve besides the machine and the library. -/
inductive Action.CallsOut (heap : Heap) (action : Action) : Prop where
  | announces {id : Nat} (asks : Machine.Asks action heap id) : CallsOut heap action
  | calls {next : Machine} {call : Invocation} (native : action.native? heap = some (next, call))
      (outside : call.definition.body.isOutside = true) : CallsOut heap action

namespace Machine

variable {host : Host σ} {world after : World σ} {machine : Machine} {error : ScriptError}

theorem enter_error {code : Code} {outer : Option ScopeRef} {vars : List (String × Value)}
    (failed : machine.enter code outer vars world = (.error error, after)) : after = world := by
  unfold enter at failed
  split at failed
  · exact (congrArg Prod.snd failed).symm
  · cases failed

/-- A function that is not outside fails before it has done anything. -/
theorem invoke_error {definition : Definition} (inside : definition.body.isOutside = false)
    {outer : Option ScopeRef} {bound : List Value} {receiver : Option Value}
    {owner : Option MapRef}
    (failed : machine.invoke host definition outer bound receiver owner world =
      (.error error, after)) : after = world := by
  unfold invoke at failed
  dsimp only at failed
  split at failed
  · exact enter_error failed
  · split at failed
    · exact absurd failed (receive_error _ _ _ _ _)
    · exact (congrArg Prod.snd failed).symm
  · rename_i importer
    rw [importer] at inside
    cases inside
  · rename_i native
    rw [native] at inside
    cases inside

theorem invoke_inside {definition : Definition} (inside : definition.body.isOutside = false)
    (other : Host σ) (outer : Option ScopeRef) (bound : List Value) (receiver : Option Value)
    (owner : Option MapRef) :
    machine.invoke other definition outer bound receiver owner world =
      machine.invoke host definition outer bound receiver owner world := by
  unfold invoke
  dsimp only
  split
  · rfl
  · rfl
  · rename_i importer
    rw [importer] at inside
    cases inside
  · rename_i native
    rw [native] at inside
    cases inside

/-- The function that an action calls without going outside. -/
theorem inside_of_binds {callee : Closure} {args bound : List Value} {receiver : Option Value}
    {owner : Option MapRef}
    (quiet : ¬ (Action.call machine (.function callee) args receiver owner).CallsOut world.heap)
    (binds : bindArguments (world.heap.definition callee.definition) args receiver = .ok bound) :
    (world.heap.definition callee.definition).body.isOutside = false := by
  cases outside : (world.heap.definition callee.definition).body.isOutside with
  | false => rfl
  | true =>
      have foreign (code : Code) :
          (world.heap.definition callee.definition).body ≠ .script code := by
        intro script
        rw [script] at outside
        cases outside
      exact absurd (.calls (native?_of_binds foreign binds) outside) quiet

/-- The map that an action stores into without going outside. -/
theorem unannounced {next : Machine} {map : MapRef} {key : Value} {draft : Draft}
    (quiet : ¬ (Action.store next map key draft).CallsOut world.heap) :
    (world.modifyHeap draft.addTo).heap.interceptor? map key = none := by
  cases found : (world.modifyHeap draft.addTo).heap.interceptor? map key with
  | none => rfl
  | some id => exact absurd (.announces ⟨next, map, key, draft, rfl, found⟩) quiet

theorem perform_error {action : Action} (quiet : ¬ action.CallsOut world.heap)
    (failed : perform host action world = (.error error, after)) : after = world := by
  cases action with
  | proceed next => cases failed
  | produce next draft => cases failed
  | replaceItem next list index value => cases failed
  | store next map key draft =>
      simp only [perform, World.store_of_no_interceptor host (unannounced quiet)] at failed
      cases failed
  | call next callee args receiver owner =>
      unfold perform call at failed
      dsimp only at failed
      split at failed
      · split at failed
        · rename_i bound binds
          exact invoke_error (inside_of_binds quiet binds) failed
        · exact (congrArg Prod.snd failed).symm
      · split at failed
        · cases failed
        · exact (congrArg Prod.snd failed).symm

/-- The host makes no difference to what does not go outside. -/
theorem perform_inside {action : Action} (quiet : ¬ action.CallsOut world.heap)
    (other : Host σ) : perform other action world = perform host action world := by
  cases action with
  | proceed next => rfl
  | produce next draft => rfl
  | replaceItem next list index value => rfl
  | store next map key draft =>
      simp only [perform, World.store_of_no_interceptor _ (unannounced quiet)]
  | call next callee args receiver owner =>
      unfold perform call
      dsimp only
      split
      · split
        · rename_i bound binds
          exact invoke_inside (inside_of_binds quiet binds) other _ _ _ _
        · rfl
      · rfl

/-- An instruction that fails has not changed the world, unless a write was announced or a native
of the host or the importer was called; then too the host was not consulted. -/
theorem failing_instruction_changes_nothing {position : Nat} {instr : Instr}
    (quiet : ∀ action, plan world machine position instr = .ok action →
      ¬ action.CallsOut world.heap)
    (failed : machine.execute host position instr world = (.error error, after)) :
    after = world ∧
      ∀ other : Host σ, machine.execute other position instr world = (.error error, world) := by
  rw [execute_eq] at failed
  simp only [execute_eq]
  split at failed
  · rename_i action planned
    have same := perform_error (quiet action planned) failed
    refine ⟨same, fun other => ?_⟩
    rw [perform_inside (quiet action planned) other, failed, same]
  · cases failed
    exact ⟨rfl, fun _ => rfl⟩

/-- `push` onto a number fails; the host would refuse every write, but it does not hear of this
one. -/
theorem push_onto_number_changes_nothing :
    let pushing := Machine.holding [.null, .number 1.0, .function ⟨⟨0⟩, none⟩]
    let instr : Instr := { op := .callValue, first := .int 2 }
    let error : ScriptError := .runtime { fault := .wrongReceiver "function" .number }
    (∀ action, plan World.watched pushing 0 instr = .ok action →
      ¬ action.CallsOut World.watched.heap) ∧
      pushing.execute .refusing 0 instr .watched = (.error error, .watched) ∧
      ∀ other : Host Unit, pushing.execute other 0 instr .watched = (.error error, .watched) := by
  have quiet : ∀ action, plan World.watched
      (Machine.holding [.null, .number 1.0, .function ⟨⟨0⟩, none⟩]) 0
      { op := .callValue, first := .int 2 } = .ok action →
        ¬ action.CallsOut World.watched.heap := by
    intro action planned
    cases planned
    rintro (⟨next, map, key, draft, stores, -⟩ | ⟨native, outside⟩)
    · cases stores
    · cases native
      cases outside
  have failed : (Machine.holding [.null, .number 1.0, .function ⟨⟨0⟩, none⟩]).execute .refusing 0
      { op := .callValue, first := .int 2 } .watched =
        (.error (.runtime { fault := .wrongReceiver "function" .number }), .watched) := rfl
  exact ⟨quiet, failed, (failing_instruction_changes_nothing quiet failed).2⟩

end Machine

end MiniScript
