import MiniScript.Proofs.World.Change

/-!
# What an instruction comes to

An outcome is safe if it satisfies what is asked of it or is a runtime error: no
defect of the code has come to light. A call makes an answer an operand, or the
machine waits, or it enters the code of a function in the heap; every other action
lets the machine go on as the instruction has planned it.
-/

namespace MiniScript

/-- A value of which something holds, or a runtime error. -/
inductive Safe {α : Type} (holds : α → Prop) : Except ScriptError α → Prop where
  | ok {value : α} (known : holds value) : Safe holds (.ok value)
  | fault (error : RuntimeError) : Safe holds (.error (.runtime error))

namespace Safe

variable {α β : Type} {holds other : α → Prop}

theorem mono {outcome : Except ScriptError α} (safe : Safe holds outcome)
    (weaker : ∀ value, holds value → other value) : Safe other outcome := by
  cases safe with
  | ok known => exact .ok (weaker _ known)
  | fault error => exact .fault error

theorem bind {first : Except ScriptError α} {next : α → Except ScriptError β} {goal : β → Prop}
    (safe : Safe holds first) (rest : ∀ value, holds value → Safe goal (next value)) :
    Safe goal (first >>= next) := by
  cases safe with
  | ok known => exact rest _ known
  | fault error => exact .fault error

/-- What a fault leads to is safe. -/
theorem orFault {first : Except Fault α} {next : α → Except ScriptError β} {goal : β → Prop}
    (rest : ∀ value, Safe goal (next value)) : Safe goal (Machine.orFault first >>= next) := by
  cases first with
  | ok value => exact rest value
  | error fault => exact .fault _

end Safe

/-- The machine that an action goes on with. -/
def Action.next : Action → Machine
  | .proceed next => next
  | .produce next _ => next
  | .store next _ _ _ => next
  | .replaceItem next _ _ _ => next
  | .call next _ _ _ _ => next

/-- How many operands an action will still add. -/
def Action.owed : Action → Nat
  | .proceed _ => 0
  | .produce _ _ => 1
  | .store _ _ _ _ => 0
  | .replaceItem _ _ _ _ => 0
  | .call _ _ _ _ _ => 1

namespace Machine

variable {σ : Type} {host : Host σ}

/-- What a call makes of a machine. -/
inductive Called (world : World σ) (machine : Machine) : Machine → Prop where
  | answered (value : Value) (yields native : Bool) :
      Called world machine
        { machine with
          stack := value :: machine.stack, yieldRequested := yields, lastCallNative := native }
  | waits (wait : Wait) (yields : Bool) :
      Called world machine
        { machine with
          status := .suspended, wait? := some wait, yieldRequested := yields
          lastCallNative := true }
  | entered (ref : FunctionRef) (code : Code) (scope : ScopeRef)
      (known : (world.heap.definition ref).body = .script code)
      (room : machine.depth < world.limits.maxCallDepth) :
      Called world machine
        { machine with frame := { code, scope }, callers := machine.frame :: machine.callers }

theorem receive_called (world : World σ) (machine : Machine) (reply : Reply) (after : World σ) :
    Safe (Called world machine) (machine.receive reply after).1 := by
  obtain ⟨answer, yields⟩ := reply
  cases answer with
  | ready value => exact .ok (.answered value yields true)
  | pending ref => exact .ok (.waits ⟨ref, after.suspensions⟩ yields)

theorem receive_error (machine : Machine) (reply : Reply) (world : World σ) (failure : ScriptError)
    (after : World σ) : machine.receive reply world ≠ (.error failure, after) := by
  unfold receive
  split
  · intro impossible
    cases impossible
  · intro impossible
    cases impossible

theorem receiveOutcome_called (world : World σ) (machine : Machine)
    (outcome : Except RuntimeError Reply × World σ) :
    Safe (Called world machine) (machine.receiveOutcome outcome).1 := by
  obtain ⟨error | reply, after⟩ := outcome
  · exact .fault error
  · exact receive_called world machine reply after

theorem call_called (machine : Machine) (callee : Value) (args : List Value)
    (receiver : Option Value) (owner : Option MapRef) (world : World σ) :
    Safe (Called world machine) (machine.call host callee args receiver owner world).1 := by
  unfold call
  split
  · rename_i closure
    dsimp only
    split
    · unfold invoke
      dsimp only
      split
      · rename_i code known
        unfold enter
        split
        · exact .fault _
        · rename_i room
          exact .ok (.entered closure.definition code _ known (Nat.lt_of_not_le room))
      · split
        · exact receive_called world machine _ _
        · exact .fault _
      · exact receiveOutcome_called world machine _
      · exact receiveOutcome_called world machine _
    · exact .fault _
  · split
    · exact .ok (.answered _ _ _)
    · exact .fault _

/-- What an action makes of a machine: a call comes to what calls come to, and other actions add the
operands that they owe. -/
inductive Performed (world : World σ) (action : Action) : Machine → Prop where
  | done (results : List Value) (owed : results.length = action.owed) :
      Performed world action { action.next with stack := results ++ action.next.stack }
  | called {machine : Machine} (owed : action.owed = 1)
      (called : Called world action.next machine) : Performed world action machine

theorem perform_performed (action : Action) (world : World σ) :
    Safe (Performed world action) (perform host action world).1 := by
  cases action with
  | proceed next => exact .ok (.done [] rfl)
  | produce next draft => exact .ok (.done [draft.valueIn world.heap] rfl)
  | store next map key draft =>
      unfold perform
      dsimp only
      split
      · exact .ok (.done [] rfl)
      · exact .fault _
  | replaceItem next list index value => exact .ok (.done [] rfl)
  | call next callee args receiver owner =>
      refine (call_called next callee args receiver owner world).mono fun machine called => ?_
      exact .called rfl called

end Machine

end MiniScript
