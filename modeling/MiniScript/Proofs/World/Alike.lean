import MiniScript.Proofs.Machine.Frames

/-!
# Worlds that programs cannot tell apart

Two worlds are alike if they differ at most in the time, in the length of a burst
and in what a host keeps from its natives. Natives that answer at once and look at
nothing of this give the same answers in worlds that are alike, and leave worlds
behind that are alike. So does every instruction, unless it calls a function that
reads the clock or imports a module.
-/

namespace MiniScript

variable {σ ν α : Type}

namespace World

/-- The world at another time, with bursts of another length and another state of the host. -/
def elsewhere (world : World σ) (clock burstCycles : Nat) (host : σ) : World σ :=
  { world with clock, host, limits := { world.limits with burstCycles } }

/-- The worlds differ only in the time, in the length of a burst and in what the host does not show
to its natives, who see the `view` of its state. -/
def Alike (view : σ → ν) (world other : World σ) : Prop :=
  ∃ clock burstCycles host, view host = view world.host ∧
    other = world.elsewhere clock burstCycles host

namespace Alike

variable {view : σ → ν} {world other third : World σ}

theorem refl (world : World σ) : Alike view world world :=
  ⟨world.clock, world.limits.burstCycles, world.host, rfl, rfl⟩

theorem symm (alike : Alike view world other) : Alike view other world := by
  obtain ⟨clock, burstCycles, host, same, rfl⟩ := alike
  exact ⟨world.clock, world.limits.burstCycles, world.host, same.symm, rfl⟩

theorem trans (first : Alike view world other) (second : Alike view other third) :
    Alike view world third := by
  obtain ⟨_, _, _, same, rfl⟩ := first
  obtain ⟨clock, burstCycles, host, again, rfl⟩ := second
  exact ⟨clock, burstCycles, host, again.trans same, rfl⟩

theorem heap (alike : Alike view world other) : other.heap = world.heap := by
  obtain ⟨_, _, _, _, rfl⟩ := alike
  rfl

theorem globals (alike : Alike view world other) : other.globals = world.globals := by
  obtain ⟨_, _, _, _, rfl⟩ := alike
  rfl

theorem pass (alike : Alike view world other) (first second : Nat) :
    Alike view (world.pass first) (other.pass second) := by
  obtain ⟨clock, burstCycles, host, same, rfl⟩ := alike
  exact ⟨clock + second, burstCycles, host, same, rfl⟩

theorem modifyHeap (alike : Alike view world other) (change : Heap → Heap) :
    Alike view (world.modifyHeap change) (other.modifyHeap change) := by
  obtain ⟨clock, burstCycles, host, same, rfl⟩ := alike
  exact ⟨clock, burstCycles, host, same, rfl⟩

end Alike

/-- The same result, and worlds that are alike. -/
structure AlikeOutcome (view : σ → ν) (outcome other : α × World σ) : Prop where
  result : other.1 = outcome.1
  world : Alike view outcome.2 other.2

/-- The limits are what they were. -/
def SameLimits (before after : World σ) : Prop :=
  after.limits = before.limits

/-- Nothing but the host can change a limit. -/
theorem Becomes.sameLimits {host : Host σ} {before after : World σ}
    (keeps : host.Keeps SameLimits) (becomes : Becomes host before after) :
    SameLimits before after := by
  induction becomes with
  | trans first second ihFirst ihSecond => exact ihSecond.trans ihFirst
  | call id call world => exact keeps.call id call world
  | poll id world => exact keeps.poll id world
  | intercept id key value world => exact keeps.intercept id key value world
  | load loads name world => exact keeps.load _ loads name world
  | _ => rfl

end World

open World

/-- The natives and interceptors of the host answer at once, and neither their answers nor what they
do to the world depends on more than the view that they have of it. What the host is told while a
program runs changes nothing that a program can see. -/
structure Host.Prompt (host : Host σ) (view : σ → ν) : Prop where
  call : ∀ {world other : World σ} (id : Nat) (call : Invocation), Alike view world other →
    AlikeOutcome view (host.call id call world) (host.call id call other)
  intercept : ∀ {world other : World σ} (id : Nat) (key value : Value), Alike view world other →
    AlikeOutcome view (host.intercept id key value world) (host.intercept id key value other)
  ready : ∀ {world after : World σ} {id : Nat} {call : Invocation} {reply : Reply},
    host.call id call world = (.ok reply, after) → ∃ value, reply.answer = .ready value
  notify : ∀ (notice : Notice) (world : World σ), Alike view world (host.notify notice world)
  limits : host.Keeps SameLimits
  noticed : ∀ (notice : Notice) (world : World σ), SameLimits world (host.notify notice world)

/-- The body of the function that a value is, if it is one. -/
def Value.body? (heap : Heap) : Value → Option Body
  | .function closure => some (heap.definition closure.definition).body
  | _ => none

/-- The function answers at once and does not read the clock; host natives are left to their
host. -/
def Body.IsPrompt : Body → Prop
  | .importer => False
  | .builtin .time => False
  | .builtin .wait => False
  | _ => True

/-- The action calls no function that reads the clock or imports a module. -/
def Action.IsPrompt (heap : Heap) : Action → Prop
  | .call _ callee _ _ _ => ∀ body, callee.body? heap = some body → body.IsPrompt
  | _ => True

section

variable {host : Host σ} {view : σ → ν} {world other : World σ}

namespace Library

theorem effect_alike (alike : Alike view world other) {builtin : Builtin}
    (isPrompt : (Body.builtin builtin).IsPrompt) (call : Invocation) :
    effect other builtin call = effect world builtin call := by
  obtain ⟨_, _, _, _, rfl⟩ := alike
  cases builtin with
  | time => exact isPrompt.elim
  | wait => exact isPrompt.elim
  | _ => rfl

/-- If the call is accepted, its answer is not withheld. -/
def AnswersNow (outcome : Except Fault Effect) : Prop :=
  ∀ effect, outcome = .ok effect → effect.deadline = none

theorem answersNow_ok {effect : Effect} (now : effect.deadline = none) :
    AnswersNow (.ok effect) := by
  rintro _ ⟨⟩
  exact now

theorem answersNow_error (fault : Fault) : AnswersNow (.error fault) := by
  intro effect impossible
  cases impossible

theorem answersNow_bind {first : Except Fault α} {next : α → Except Fault Effect}
    (rest : ∀ value, AnswersNow (next value)) : AnswersNow (first >>= next) := by
  cases first with
  | error fault => exact answersNow_error fault
  | ok value => exact rest value

/-- Only `wait` withholds its answer. -/
theorem answersNow_effect (world : World σ) {builtin : Builtin} (apart : builtin ≠ .wait)
    (call : Invocation) : AnswersNow (effect world builtin call) := by
  cases builtin with
  | range =>
      refine answersNow_bind fun first => answersNow_bind fun last => answersNow_bind fun step => ?_
      split
      · exact answersNow_error _
      · dsimp only
        split <;> split <;> first | exact answersNow_error _ | exact answersNow_ok rfl
  | push | pop | remove | indexOf | hasIndex | indexes | values | join | split =>
      simp only [effect, push, pop, remove, indexOf, hasIndex, indexes, values, join, split]
      split <;> first
        | exact answersNow_error _
        | exact answersNow_ok rfl
        | split <;> first | exact answersNow_error _ | exact answersNow_ok rfl
  | abs | floor => exact answersNow_bind fun _ => answersNow_ok rfl
  | wait => exact absurd rfl apart
  | _ => exact answersNow_ok rfl

theorem apply_ready {effect : Effect} (now : effect.deadline = none) (world : World σ) :
    ∃ value, (apply effect world).1.answer = .ready value := by
  unfold apply
  rw [now]
  exact ⟨_, rfl⟩

theorem apply_alike (alike : Alike view world other) (effect : Effect) :
    AlikeOutcome view (apply effect world) (apply effect other) := by
  obtain ⟨clock, burstCycles, host, same, rfl⟩ := alike
  obtain ⟨change, line, answer, deadline, yields⟩ := effect
  cases line with
  | none =>
      cases deadline with
      | none => exact ⟨rfl, clock, burstCycles, host, same, rfl⟩
      | some deadline => exact ⟨rfl, clock, burstCycles, host, same, rfl⟩
  | some line =>
      cases deadline with
      | none => exact ⟨rfl, clock, burstCycles, host, same, rfl⟩
      | some deadline => exact ⟨rfl, clock, burstCycles, host, same, rfl⟩

end Library

theorem World.store_alike (prompt : host.Prompt view) (alike : Alike view world other)
    (map : MapRef) (key value : Value) :
    AlikeOutcome view (world.store host map key value) (other.store host map key value) := by
  unfold World.store
  rw [alike.heap]
  cases world.heap.interceptor? map key with
  | none => exact ⟨rfl, alike.modifyHeap _⟩
  | some id =>
      have heard := prompt.intercept id key value alike
      dsimp only
      generalize host.intercept id key value world = first at heard
      generalize host.intercept id key value other = second at heard
      obtain ⟨_, after⟩ := first
      obtain ⟨result, later⟩ := second
      obtain ⟨rfl, alike⟩ := heard
      cases result with
      | ok _ => exact ⟨rfl, alike.modifyHeap _⟩
      | error error => exact ⟨rfl, alike⟩

namespace Machine

theorem plan_alike (alike : Alike view world other) (machine : Machine) (position : Nat)
    (instr : Instr) : plan other machine position instr = plan world machine position instr := by
  obtain ⟨_, _, _, _, rfl⟩ := alike
  rfl

theorem receive_alike (alike : Alike view world other) (machine : Machine) (reply : Reply) :
    AlikeOutcome view (machine.receive reply world) (machine.receive reply other) := by
  obtain ⟨answer, yields⟩ := reply
  cases answer with
  | ready value => exact ⟨rfl, alike⟩
  | pending ref =>
      obtain ⟨clock, burstCycles, host, same, rfl⟩ := alike
      exact ⟨rfl, clock, burstCycles, host, same, rfl⟩

theorem receiveOutcome_alike (machine : Machine)
    {outcome again : Except RuntimeError Reply × World σ}
    (alike : AlikeOutcome view outcome again) :
    AlikeOutcome view (machine.receiveOutcome outcome) (machine.receiveOutcome again) := by
  obtain ⟨_, after⟩ := outcome
  obtain ⟨result, later⟩ := again
  obtain ⟨rfl, alike⟩ := alike
  cases result with
  | ok reply => exact receive_alike alike machine reply
  | error error => exact ⟨rfl, alike⟩

theorem enter_alike (alike : Alike view world other) (machine : Machine) (code : Code)
    (outer : Option ScopeRef) (vars : List (String × Value)) :
    AlikeOutcome view (machine.enter code outer vars world)
      (machine.enter code outer vars other) := by
  obtain ⟨clock, burstCycles, host, same, rfl⟩ := alike
  by_cases full : world.limits.maxCallDepth ≤ machine.depth
  · simp only [enter, World.elsewhere, full, if_true]
    exact ⟨rfl, clock, burstCycles, host, same, rfl⟩
  · simp only [enter, World.elsewhere, full, if_false]
    exact ⟨rfl, clock, burstCycles, host, same, rfl⟩

/-- A call of a function that answers at once. -/
theorem invoke_alike (prompt : host.Prompt view) (alike : Alike view world other)
    (machine : Machine) {definition : Definition} (isPrompt : definition.body.IsPrompt)
    (outer : Option ScopeRef) (bound : List Value) (receiver : Option Value)
    (owner : Option MapRef) :
    AlikeOutcome view (machine.invoke host definition outer bound receiver owner world)
      (machine.invoke host definition outer bound receiver owner other) := by
  obtain ⟨name, params, body⟩ := definition
  cases body with
  | script code =>
      unfold invoke
      dsimp only
      rw [alike.heap]
      exact enter_alike alike machine code outer _
  | builtin builtin =>
      unfold invoke
      dsimp only
      rw [Library.effect_alike alike isPrompt]
      split
      · rename_i effect _
        have applied := Library.apply_alike alike effect
        rw [applied.result]
        exact receive_alike applied.world machine _
      · exact ⟨rfl, alike⟩
  | importer => exact isPrompt.elim
  | host id => exact receiveOutcome_alike machine (prompt.call id _ alike)

theorem call_alike (prompt : host.Prompt view) (alike : Alike view world other)
    (machine : Machine) {callee : Value}
    (isPrompt : ∀ body, callee.body? world.heap = some body → body.IsPrompt)
    (args : List Value) (receiver : Option Value) (owner : Option MapRef) :
    AlikeOutcome view (machine.call host callee args receiver owner world)
      (machine.call host callee args receiver owner other) := by
  cases callee with
  | function closure =>
      unfold call
      dsimp only
      rw [alike.heap]
      split
      · exact invoke_alike prompt alike machine (isPrompt _ rfl) _ _ _ _
      · exact ⟨rfl, alike⟩
  | _ =>
      unfold call
      dsimp only
      split
      · exact ⟨rfl, alike⟩
      · exact ⟨rfl, alike⟩

theorem perform_alike (prompt : host.Prompt view) (alike : Alike view world other)
    {action : Action} (isPrompt : action.IsPrompt world.heap) :
    AlikeOutcome view (perform host action world) (perform host action other) := by
  cases action with
  | proceed next => exact ⟨rfl, alike⟩
  | produce next draft =>
      unfold perform
      rw [alike.heap]
      exact ⟨rfl, alike.modifyHeap _⟩
  | store next map key draft =>
      have stored := World.store_alike prompt (alike.modifyHeap draft.addTo) map key
        (draft.valueIn world.heap)
      unfold perform
      dsimp only
      rw [alike.heap]
      generalize (world.modifyHeap draft.addTo).store host map key _ = first at stored
      generalize (other.modifyHeap draft.addTo).store host map key _ = second at stored
      obtain ⟨_, after⟩ := first
      obtain ⟨result, later⟩ := second
      obtain ⟨rfl, alike⟩ := stored
      cases result with
      | ok _ => exact ⟨rfl, alike⟩
      | error error => exact ⟨rfl, alike⟩
  | replaceItem next list index value => exact ⟨rfl, alike.modifyHeap _⟩
  | call next callee args receiver owner =>
      exact call_alike prompt alike next isPrompt args receiver owner

/-- The instruction at `position` calls no function that reads the clock or imports a module. -/
def PromptAt (machine : Machine) (position : Nat) (instr : Instr) (world : World σ) : Prop :=
  ∀ action, plan world machine position instr = .ok action → action.IsPrompt world.heap

theorem execute_alike (prompt : host.Prompt view) (alike : Alike view world other)
    {machine : Machine} {position : Nat} {instr : Instr}
    (isPrompt : machine.PromptAt position instr world) :
    AlikeOutcome view (machine.execute host position instr world)
      (machine.execute host position instr other) := by
  rw [execute_eq, execute_eq, plan_alike alike]
  split
  · rename_i action planned
    exact perform_alike prompt alike (isPrompt action planned)
  · exact ⟨rfl, alike⟩

/-- A machine that gets an answer at once does not begin to wait. -/
theorem receive_status (machine : Machine) {reply : Reply} {value : Value}
    (ready : reply.answer = .ready value) (world : World σ) :
    Ensures (fun next => next.status = machine.status) (machine.receive reply world).1 := by
  unfold receive
  rw [ready]
  exact .ok rfl

theorem invoke_status (prompt : host.Prompt view) (machine : Machine) {definition : Definition}
    (isPrompt : definition.body.IsPrompt) (outer : Option ScopeRef) (bound : List Value)
    (receiver : Option Value) (owner : Option MapRef) (world : World σ) :
    Ensures (fun next => next.status = machine.status)
      (machine.invoke host definition outer bound receiver owner world).1 := by
  obtain ⟨name, params, body⟩ := definition
  cases body with
  | script code =>
      unfold invoke enter
      dsimp only
      split
      · exact .error _
      · exact .ok rfl
  | builtin builtin =>
      have apart : builtin ≠ .wait := by
        rintro rfl
        exact isPrompt
      unfold invoke
      dsimp only
      split
      · rename_i effect accepted
        have now := Library.answersNow_effect world apart _ effect accepted
        obtain ⟨value, ready⟩ := Library.apply_ready now world
        exact receive_status machine ready _
      · exact .error _
  | importer => exact isPrompt.elim
  | host id =>
      unfold invoke receiveOutcome
      dsimp only
      split
      · rename_i reply after answered
        obtain ⟨value, ready⟩ := prompt.ready answered
        exact receive_status machine ready after
      · exact .error _

theorem execute_status (prompt : host.Prompt view) {machine : Machine} {position : Nat}
    {instr : Instr} (isPrompt : machine.PromptAt position instr world) :
    Ensures (fun next => next.status = machine.status)
      (machine.execute host position instr world).1 := by
  rw [execute_eq]
  split
  · rename_i action planned
    have continues := plan_continues world machine position instr action planned
    have asked := isPrompt action planned
    cases action with
    | proceed next => exact .ok continues.kept.status
    | produce next draft => exact .ok continues.kept.status
    | replaceItem next list index value => exact .ok continues.kept.status
    | store next map key draft =>
        unfold perform
        dsimp only
        split
        · exact .ok continues.kept.status
        · exact .error _
    | call next callee args receiver owner =>
        have same : next.status = machine.status := continues.kept.status
        rw [← same]
        cases callee with
        | function closure =>
            unfold perform call
            dsimp only
            split
            · exact invoke_status prompt next (asked _ rfl) _ _ _ _ world
            · exact .error _
        | _ =>
            unfold perform call
            dsimp only
            split
            · exact .ok rfl
            · exact .error _
  · exact .error _

end Machine

end

end MiniScript
