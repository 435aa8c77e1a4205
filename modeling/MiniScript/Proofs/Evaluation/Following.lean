import MiniScript.Proofs.Evaluation.Basic
import MiniScript.Proofs.World.Change

/-!
# Code that follows an evaluation

A point is a place in the code of a program together with the operands and the
loops there. Code follows an evaluation from one point on if the machine gets, step
by step, to the point that belongs to the result, through the same changes of the
world, or fails with the same error. Only the clock is left out of this.
-/

namespace MiniScript

variable {σ α β : Type}

/-- The world at another time. -/
def World.setClock (world : World σ) (clock : Nat) : World σ :=
  { world with clock }

/-- Whether a write is refused, and what else an interceptor does, does not depend on the time. -/
def Host.IgnoresClock (host : Host σ) : Prop :=
  ∀ id key value world clock, ∃ later,
    host.intercept id key value (world.setClock clock) =
      ((host.intercept id key value world).1,
        (host.intercept id key value world).2.setClock later)

namespace Evaluation

/-- The evaluation has a result. -/
def Comes (evaluation : Evaluation σ α) (world : World σ) (result : Except RuntimeError α)
    (after : World σ) : Prop :=
  evaluation.run.run world = some (result, after)

/-- The evaluation can give that value. -/
def Gives (evaluation : Evaluation σ α) (value : α) : Prop :=
  ∃ world after, evaluation.Comes world (.ok value) after

theorem comes_pure {value : α} {world after : World σ} {result : Except RuntimeError α} :
    Comes (pure value) world result after ↔ result = .ok value ∧ after = world := by
  constructor
  · intro comes
    cases comes
    exact ⟨rfl, rfl⟩
  · rintro ⟨rfl, rfl⟩
    rfl

/-- What follows when a first part has come to an end: the rest, or nothing more after an error. -/
def goOn (next : α → Evaluation σ β) :
    Except RuntimeError α × World σ → Option (Except RuntimeError β × World σ)
  | (.ok value, middle) => (next value).run.run middle
  | (.error error, middle) => some (.error error, middle)

theorem comes_bind {first : Evaluation σ α} {next : α → Evaluation σ β} {world after : World σ}
    {result : Except RuntimeError β} :
    Comes (first >>= next) world result after ↔
      (∃ value middle, first.Comes world (.ok value) middle ∧
        (next value).Comes middle result after) ∨
      ∃ error, first.Comes world (.error error) after ∧ result = .error error := by
  have opened : (first >>= next).run.run world = (first.run.run world).bind (goOn next) := by
    rw [ExceptT.run_bind, StateT.run_bind]
    cases first.run.run world with
    | none => rfl
    | some pair =>
        obtain ⟨error | value, middle⟩ := pair
        · rfl
        · rfl
  unfold Comes
  rw [opened, Option.bind_eq_some_iff]
  constructor
  · rintro ⟨⟨error | value, middle⟩, ran, rest⟩
    · cases rest
      exact Or.inr ⟨error, ran, rfl⟩
    · exact Or.inl ⟨value, middle, ran, rest⟩
  · rintro (⟨value, middle, ran, rest⟩ | ⟨error, ran, rfl⟩)
    · exact ⟨(.ok value, middle), ran, rest⟩
    · exact ⟨(.error error, after), ran, rfl⟩

theorem comes_outside {world after : World σ} {result : Except RuntimeError α} :
    Comes outside world result after ↔ False :=
  ⟨nofun, False.elim⟩

theorem comes_consult {read : World σ → Except Fault α} {world after : World σ}
    {result : Except RuntimeError α} :
    Comes (consult read) world result after ↔
      result = (read world).mapError (fun fault => { fault }) ∧ after = world := by
  constructor
  · intro comes
    cases comes
    exact ⟨rfl, rfl⟩
  · rintro ⟨rfl, rfl⟩
    rfl

theorem gives_pure {value other : α} (gives : Gives (pure value : Evaluation σ α) other) :
    other = value := by
  obtain ⟨world, after, comes⟩ := gives
  obtain ⟨same, _⟩ := comes_pure.mp comes
  exact Except.ok.inj same

theorem gives_bind {first : Evaluation σ α} {next : α → Evaluation σ β} {result : β}
    (gives : Gives (first >>= next) result) :
    ∃ value, first.Gives value ∧ (next value).Gives result := by
  obtain ⟨world, after, comes⟩ := gives
  rcases comes_bind.mp comes with ⟨value, middle, ran, rest⟩ | ⟨error, _, impossible⟩
  · exact ⟨value, ⟨world, middle, ran⟩, middle, after, rest⟩
  · cases impossible

end Evaluation

/-- A place in code, with the operands and the loops there. -/
structure Point where
  position : Nat
  stack : List Value
  loops : List LoopState

/-- What a program runs with. -/
structure Setting (σ : Type) where
  host : Host σ
  code : Code
  scope : ScopeRef

namespace Setting

variable (setting : Setting σ)

/-- The machine at a point. -/
def machine (point : Point) : Machine where
  frame := { code := setting.code, position := point.position, scope := setting.scope,
             loops := point.loops }
  stack := point.stack
  status := .running

/-- What an instruction has to come to. -/
def landing (finish : α → Point) : Except RuntimeError α → Except ScriptError Machine
  | .ok value => .ok (setting.machine (finish value))
  | .error error => .error (.runtime error)

/-- The outcome of the instruction at a point. -/
def execute (point : Point) (instr : Instr) (world : World σ) : Machine.Outcome σ :=
  (setting.machine { point with position := point.position + 1 }).execute setting.host
    point.position instr world

/-- The machine gets, instruction by instruction, from one point to another or to an error. -/
inductive Leads : Point → World σ → Except RuntimeError Point → World σ → Prop where
  | here (point : Point) (world : World σ) : Leads point world (.ok point) world
  | step {start next : Point} {world middle after : World σ} {result : Except RuntimeError Point}
      {instr : Instr} (fetched : setting.code.instrs[start.position]? = some instr)
      (executed : setting.execute start instr (world.pass 1000) =
        (.ok (setting.machine next), middle))
      (rest : Leads next middle result after) : Leads start world result after
  | fails {start : Point} {world after : World σ} {error : RuntimeError} {instr : Instr}
      (fetched : setting.code.instrs[start.position]? = some instr)
      (executed : setting.execute start instr (world.pass 1000) =
        (.error (.runtime error), after)) : Leads start world (.error error) after

theorem Leads.trans {setting : Setting σ} {start middle : Point}
    {result : Except RuntimeError Point} {world between after : World σ}
    (first : setting.Leads start world (.ok middle) between)
    (second : setting.Leads middle between result after) :
    setting.Leads start world result after := by
  generalize same : (Except.ok middle : Except RuntimeError Point) = reached at first
  induction first with
  | here point world =>
      cases same
      exact second
  | step fetched executed rest ih => exact .step fetched executed (ih second same)
  | fails fetched executed => cases same

/-- The code at a point does what the evaluation does, and then is at the point that belongs to the
value. -/
def Follows (start : Point) (evaluation : Evaluation σ α) (finish : α → Point) : Prop :=
  ∀ world result after, evaluation.Comes world result after → ∀ clock, ∃ later,
    setting.Leads start (world.setClock clock) (result.map finish) (after.setClock later)

variable {setting} {start middle : Point} {evaluation : Evaluation σ α} {finish : α → Point}

theorem Follows.ofPure {value : α} (same : start = finish value) :
    setting.Follows start (pure value) finish := by
  intro world result after comes clock
  obtain ⟨rfl, rfl⟩ := Evaluation.comes_pure.mp comes
  subst same
  exact ⟨clock, .here _ _⟩

/-- Nothing follows what is outside of the plain language, because there is nothing to follow. -/
theorem Follows.outside : setting.Follows start .outside finish :=
  fun _ _ _ comes => (Evaluation.comes_outside.mp comes).elim

theorem Follows.bind {next : α → Evaluation σ β} {final : β → Point}
    (first : setting.Follows start evaluation finish)
    (rest : ∀ value, evaluation.Gives value → setting.Follows (finish value) (next value) final) :
    setting.Follows start (evaluation >>= next) final := by
  intro world result after comes clock
  rcases Evaluation.comes_bind.mp comes with ⟨value, between, ran, comes⟩ | ⟨error, ran, rfl⟩
  · obtain ⟨soon, before⟩ := first world _ between ran clock
    obtain ⟨later, leads⟩ := rest value ⟨world, between, ran⟩ between result after comes soon
    exact ⟨later, before.trans leads⟩
  · exact first world _ after ran clock

/-- Some instructions first, without any counterpart. -/
theorem Follows.after (before : setting.Follows start (pure ()) fun _ => middle)
    (rest : setting.Follows middle evaluation finish) :
    setting.Follows start evaluation finish := by
  intro world result after comes clock
  obtain ⟨soon, leads⟩ := before world _ world (Evaluation.comes_pure.mpr ⟨rfl, rfl⟩) clock
  obtain ⟨later, more⟩ := rest world result after comes soon
  exact ⟨later, leads.trans more⟩

/-- One instruction. -/
theorem Follows.single {instr : Instr}
    (fetched : setting.code.instrs[start.position]? = some instr)
    (executes : ∀ world result after, evaluation.Comes world result after → ∀ clock, ∃ later,
      setting.execute start instr (world.setClock clock) =
        (setting.landing finish result, after.setClock later)) :
    setting.Follows start evaluation finish := by
  intro world result after comes clock
  obtain ⟨later, executed⟩ := executes world result after comes (clock + 1000)
  cases result with
  | ok value => exact ⟨later, .step fetched executed (.here _ _)⟩
  | error error => exact ⟨later, .fails fetched executed⟩

/-- The action does what the evaluation does. -/
def Performs (setting : Setting σ) (action : Action) (evaluation : Evaluation σ α)
    (finish : α → Point) : Prop :=
  ∀ world result after, evaluation.Comes world result after → ∀ clock, ∃ later,
    Machine.perform setting.host action (world.setClock clock) =
      (setting.landing finish result, after.setClock later)

/-- An instruction that looks at the world and then acts. -/
theorem Follows.ofPlan {instr : Instr} {read : World σ → Except Fault α} {action : α → Action}
    {next : α → Evaluation σ β} {final : β → Point}
    (fetched : setting.code.instrs[start.position]? = some instr)
    (planned : ∀ world : World σ,
      Machine.plan world (setting.machine { start with position := start.position + 1 })
        start.position instr = Machine.orFault (read world) >>= fun value => .ok (action value))
    (timeless : ∀ world clock, read (world.setClock clock) = read world)
    (performs : ∀ value, setting.Performs (action value) (next value) final) :
    setting.Follows start (.consult read >>= next) final := by
  refine .single fetched fun world result after comes clock => ?_
  rcases Evaluation.comes_bind.mp comes with ⟨value, between, ran, rest⟩ | ⟨error, ran, rfl⟩
  · obtain ⟨same, rfl⟩ := Evaluation.comes_consult.mp ran
    cases found : read between with
    | ok other =>
        rw [found] at same
        cases same
        have executed : setting.execute start instr (between.setClock clock) =
            Machine.perform setting.host (action value) (between.setClock clock) := by
          rw [execute, Machine.execute_eq, planned, timeless, found]
          rfl
        rw [executed]
        exact performs value between result after rest clock
    | error fault =>
        rw [found] at same
        cases same
  · obtain ⟨same, rfl⟩ := Evaluation.comes_consult.mp ran
    cases found : read after with
    | ok other =>
        rw [found] at same
        cases same
    | error fault =>
        rw [found] at same
        cases same
        have executed : setting.execute start instr (after.setClock clock) =
            (.error (.runtime { fault }), after.setClock clock) := by
          rw [execute, Machine.execute_eq, planned, timeless, found]
          rfl
        exact ⟨clock, executed⟩

theorem Performs.proceed {value : α} : setting.Performs (.proceed (setting.machine (finish value)))
    (pure value) finish := by
  intro world result after comes clock
  obtain ⟨rfl, rfl⟩ := Evaluation.comes_pure.mp comes
  exact ⟨clock, rfl⟩

theorem Performs.produce {position : Nat} {stack : List Value} {loops : List LoopState}
    (draft : Draft) :
    setting.Performs (.produce (setting.machine ⟨position, stack, loops⟩) draft)
      (.place draft) fun value => ⟨position, value :: stack, loops⟩ := by
  intro world result after comes clock
  cases comes
  exact ⟨clock, rfl⟩

theorem Performs.replaceItem (point : Point) (list : ListRef) (index : Nat) (value : Value) :
    setting.Performs (.replaceItem (setting.machine point) list index value)
      (.replaceItem list index value) fun _ => point := by
  intro world result after comes clock
  cases comes
  exact ⟨clock, rfl⟩

/-- A value that is no function is its own result when it is called without arguments. -/
theorem Performs.call {position : Nat} {stack : List Value} {loops : List LoopState}
    (value : Value) (receiver : Option Value) (owner : Option MapRef) :
    setting.Performs (.call (setting.machine ⟨position, stack, loops⟩) value [] receiver owner)
      (.plain value) fun value => ⟨position, value :: stack, loops⟩ := by
  intro world result after comes clock
  cases value with
  | function closure => exact (Evaluation.comes_outside.mp comes).elim
  | _ =>
      cases comes
      exact ⟨clock, rfl⟩

theorem store_setClock {host : Host σ} (ignores : host.IgnoresClock) (map : MapRef)
    (key value : Value) (world : World σ) (clock : Nat) :
    ∃ later, (world.setClock clock).store host map key value =
      ((world.store host map key value).1, (world.store host map key value).2.setClock later) := by
  have same : (world.setClock clock).heap = world.heap := rfl
  unfold World.store
  rw [same]
  cases world.heap.interceptor? map key with
  | none => exact ⟨clock, rfl⟩
  | some id =>
      obtain ⟨later, heard⟩ := ignores id key value world clock
      refine ⟨later, ?_⟩
      dsimp only
      rw [heard]
      generalize host.intercept id key value world = outcome
      obtain ⟨error | _, after⟩ := outcome
      · rfl
      · rfl

/-- A store, of a value that is placed in the heap first. -/
theorem Performs.store (ignores : setting.host.IgnoresClock) (point : Point) (map : MapRef)
    (key : Value) (draft : Draft) :
    setting.Performs (.store (setting.machine point) map key draft)
      (do
        let value ← .place draft
        .store setting.host map key value) fun _ => point := by
  intro world result after comes clock
  rcases Evaluation.comes_bind.mp comes with ⟨value, between, ran, comes⟩ | ⟨error, ran, rfl⟩
  · cases ran
    obtain ⟨later, stored⟩ := store_setClock ignores map key (draft.valueIn world.heap)
      (world.modifyHeap draft.addTo) clock
    have outcome : (world.modifyHeap draft.addTo).store setting.host map key
        (draft.valueIn world.heap) = (result, after) := Option.some.inj comes
    rw [outcome] at stored
    have earlier : ((world.setClock clock).modifyHeap draft.addTo).store setting.host map key
        (draft.valueIn (world.setClock clock).heap) = (result, after.setClock later) := stored
    refine ⟨later, ?_⟩
    unfold Machine.perform
    dsimp only
    rw [earlier]
    cases result with
    | ok value => rfl
    | error error => rfl
  · cases ran

/-- The error of an evaluation is reported with a place, unless it has one already. -/
def Reports (setting : Setting σ) : Except RuntimeError α → Option ScriptError → Prop
  | .ok _, reported => reported = none
  | .error error, reported =>
      ∃ line, reported = some (.runtime (error.locate line setting.code.sourceName))

/-- The machine has ended as the evaluation has, and the world is the same. -/
structure Ends (setting : Setting σ) (result : Except RuntimeError α) (after : World σ)
    (turn : Turn σ) : Prop where
  finished : turn.machine.status = .finished
  world : turn.world = after
  error : setting.Reports result turn.error

theorem settle_of_lt {point : Point} (inside : point.position < setting.code.size)
    (world : World σ) :
    (setting.machine point).settle world = { machine := setting.machine point, world } := by
  have running : (setting.machine point).frame.isDone = false :=
    decide_eq_false (Nat.not_le_of_lt inside)
  exact if_neg (Bool.eq_false_iff.mp running)

theorem settle_of_le {point : Point} (beyond : setting.code.size ≤ point.position)
    (empty : point.stack = []) (world : World σ) :
    (setting.machine point).settle world =
      { machine := { setting.machine point with status := .finished }, world } := by
  have done : (setting.machine point).frame.isDone = true := decide_eq_true beyond
  have emptied : (setting.machine point).stack.isEmpty = true := List.isEmpty_iff.mpr empty
  exact (if_pos done).trans (if_pos emptied)

theorem step_running (point : Point) (poll : Poller σ) (world : World σ) :
    (setting.machine point).step setting.host poll world =
      if ((setting.machine point).settle world).machine.status = .running then
        ((setting.machine point).settle world).machine.advance setting.host
          ((setting.machine point).settle world).world
      else (setting.machine point).settle world := rfl

/-- The step of a machine at an instruction. -/
theorem step_eq {point : Point} {instr : Instr}
    (fetched : setting.code.instrs[point.position]? = some instr) (poll : Poller σ)
    (world : World σ) :
    (setting.machine point).step setting.host poll world =
      match setting.execute point instr (world.pass 1000) with
      | (.ok next, world) =>
          if next.status = .running then next.settle world else { machine := next, world }
      | (.error error, world) =>
          { machine := (setting.machine point).begun.halted, world
            error := some (error.locate setting.code point.position) } := by
  obtain ⟨inside, _⟩ := Array.getElem?_eq_some_iff.mp fetched
  have stepped : (setting.machine point).step setting.host poll world =
      (setting.machine point).advance setting.host world := by
    rw [step_running, settle_of_lt inside]
    exact if_pos rfl
  rw [stepped, Machine.advance_eq]
  dsimp only [machine]
  rw [fetched]
  rfl

/-- Instructions that lead to the end of the code, or to an error, end the machine, given enough
cycles. -/
theorem Leads.ends {result : Except RuntimeError Point} {world after : World σ}
    (leads : setting.Leads start world result after)
    (beyond : ∀ point, result = .ok point →
      setting.code.size ≤ point.position ∧ point.stack = []) (poll : Poller σ) :
    ∃ budget, ∀ more, setting.Ends result after
      ((setting.machine start).runCycles setting.host poll (budget + more + 1) world) := by
  induction leads with
  | here point world =>
      obtain ⟨outside, empty⟩ := beyond point rfl
      have stepped : (setting.machine point).step setting.host poll world =
          { machine := { setting.machine point with status := .finished }, world } := by
        rw [step_running, settle_of_le outside empty]
        exact if_neg nofun
      refine ⟨0, fun more => ?_⟩
      rw [Machine.runCycles, stepped]
      exact ⟨rfl, rfl, rfl⟩
  | @step start next world middle after result instr fetched executed rest ih =>
      have stepped : (setting.machine start).step setting.host poll world =
          (setting.machine next).settle middle := by
        rw [step_eq fetched, executed]
        exact if_pos rfl
      rcases Nat.lt_or_ge next.position setting.code.size with inside | outside
      · obtain ⟨budget, ends⟩ := ih beyond
        refine ⟨budget + 1, fun more => ?_⟩
        rw [Nat.add_right_comm budget, Machine.runCycles, stepped, settle_of_lt inside]
        exact ends more
      · -- There is no instruction at the next point, so the run ends there.
        cases rest with
        | here =>
            obtain ⟨_, empty⟩ := beyond next rfl
            refine ⟨0, fun more => ?_⟩
            rw [Machine.runCycles, stepped, settle_of_le outside empty]
            exact ⟨rfl, rfl, rfl⟩
        | step fetched =>
            obtain ⟨inside, _⟩ := Array.getElem?_eq_some_iff.mp fetched
            exact absurd inside (Nat.not_lt_of_le outside)
        | fails fetched =>
            obtain ⟨inside, _⟩ := Array.getElem?_eq_some_iff.mp fetched
            exact absurd inside (Nat.not_lt_of_le outside)
  | @fails start world after error instr fetched executed =>
      refine ⟨0, fun more => ?_⟩
      rw [Machine.runCycles, step_eq fetched, executed]
      exact ⟨rfl, rfl, _, rfl⟩

end Setting

end MiniScript
