import MiniScript.Proofs.Machine.Discipline
import MiniScript.Proofs.Machine.Lifecycle
import MiniScript.Proofs.Machine.Operands

/-!
# Calls and returns

A call saves the frame of the caller and leaves the operands below its own as they
are. While the frame of the called function stands, whatever it does, the saved
frames stay below it and so do these operands; the function returns to exactly the
frame that was saved, and leaves one operand, its result. The frames share one
operand stack without a floor, so this rests on the layout of the code that is
entered in the meantime: each compiled function takes its own operands only.
-/

namespace MiniScript

/-- The frames above `saved` hold that many operands, with the `base` operands below them. Each
caller among them stands behind its call, with the result of the call already counted. -/
inductive Above (saved : List Frame) (base : Nat) : Frame → List Frame → Nat → Prop where
  | callee {frame : Frame} {slot : Slot} (held : frame.Held false slot) :
      Above saved base frame saved (slot.height + base)
  | inner {frame caller : Frame} {callers : List Frame} {slot : Slot} {below : Nat}
      (held : frame.Held false slot) (room : base ≤ below)
      (rest : Above saved base caller callers (below + 1)) :
      Above saved base frame (caller :: callers) (slot.height + below)

namespace Above

variable {saved : List Frame} {base count : Nat} {frame : Frame} {callers : List Frame}

theorem suffix (above : Above saved base frame callers count) : saved <:+ callers := by
  induction above with
  | callee held => exact List.suffix_refl _
  | inner held room rest ih => exact ih.trans (List.suffix_cons _ _)

/-- The innermost frame, and what is below it: the saved frames, or another of the frames above
them. -/
theorem top (above : Above saved base frame callers count) :
    ∃ slot below, frame.Held false slot ∧ count = slot.height + below ∧ base ≤ below ∧
      (∀ {other : Frame} {after : Slot}, other.Held false after →
        Above saved base other callers (after.height + below)) ∧
      (callers = saved ∧ below = base ∨
        ∀ {caller : Frame} {rest : List Frame}, callers = caller :: rest →
          Above saved base caller rest (below + 1)) := by
  cases above with
  | callee held =>
      exact ⟨_, base, held, rfl, Nat.le_refl _, fun other => .callee other, Or.inl ⟨rfl, rfl⟩⟩
  | inner held room rest =>
      refine ⟨_, _, held, rfl, room, fun other => .inner other room rest, Or.inr ?_⟩
      rintro _ _ ⟨⟩
      exact rest

theorem not_done (above : Above saved base frame callers count) : frame.isDone = false := by
  obtain ⟨slot, _, ⟨places, layout, reached, _⟩, _⟩ := above.top
  cases isDone : frame.isDone with
  | false => rfl
  | true => exact nomatch (layout.ends reached (of_decide_eq_true isDone)).1

end Above

namespace Machine

variable {σ : Type} {host : Host σ} {world after : World σ} {machine next : Machine}
variable {instr : Instr} {saved : Frame} {outer : List Frame} {kept : List Value}

/-- The running machine carries out its next instruction. Functions that have run out of code are
not yet left. -/
structure Executes (host : Host σ) (machine : Machine) (world : World σ) (instr : Instr)
    (next : Machine) (after : World σ) : Prop where
  running : machine.status = .running
  awake : machine.wait? = none
  found : machine.frame.code.instrs[machine.position]? = some instr
  executed : machine.begun.execute host machine.position instr (world.pass 1000) = (.ok next, after)

/-- The next instruction enters a function with that code. -/
def Enters (host : Host σ) (machine : Machine) (world : World σ) (code : Code) : Prop :=
  ∃ instr next after, machine.Executes host world instr next after ∧
    machine.depth < next.depth ∧ next.frame.code = code

theorem execute_eq_ok {position : Nat}
    (executed : machine.execute host position instr world = (.ok next, after)) :
    ∃ action, plan world machine position instr = .ok action ∧
      perform host action world = (.ok next, after) := by
  rw [execute_eq] at executed
  split at executed
  · exact ⟨_, ‹_›, executed⟩
  · cases executed

/-- What an instruction that enters a function makes of the machine. -/
theorem execute_enters {position : Nat}
    (executed : machine.execute host position instr world = (.ok next, after))
    (deeper : machine.depth < next.depth) :
    next.callers = machine.frame :: machine.callers ∧
      next.stack = machine.stack.drop instr.taken ∧ next.status = machine.status ∧
      next.wait? = machine.wait? ∧ next.frame.position = 0 ∧
      ∃ ref, (world.heap.definition ref).body = .script next.frame.code := by
  obtain ⟨action, planned, performed⟩ := execute_eq_ok executed
  have continues := plan_continues world machine position instr action planned
  have leaves := plan_leaves world machine position instr action planned
  have shallow : action.next.depth < next.depth :=
    Nat.lt_of_le_of_lt continues.kept.depth_le deeper
  cases action with
  | call calling callee args receiver owner =>
      have same := continues.called rfl
      have stack := leaves.called rfl
      have called : Safe (Called world calling)
          (calling.call host callee args receiver owner world).1 :=
        call_called calling callee args receiver owner world
      rw [show calling.call host callee args receiver owner world =
          (.ok next, after) from performed]
        at called
      cases called with
      | ok known =>
          cases known with
          | answered value yields native => exact absurd shallow (Nat.lt_irrefl _)
          | waits wait yields => exact absurd shallow (Nat.lt_irrefl _)
          | entered ref code scope known room =>
              refine ⟨?_, stack, same.status, same.wait, rfl, ref, known⟩
              rw [← same.frame, ← same.callers]
  | store goesOn map key draft =>
      unfold perform at performed
      dsimp only at performed
      split at performed
      · cases performed
        exact absurd shallow (Nat.lt_irrefl _)
      · cases performed
  | _ =>
      cases performed
      exact absurd shallow (Nat.lt_irrefl _)

/-- Where all functions are compiled, only compiled code is entered. -/
theorem Enters.isBody {code : Code} (enters : machine.Enters host world code)
    (compiled : world.Compiled) : code.IsBody := by
  obtain ⟨instr, next, after, executes, deeper, rfl⟩ := enters
  obtain ⟨_, _, _, _, _, ref, known⟩ := execute_enters executes.executed deeper
  exact compiled.definition ref _ known

/-- The machine is inside of a call that was made from `saved`: the frames above it hold their
operands, and the operands below those are `kept`. -/
structure Inside (saved : Frame) (outer : List Frame) (kept : List Value) (machine : Machine) :
    Prop where
  coherent : machine.Coherent
  active : machine.status = .running ∨ machine.status = .suspended
  above : Above (saved :: outer) kept.length machine.frame machine.callers machine.operands
  kept : kept <:+ machine.stack

theorem operands_of_awake (awake : machine.wait? = none) :
    machine.operands = machine.stack.length := by
  rw [operands, awake]

theorem Inside.ofRunning (running : machine.status = .running) (awake : machine.wait? = none)
    (above : Above (saved :: outer) kept.length machine.frame machine.callers machine.stack.length)
    (suffix : kept <:+ machine.stack) : Inside saved outer kept machine := by
  refine ⟨.ofActive ⟨Or.inr running, awake⟩, Or.inl running, ?_, suffix⟩
  rw [operands_of_awake awake]
  exact above

/-- A call that enters compiled code. -/
theorem Executes.inside {entered : Machine}
    (calls : machine.Executes host world instr entered after)
    (deeper : machine.depth < entered.depth) (body : entered.frame.code.IsBody) :
    Inside machine.begun.frame machine.callers (machine.stack.drop instr.taken) entered := by
  obtain ⟨callers, stack, status, wait, position, _⟩ := execute_enters calls.executed deeper
  obtain ⟨places, layout⟩ := body.laidOut
  have held : entered.frame.Held false (.level []) := by
    refine ⟨places, layout, ?_, nofun⟩
    rw [position]
    exact layout.start
  have above : Above entered.callers entered.stack.length entered.frame entered.callers
      ((Slot.level []).height + entered.stack.length) := .callee held
  rw [show (Slot.level []).height + entered.stack.length = entered.stack.length from
    Nat.zero_add _] at above
  refine .ofRunning (status.trans calls.running) (wait.trans calls.awake) ?_ ⟨[], stack.symm⟩
  rw [show machine.stack.drop instr.taken = entered.stack from stack.symm,
    show machine.begun.frame :: machine.callers = entered.callers from callers.symm]
  exact above

/-- The machine is back behind the call, with one operand more. -/
structure BackAt (saved : Frame) (outer : List Frame) (kept : List Value) (machine : Machine) :
    Prop where
  running : machine.status = .running
  awake : machine.wait? = none
  frame : machine.frame = saved
  callers : machine.callers = outer
  stack : ∃ result, machine.stack = result :: kept

theorem Inside.callers_ne_nil (inside : Inside saved outer kept machine) :
    machine.callers.isEmpty = false := by
  obtain ⟨entered, same⟩ := inside.above.suffix
  rw [← same]
  cases entered with
  | nil => rfl
  | cons frame frames => rfl

/-- The operands that an instruction takes lie above those that are kept. -/
theorem kept_suffix_drop {slot : Slot} {below taken : Nat} (suffix : kept <:+ machine.stack)
    (count : machine.stack.length = slot.height + below) (room : kept.length ≤ below)
    (own : taken ≤ slot.height) : kept <:+ machine.stack.drop taken := by
  refine List.suffix_of_suffix_length_le suffix (List.drop_suffix _ _) ?_
  rw [List.length_drop]
  omega

/-- What the action of an instruction makes of a machine inside of a call. -/
theorem performed_inside {slot : Slot} {below : Nat} {places : Places} {action : Action}
    (leads : Leads places machine.begun instr slot action)
    (performed : Performed world action next) (running : machine.status = .running)
    (awake : machine.wait? = none) (layout : LaidOut false machine.frame.code places)
    (count : machine.stack.length = slot.height + below)
    (stays : kept <:+ action.next.stack)
    (replace : ∀ {other : Frame} {after : Slot}, other.Held false after →
      Above (saved :: outer) kept.length other machine.callers (after.height + below))
    (back : machine.callers = saved :: outer ∧ below = kept.length ∨
      ∀ {caller : Frame} {rest : List Frame}, machine.callers = caller :: rest →
        Above (saved :: outer) kept.length caller rest (below + 1))
    (body : machine.depth < next.depth → next.frame.code.IsBody) :
    Inside saved outer kept next ∨ instr.op = .return ∧ BackAt saved outer kept next := by
  cases leads with
  | onward place loops stack after same reached runs moved =>
      have held : Frame.Held false { machine.frame with position := place, loops } after :=
        ⟨places, layout, reached, runs⟩
      have above := replace held
      have total : after.height + below = stack.length + action.owed := by
        have length : machine.begun.stack.length = slot.height + below := count
        omega
      rw [total] at above
      rw [same] at stays
      cases performed with
      | done results owed =>
          rw [same]
          refine Or.inl (.ofRunning running awake ?_ (stays.trans (List.suffix_append _ _)))
          rw [List.length_append, owed, Nat.add_comm]
          exact above
      | called owed called =>
          rw [owed] at above
          rw [same] at called
          cases called with
          | answered value yields native =>
              exact Or.inl (.ofRunning running awake above (stays.trans (List.suffix_cons _ _)))
          | waits wait yields =>
              exact Or.inl ⟨⟨fun _ => rfl, fun _ => rfl⟩, Or.inr rfl, above, stays⟩
          | entered ref code scope known room =>
              obtain ⟨inside, entered⟩ := (body (Nat.lt_succ_self _)).laidOut
              have first : Frame.Held false { code, scope } (.level []) :=
                ⟨inside, entered, entered.start, nofun⟩
              have deeper := Above.inner first stays.length_le above
              rw [show (Slot.level []).height + stack.length = stack.length from Nat.zero_add _]
                at deeper
              exact Or.inl (.ofRunning running awake deeper stays)
  | leave value stack isReturn only inner same moved =>
      subst same
      cases performed with
      | called owed => exact nomatch owed
      | done results owed =>
          obtain rfl : results = [] := List.eq_nil_of_length_eq_zero owed
          obtain ⟨caller, rest, callers⟩ := List.exists_cons_of_ne_nil inner
          have left : ({ machine.begun with stack }.leave value) =
              { machine.begun with frame := caller, callers := rest, stack := value :: stack } := by
            rw [leave, callers]
          have length : stack.length = below := by
            have total : machine.begun.stack.length = slot.height + below := count
            omega
          simp only [Action.next, left, List.nil_append] at stays ⊢
          rcases back with ⟨callee, rfl⟩ | back
          · obtain ⟨rfl, rfl⟩ := List.cons.inj (callers.symm.trans callee)
            refine Or.inr ⟨isReturn, running, awake, rfl, rfl, value, ?_⟩
            rcases List.suffix_cons_iff.mp stays with whole | suffix
            · have longer := congrArg List.length whole
              rw [List.length_cons] at longer
              omega
            · rw [suffix.eq_of_length length.symm]
          · refine Or.inl (.ofRunning running awake ?_ stays)
            rw [List.length_cons, length]
            exact back callers

/-- What an instruction of compiled code makes of a machine inside of a call: it stays inside, or
returns. -/
theorem Inside.executes (inside : Inside saved outer kept machine)
    (executes : machine.Executes host world instr next after)
    (body : machine.depth < next.depth → next.frame.code.IsBody) :
    Inside saved outer kept next ∨ instr.op = .return ∧ BackAt saved outer kept next := by
  have running := executes.running
  have above := inside.above
  rw [operands_of_awake executes.awake] at above
  obtain ⟨slot, below, ⟨places, layout, reached, runs⟩, count, room, replace, back⟩ := above.top
  have within : machine.frame.position < machine.frame.code.size := by
    have unfinished := above.not_done
    rw [Frame.isDone, decide_eq_false_iff_not] at unfinished
    exact Nat.lt_of_not_le unfinished
  obtain ⟨same, found, accepts⟩ := layout.accepts reached within
  obtain rfl : same = instr := Option.some.inj (found.symm.trans executes.found)
  obtain ⟨action, planned, performed⟩ := execute_eq_ok executes.executed
  have leads : Leads places machine.begun same slot action := by
    have safe : Safe (Leads places machine.begun same slot)
        (plan (world.pass 1000) machine.begun machine.position same) := by
      refine plan_accepted ?_ rfl runs
        (Nat.le_trans (Nat.le_add_right _ _) (Nat.le_of_eq count.symm))
      rw [show machine.begun.callers.isEmpty = false from inside.callers_ne_nil]
      exact accepts
    rw [planned] at safe
    cases safe with
    | ok known => exact known
  have stays : kept <:+ action.next.stack :=
    (kept_suffix_drop inside.kept count room accepts.taken_le).trans
      (plan_leaves _ _ _ _ action planned).suffix
  have known : Performed (world.pass 1000) action next := by
    have safe : Safe (Performed (world.pass 1000) action)
        (perform host action (world.pass 1000)).1 := perform_performed action _
    rw [performed] at safe
    cases safe with
    | ok known => exact known
  exact performed_inside leads known running executes.awake layout count stays replace back body

theorem settle_of_not_done (unfinished : machine.frame.isDone = false) (world : World σ) :
    machine.settle world = { machine, world } := by
  have still : unwind machine.frame machine.callers machine.stack =
      (machine.frame, machine.callers, machine.stack) := by
    cases callers : machine.callers with
    | nil => rfl
    | cons caller rest => simp only [unwind, unfinished, Bool.false_eq_true, if_false]
  simp only [settle, still, unfinished, Bool.false_eq_true, if_false]

/-- In the middle of its code, a machine that does not wait executes an instruction. -/
theorem step_of_not_done (host : Host σ) (poll : Poller σ)
    (active : machine.status = .ready ∨ machine.status = .running)
    (unfinished : machine.frame.isDone = false) (world : World σ) :
    machine.step host poll world = { machine with status := .running }.advance host world := by
  have settled := @settle_of_not_done σ { machine with status := .running } unfinished world
  rw [step_of_active host poll active, settled]
  exact if_pos rfl

theorem Inside.settle (inside : Inside saved outer kept machine) (world : World σ) :
    machine.settle world = { machine, world } :=
  settle_of_not_done inside.above.not_done world

/-- An error has ended the machine. -/
structure Failed (turn : Turn σ) : Prop where
  error : turn.error ≠ none
  finished : turn.machine.status = .finished
  callers : turn.machine.callers = []

/-- What a step makes of a machine inside of a call: an error ends it, or it stays inside, or it
returns. -/
inductive Steps (host : Host σ) (saved : Frame) (outer : List Frame) (kept : List Value)
    (machine : Machine) (world : World σ) (turn : Turn σ) : Prop where
  | fails (failed : Failed turn)
  | stays (inside : Inside saved outer kept turn.machine)
  | returns {instr : Instr} {next : Machine} {after : World σ}
      (executes : machine.Executes host world instr next after) (isReturn : instr.op = .return)
      (back : BackAt saved outer kept next) (settles : turn = next.settle after)

theorem Inside.advance (inside : Inside saved outer kept machine)
    (running : machine.status = .running)
    (bodies : ∀ code, machine.Enters host world code → code.IsBody) :
    Steps host saved outer kept machine world (machine.advance host world) := by
  have awake := (inside.coherent.active (Or.inr running)).awake
  rw [Machine.advance_eq]
  split
  · exact .fails ⟨Option.some_ne_none _, rfl, rfl⟩
  · rename_i instr found
    split
    · rename_i next after executed
      have executes : machine.Executes host world instr next after :=
        ⟨running, awake, found, executed⟩
      have body (deeper : machine.depth < next.depth) : next.frame.code.IsBody :=
        bodies _ ⟨instr, next, after, executes, deeper, rfl⟩
      rcases inside.executes executes body with stays | ⟨isReturn, returned⟩
      · refine .stays ?_
        rw [stays.settle]
        split
        · exact stays
        · exact stays
      · refine .returns executes isReturn returned ?_
        rw [if_pos returned.running]
    · exact .fails ⟨Option.some_ne_none _, rfl, rfl⟩

theorem Inside.awaken (inside : Inside saved outer kept machine) {wait : Wait}
    (waits : machine.wait? = some wait) (world : World σ) :
    Failed (machine.awaken wait.deferred world) ∨
      Inside saved outer kept (machine.awaken wait.deferred world).machine := by
  have above := inside.above
  rw [operands, waits] at above
  unfold Machine.awaken
  dsimp only
  split
  · exact Or.inr (.ofRunning rfl rfl above (inside.kept.trans (List.suffix_cons _ _)))
  · exact Or.inl ⟨Option.some_ne_none _, rfl, rfl⟩
  · exact Or.inl ⟨Option.some_ne_none _, rfl, rfl⟩

theorem Inside.resume (inside : Inside saved outer kept machine) (poll : Poller σ)
    (world : World σ) :
    Failed (machine.resume poll world) ∨
      Inside saved outer kept (machine.resume poll world).machine := by
  unfold Machine.resume
  split
  · exact Or.inr inside
  · rename_i wait waiting
    dsimp only
    split
    · exact inside.awaken waiting _
    · exact Or.inr inside

theorem Inside.step (inside : Inside saved outer kept machine) (poll : Poller σ)
    (bodies : ∀ code, machine.Enters host world code → code.IsBody) :
    Steps host saved outer kept machine world (machine.step host poll world) := by
  rcases inside.active with running | suspended
  · have same : { machine with status := .running } = machine := by rw [← running]
    simp only [Machine.step, running]
    rw [same, inside.settle, if_pos running]
    exact inside.advance running bodies
  · simp only [Machine.step, suspended]
    rcases inside.resume poll world with failed | stays
    · rw [if_neg (not_goesOn_of_error failed.error)]
      exact .fails failed
    · refine .stays ?_
      rw [stays.settle]
      split
      · exact stays
      · exact stays

/-- What can come of a called function while its frame stands, at a depth greater than `depth`: it
goes on step by step, entering only functions with code that is allowed, or looks for the result it
waits for; a burst may end, and the world may become another at any time. -/
inductive During (host : Host σ) (allowed : Code → Prop) (depth : Nat) (first : Machine)
    (initial : World σ) : Machine → World σ → Prop where
  | start : During host allowed depth first initial first initial
  | step {machine : Machine} {world : World σ}
      (before : During host allowed depth first initial machine world) (poll : Poller σ)
      (enters : ∀ code, machine.Enters host world code → allowed code)
      (stands : depth < (machine.step host poll world).machine.depth) :
      During host allowed depth first initial (machine.step host poll world).machine
        (machine.step host poll world).world
  | resume {machine : Machine} {world : World σ}
      (before : During host allowed depth first initial machine world) (poll : Poller σ)
      (stands : depth < (machine.resume poll world).machine.depth) :
      During host allowed depth first initial (machine.resume poll world).machine
        (machine.resume poll world).world
  | yielded {machine : Machine} {world : World σ}
      (before : During host allowed depth first initial machine world) :
      During host allowed depth first initial { machine with yieldRequested := false } world
  | change {machine : Machine} {world : World σ}
      (before : During host allowed depth first initial machine world) (after : World σ) :
      During host allowed depth first initial machine after

/-- A step that is known. -/
theorem During.goesOn {allowed : Code → Prop} {depth : Nat} {first machine next : Machine}
    {initial world after : World σ} {error : Option ScriptError}
    (before : During host allowed depth first initial machine world) (poll : Poller σ)
    (enters : ∀ code, machine.Enters host world code → allowed code)
    (stepped : machine.step host poll world = ⟨next, after, error⟩) (stands : depth < next.depth) :
    During host allowed depth first initial next after := by
  have known := before.step poll enters
  rw [stepped] at known
  exact known stands

theorem Failed.shallow {turn : Turn σ} (failed : Failed turn) (depth : Nat) :
    ¬depth < turn.machine.depth := by
  rw [Machine.depth, failed.callers]
  exact Nat.not_lt_zero depth

theorem settle_depth_le (machine : Machine) (world : World σ) :
    (machine.settle world).machine.depth ≤ machine.depth := by
  have spec := unwind_spec machine.frame machine.callers machine.stack
  unfold settle
  generalize unwind machine.frame machine.callers machine.stack = unwound at spec
  obtain ⟨frame, callers, stack⟩ := unwound
  dsimp only
  split
  · split
    · exact spec.1
    · exact Nat.zero_le _
  · exact spec.1

/-- As long as the frame of the called function stands, the machine is inside of the call. -/
theorem During.inside {first : Machine} {initial : World σ}
    (during : During host Code.IsBody outer.length first initial machine world)
    (inside : Inside saved outer kept first) : Inside saved outer kept machine := by
  induction during with
  | start => exact inside
  | step before poll enters stands ih =>
      cases ih.step poll enters with
      | fails failed => exact absurd stands (failed.shallow _)
      | stays inside => exact inside
      | returns executes isReturn back settles =>
          rw [settles] at stands
          have shallow := Nat.lt_of_lt_of_le stands (settle_depth_le _ _)
          rw [depth, back.callers] at shallow
          exact absurd shallow (Nat.lt_irrefl _)
  | resume before poll stands ih =>
      rcases ih.resume poll _ with failed | inside
      · exact absurd stands (failed.shallow _)
      · exact inside
  | yielded before ih => exact ⟨ih.coherent, ih.active, ih.above, ih.kept⟩
  | change before after ih => exact ih

/-- What the caller keeps while a function that it has called by `call` is running. -/
structure KeepsCaller (host : Host σ) (caller : Machine) (call : Instr) (machine : Machine)
    (world : World σ) : Prop where
  /-- The frame of the caller is saved, behind the call, above its own callers. -/
  frames : caller.begun.frame :: caller.callers <:+ machine.callers
  /-- The operands below those of the call are there. -/
  operands : caller.stack.drop call.taken <:+ machine.stack
  /-- The frame of the function is left by a `return` only. -/
  returns : ∀ {instr : Instr} {next : Machine} {after : World σ},
    machine.Executes host world instr next after → next.depth ≤ caller.depth →
      instr.op = .return ∧
        BackAt caller.begun.frame caller.callers (caller.stack.drop call.taken) next
  /-- A step that leaves the frame executes this `return`, and goes on from there. -/
  leaves : ∀ poll : Poller σ, (∀ code, machine.Enters host world code → code.IsBody) →
    (machine.step host poll world).error = none →
      (machine.step host poll world).machine.depth ≤ caller.depth →
        ∃ instr next after, machine.Executes host world instr next after ∧ instr.op = .return ∧
          BackAt caller.begun.frame caller.callers (caller.stack.drop call.taken) next ∧
          machine.step host poll world = next.settle after

theorem Inside.keepsCaller {caller : Machine} {call : Instr}
    (inside : Inside caller.begun.frame caller.callers (caller.stack.drop call.taken) machine)
    (host : Host σ) (world : World σ) : KeepsCaller host caller call machine world := by
  have deep : caller.depth < machine.depth := inside.above.suffix.length_le
  refine ⟨inside.above.suffix, inside.kept, ?_, ?_⟩
  · intro instr next after executes shallow
    have above (deeper : machine.depth < next.depth) : next.frame.code.IsBody := by
      omega
    rcases inside.executes executes above with stays | returned
    · have still : caller.depth < next.depth := stays.above.suffix.length_le
      omega
    · exact returned
  · intro poll bodies noError shallow
    cases inside.step poll bodies with
    | fails failed => exact absurd noError failed.error
    | stays inside =>
        have still : caller.depth < (machine.step host poll world).machine.depth :=
          inside.above.suffix.length_le
        omega
    | returns executes isReturn back settles =>
        exact ⟨_, _, _, executes, isReturn, back, settles⟩

/-- Whoever calls a compiled function, from any state: while its frame stands the caller keeps its
frame and its operands, and the function returns to exactly them with one result, as long as the
functions that are entered in between are compiled too. -/
theorem call_returns_to_caller {caller entered : Machine} {call : Instr} {initial begins : World σ}
    (calls : caller.Executes host initial call entered begins)
    (deeper : caller.depth < entered.depth) (body : entered.frame.code.IsBody)
    (during : During host Code.IsBody caller.depth entered begins machine world) :
    KeepsCaller host caller call machine world :=
  (during.inside (calls.inside deeper body)).keepsCaller host world

end Machine

/-- A machine that is about to call the first function of the heap, with an operand below. -/
def Machine.aboutToCall : Machine where
  frame :=
    { code := { instrs := #[Compiler.withCount .callValue 0, { op := .pop }, { op := .pop }] }
      scope := ⟨0⟩ }
  stack := [.function ⟨⟨0⟩, none⟩, .text "kept"]
  status := .running

/-- A function that answers with what `g` answers. -/
def Code.callsG (entries : Array SourceEntry) : Code where
  instrs := #[{ op := .callVar, first := .name "g", second := .int 0 }, { op := .return }]
  entries

theorem Code.callsG_isBody : ∃ entries, (Code.callsG entries).IsBody :=
  ⟨_, none, .function, [.returnValue 0 default (some (.name ⟨"g", default, 0⟩))], #[], #[],
    by decide, by decide, rfl⟩

/-- A function that answers with a text. -/
def Code.answersText (entries : Array SourceEntry) : Code where
  instrs := #[Compiler.pushValue (.text "answer"), { op := .return }]
  entries

theorem Code.answersText_isBody : ∃ entries, (Code.answersText entries).IsBody :=
  ⟨_, none, .function, [.returnValue 0 default (some (.text "answer" default 0))], #[], #[],
    by decide, by decide, rfl⟩

/-- A function that no compiler writes: it answers with an operand that is not its own. -/
def Code.takesOperand : Code where
  instrs := #[{ op := .return }]

/-- A world with two functions, of which every scope knows the second as `g`. -/
def World.withFunctions (first second : Code) : World Unit :=
  let world := World.initial {} ()
  { world with
    heap := { world.heap with
      functions := #[⟨none, [], .script first⟩, ⟨none, [], .script second⟩] }
    intrinsics := [("g", .function ⟨⟨1⟩, none⟩)] }

theorem World.withFunctions_compiled {first second : Code} (firstBody : first.IsBody)
    (secondBody : second.IsBody) : (World.withFunctions first second).Compiled := by
  intro definition member
  rcases List.mem_cons.mp (Array.mem_def.mp member) with rfl | other
  · rintro _ ⟨⟩
    exact firstBody
  · obtain rfl := List.mem_singleton.mp other
    rintro _ ⟨⟩
    exact secondBody

/-- The world once a function without arguments has been entered. -/
def World.entering (world : World Unit) : World Unit :=
  (world.pass 1000).modifyHeap fun heap => heap.addScope (some ⟨0⟩) (.ofNames [])

/-- The machine at the beginning of the first function. -/
def Machine.insideFirst (first : Code) : Machine :=
  { Machine.aboutToCall with
    frame := { code := first, scope := ⟨1⟩ }
    callers := [Machine.aboutToCall.begun.frame]
    stack := [.text "kept"] }

/-- The machine at the beginning of the second function, which the first one has called. -/
def Machine.insideSecond (first second : Code) : Machine :=
  let machine := Machine.insideFirst first
  { machine with
    frame := { code := second, scope := ⟨2⟩ }
    callers := machine.begun.frame :: machine.callers }

/-- A function has called another one and is about to return what that one has answered. -/
theorem Machine.nested_call_returns_to_caller :
    ∃ outer inner,
      let world := (World.withFunctions (.callsG outer) (.answersText inner)).entering.entering
      let returning := { (Machine.insideFirst (.callsG outer)).begun with
        stack := [.text "answer", .text "kept"] }
      Machine.KeepsCaller .silent .aboutToCall (Compiler.withCount .callValue 0) returning world ∧
        (returning.stepOnce .silent world).machine.depth = 0 := by
  obtain ⟨outer, outerBody⟩ := Code.callsG_isBody
  obtain ⟨inner, innerBody⟩ := Code.answersText_isBody
  let world := World.withFunctions (.callsG outer) (.answersText inner)
  let entered := Machine.insideFirst (.callsG outer)
  let nested := Machine.insideSecond (.callsG outer) (.answersText inner)
  have compiled : world.Compiled := World.withFunctions_compiled outerBody innerBody
  have calls : Machine.aboutToCall.Executes .silent world (Compiler.withCount .callValue 0) entered
      world.entering := ⟨rfl, rfl, rfl, rfl⟩
  have first : Machine.During .silent Code.IsBody 0 entered world.entering entered
      world.entering := .start
  have enters : Machine.During .silent Code.IsBody 0 entered world.entering nested
      world.entering.entering :=
    first.goesOn (World.poll .silent) (fun _ enters => enters.isBody compiled) rfl (Nat.succ_pos 1)
  have pushes : Machine.During .silent Code.IsBody 0 entered world.entering
      { nested.begun with stack := [.text "answer", .text "kept"] }
      (world.entering.entering.pass 1000) :=
    enters.goesOn (World.poll .silent) (fun _ enters => enters.isBody compiled) rfl (Nat.succ_pos 1)
  have returns : Machine.During .silent Code.IsBody 0 entered world.entering
      { entered.begun with stack := [.text "answer", .text "kept"] }
      ((world.entering.entering.pass 1000).pass 1000) :=
    pushes.goesOn (World.poll .silent) (fun _ enters => enters.isBody compiled) rfl (Nat.succ_pos 0)
  refine ⟨outer, inner, ?_, rfl⟩
  exact Machine.call_returns_to_caller calls (Nat.succ_pos 0) outerBody (returns.change _)

/-- The frames share one operand stack, so a function from elsewhere that a compiled function calls
can take an operand of the caller below both. -/
theorem Machine.foreign_function_takes_from_caller :
    ∃ (caller entered machine next : Machine) (call instr : Instr)
      (initial begins world after : World Unit),
      caller.Executes .silent initial call entered begins ∧ call.op.isCall = true ∧
        caller.depth < entered.depth ∧ entered.frame.code.IsBody ∧
        Machine.During .silent (fun _ => True) caller.depth entered begins machine world ∧
        machine.Executes .silent world instr next after ∧ next.depth ≤ caller.depth ∧
        ¬next.BackAt caller.begun.frame caller.callers (caller.stack.drop call.taken) := by
  obtain ⟨entries, body⟩ := Code.callsG_isBody
  let world := World.withFunctions (.callsG entries) .takesOperand
  let entered := Machine.insideFirst (.callsG entries)
  have calls : Machine.aboutToCall.Executes .silent world (Compiler.withCount .callValue 0) entered
      world.entering := ⟨rfl, rfl, rfl, rfl⟩
  have first : Machine.During .silent (fun _ => True) 0 entered world.entering entered
      world.entering := .start
  have enters : Machine.During .silent (fun _ => True) 0 entered world.entering
      (.insideSecond (.callsG entries) .takesOperand) world.entering.entering :=
    first.goesOn (World.poll .silent) (fun _ _ => trivial) rfl (Nat.succ_pos 1)
  have takes : Machine.During .silent (fun _ => True) 0 entered world.entering entered.begun
      (world.entering.entering.pass 1000) :=
    enters.goesOn (World.poll .silent) (fun _ _ => trivial) rfl (Nat.succ_pos 0)
  refine ⟨_, _, _, _, _, _, _, _, _, _, calls, rfl, Nat.succ_pos 0, body, takes,
    ⟨rfl, rfl, rfl, rfl⟩,
    Nat.le_refl 0, ?_⟩
  rintro ⟨-, -, -, -, result, same⟩
  cases same

end MiniScript
