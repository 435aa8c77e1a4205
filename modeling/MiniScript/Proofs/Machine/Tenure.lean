import MiniScript.Proofs.Machine.Passage
import MiniScript.Proofs.Machine.Standing

/-!
# The line of a frame

While a frame stands, it carries out one instruction after the other, and each hands the
frame on to the next as it has planned. In between there may be calls, and nothing is
known of the code that is called: it may leave its frames by a `return` or by running
out of instructions, and may do what it likes with the operands. The frame below it is
saved and comes back as it was.
-/

namespace MiniScript

variable {σ : Type}

/-- The frame above `outer` has carried out an instruction, and goes on as the action says. -/
structure Visit.HandsOn (host : Host σ) (outer : List Frame) (visit : Visit σ) (instr : Instr)
    (action : Action) : Prop where
  executes : ∃ next after, visit.machine.Executes host visit.world instr next after
  planned : Machine.plan (visit.world.pass 1000) visit.machine.begun visit.position instr =
    .ok action
  callers : visit.machine.callers = outer
  kept : action.next.callers = outer

/-- The instructions that a frame has carried out, the last one first, and what has become of it. -/
inductive Line (host : Host σ) (outer : List Frame) (first : Frame) :
    List (Visit σ) → Frame → Prop where
  | start : Line host outer first [] first
  | goesOn {visits : List (Visit σ)} {visit : Visit σ} {instr : Instr} {action : Action}
      (before : Line host outer first visits visit.machine.frame)
      (hands : visit.HandsOn host outer instr action) :
      Line host outer first (visit :: visits) action.next.frame

section

variable {host : Host σ} {outer : List Frame} {first frame : Frame} {visit : Visit σ}
variable {visits : List (Visit σ)} {instr : Instr} {action : Action}

theorem Visit.HandsOn.code (hands : visit.HandsOn host outer instr action) :
    action.next.frame.code = visit.machine.frame.code := by
  have continues := Machine.plan_continues _ _ _ _ action hands.planned
  rcases continues.kept.frames with ⟨_, same⟩ | back
  · exact same
  · have top : visit.machine.begun.callers = outer := hands.callers
    rw [top, ← hands.kept] at back
    exact absurd back.symm (List.cons_ne_self _ _)

theorem Line.code (line : Line host outer first visits frame) : frame.code = first.code := by
  induction line with
  | start => rfl
  | goesOn before hands ih => exact hands.code.trans ih

theorem Action.exists_leaves (heap : Heap) (action : Action) :
    ∃ stack, action.Leaves heap stack := by
  cases action with
  | call next callee args receiver owner => exact ⟨_, .null, rfl⟩
  | _ => exact ⟨_, rfl⟩

theorem Visit.HandsOn.leads (hands : visit.HandsOn host outer instr action) :
    ∃ stack, visit.LeadsTo action.next.frame.position stack := by
  obtain ⟨next, after, executes⟩ := hands.executes
  obtain ⟨stack, leaves⟩ := action.exists_leaves visit.world.heap
  exact ⟨stack, instr, action, executes.found, hands.planned, hands.kept.trans hands.callers.symm,
    rfl, leaves⟩

/-- What is called has no say in where the frame goes. -/
theorem Line.route (line : Line host outer first visits frame) (known : first.LoopsKnown) :
    frame.LoopsKnown ∧ Route first.code first.position visits frame.position := by
  induction line with
  | start => exact ⟨known, .start⟩
  | goesOn before hands ih =>
      obtain ⟨known, route⟩ := ih
      obtain ⟨stack, leads⟩ := hands.leads
      obtain ⟨next, after, executes⟩ := hands.executes
      have stays := Machine.plan_stays _ _ _ _ _ hands.planned
      exact ⟨stays.loopsKnown (hands.kept.trans hands.callers.symm) hands.code executes.found known,
        .goesOn route before.code known leads⟩

end

namespace Machine

variable {host : Host σ} {world after : World σ} {machine next : Machine} {instr : Instr}
variable {outer : List Frame} {saved first : Frame} {visits : List (Visit σ)}

/-- What becomes of a frame that carries out an instruction. -/
inductive Fares (machine : Machine) (action : Action) (next : Machine) : Prop where
  | goesOn (running : next.status = .running) (frame : next.frame = action.next.frame)
      (callers : next.callers = machine.callers)
      (kept : action.next.callers = machine.callers)
  | returns (running : next.status = .running)
      (left : machine.callers = action.next.frame :: action.next.callers)
      (back : machine.callers = next.frame :: next.callers)
  | waits (waiting : next.status = .suspended)
      (frame : next.frame = action.next.frame) (callers : next.callers = machine.callers)
      (kept : action.next.callers = machine.callers)
  | enters (running : next.status = .running)
      (callers : next.callers = action.next.frame :: machine.callers)
      (kept : action.next.callers = machine.callers)

theorem Executes.fares (executes : machine.Executes host world instr next after) :
    ∃ action, plan (world.pass 1000) machine.begun machine.position instr = .ok action ∧
      perform host action (world.pass 1000) = (.ok next, after) ∧ machine.Fares action next := by
  obtain ⟨action, planned, performed⟩ := execute_eq_ok executes.executed
  refine ⟨action, planned, performed, ?_⟩
  have continues := plan_continues _ _ _ _ action planned
  have running : action.next.status = .running := continues.kept.status.trans executes.running
  rcases perform_ok performed with ⟨stack, rfl⟩ | ⟨isCall, called⟩
  · rcases continues.kept.frames with ⟨kept, _⟩ | left
    · exact .goesOn running rfl kept kept
    · exact .returns running left left
  · cases action with
    | call calling callee args receiver owner =>
        have kept : calling.callers = machine.callers := (continues.called rfl).callers
        cases called with
        | answered value yields native => exact .goesOn running rfl kept kept
        | waits wait yields => exact .waits rfl rfl kept kept
        | entered ref code scope known room =>
            exact .enters running (congrArg (calling.frame :: ·) kept) kept
    | _ => cases isCall

theorem unwind_suffix (frame : Frame) (callers : List Frame) (stack : List Value) :
    (unwind frame callers stack).1 :: (unwind frame callers stack).2.1 <:+ frame :: callers := by
  induction callers generalizing frame stack with
  | nil => exact List.suffix_refl _
  | cons caller callers ih =>
      unfold unwind
      split
      · exact (ih caller _).trans (List.suffix_cons _ _)
      · exact List.suffix_refl _

/-- Functions that have run out of code are left, and those below are as they were. -/
theorem settle_suffix (unfinished : (machine.settle world).machine.status ≠ .finished) :
    (machine.settle world).machine.frame :: (machine.settle world).machine.callers <:+
        machine.frame :: machine.callers ∧
      (machine.settle world).machine.status = machine.status ∧
      (machine.settle world).machine.frame.isDone = false := by
  have suffix := unwind_suffix machine.frame machine.callers machine.stack
  unfold settle at unfinished ⊢
  generalize unwind machine.frame machine.callers machine.stack = unwound at suffix unfinished ⊢
  obtain ⟨frame, callers, stack⟩ := unwound
  dsimp only at suffix unfinished ⊢
  split at unfinished
  · split at unfinished
    · exact absurd rfl unfinished
    · exact absurd rfl unfinished
  · rename_i goesOn
    rw [if_neg goesOn]
    exact ⟨suffix, rfl, eq_false_of_ne_true goesOn⟩

/-- What has become of the frame: it is about to act, or waits, or is below a function that it has
called. -/
inductive Phase (host : Host σ) (outer : List Frame) (first : Frame) (visits : List (Visit σ))
    (machine : Machine) : Prop where
  | acts (active : machine.status = .ready ∨ machine.status = .running)
      (callers : machine.callers = outer) (line : Line host outer first visits machine.frame)
  | waits (waiting : machine.status = .suspended)
      (callers : machine.callers = outer) (line : Line host outer first visits machine.frame)
  | away {saved : Frame} (below : saved :: outer <:+ machine.callers)
      (active : machine.status = .running ∧ machine.frame.isDone = false ∨
        machine.status = .suspended)
      (line : Line host outer first visits saved)

/-- The frame is on top again once the functions above it have been left. -/
theorem Phase.ofSettled (below : saved :: outer <:+ machine.frame :: machine.callers)
    (running : machine.status = .running) (line : Line host outer first visits saved)
    (stands : (machine.settle world).machine.Stands outer) :
    Phase host outer first visits (machine.settle world).machine := by
  obtain ⟨suffix, status, goesOn⟩ := settle_suffix stands.unfinished
  generalize (machine.settle world).machine = settled at suffix status goesOn stands
  have within : saved :: outer <:+ settled.frame :: settled.callers :=
    List.suffix_of_suffix_length_le below suffix (Nat.succ_le_succ stands.deep)
  rcases List.suffix_cons_iff.mp within with same | deeper
  · obtain ⟨rfl, rfl⟩ := List.cons.inj same
    exact .acts (Or.inr (status.trans running)) rfl line
  · exact .away deeper (Or.inl ⟨status.trans running, goesOn⟩) line

/-- A machine that is about to execute an instruction does so. -/
theorem Stands.carriesOut {poll : Poller σ}
    (stands : (machine.step host poll world).machine.Stands outer)
    (active : machine.Active) (unfinished : machine.frame.isDone = false) :
    ∃ instr next after, { machine with status := .running }.Executes host world instr next after ∧
      machine.step host poll world =
        if next.status = .running then next.settle after
        else { machine := next, world := after } := by
  rw [step_of_not_done host poll active.status unfinished] at stands ⊢
  exact stands.advanced rfl active.awake

theorem not_running_of_waiting (waiting : machine.status = .suspended) :
    ¬ machine.status = .running := by
  intro running
  cases waiting.symm.trans running

/-- A machine that waits goes on waiting, or with the result. -/
theorem Stands.wakes {poll : Poller σ} {wait : Wait}
    (stands : (machine.step host poll world).machine.Stands outer) (waits : machine.WaitsFor wait) :
    (machine.step host poll world).machine = machine ∨
      ∃ value later, machine.step host poll world =
        { machine with
          status := .running, wait? := none, stack := value :: machine.stack }.settle later := by
  simp only [Machine.step, waits.status, Machine.resume, waits.wait] at stands ⊢
  generalize attend poll wait world = attended at stands ⊢
  by_cases woken : attended.isWoken wait = true
  · rw [if_pos woken] at stands ⊢
    rcases awaken_cases machine wait.deferred attended with
      ⟨failed, ended⟩ | ⟨value, later, turn⟩
    · rw [if_neg (not_goesOn_of_error failed)] at stands
      exact absurd ended stands.unfinished
    · rw [turn, if_pos (goesOn_iff.mpr ⟨rfl, rfl⟩)]
      exact Or.inr ⟨value, later, rfl⟩
  · rw [if_neg woken]
    dsimp only
    rw [if_neg (waits.not_goesOn attended)]
    exact Or.inl rfl

theorem not_acts_of_waiting (coherent : machine.Coherent) (waiting : machine.status = .suspended) :
    ¬ machine.Acts outer := by
  intro acts
  exact coherent.going acts.2 waiting

/-- What an instruction of the frame makes of it, as long as it stands. -/
theorem Phase.ofActing {poll : Poller σ} (active : machine.Active)
    (callers : machine.callers = outer) (line : Line host outer first visits machine.frame)
    (stood : machine.Stands outer)
    (stands : (machine.step host poll world).machine.Stands outer) :
    Phase host outer first (⟨{ machine with status := .running }, world⟩ :: visits)
      (machine.step host poll world).machine := by
  have top : machine.depth = outer.length := congrArg List.length callers
  obtain ⟨instr, next, after, executes, turn⟩ := stands.carriesOut active (stood.goesOn top)
  rw [turn] at stands ⊢
  obtain ⟨action, planned, -, fares⟩ := executes.fares
  have hands (kept : action.next.callers = machine.callers) :
      Line host outer first (⟨{ machine with status := .running }, world⟩ :: visits)
        action.next.frame :=
    .goesOn line ⟨⟨next, after, executes⟩, planned, callers, kept.trans callers⟩
  cases fares with
  | goesOn running frame same kept =>
      rw [if_pos running] at stands ⊢
      rw [stands.settled (same.trans callers)]
      exact .acts (Or.inr running) (same.trans callers) (frame ▸ hands kept)
  | returns running left back =>
      rw [if_pos running] at stands
      have shallow := stands.shallow
      have deep : machine.callers.length = next.depth + 1 := congrArg List.length back
      rw [callers] at deep
      omega
  | waits waiting frame same kept =>
      rw [if_neg (not_running_of_waiting waiting)]
      exact .waits waiting (same.trans callers) (frame ▸ hands kept)
  | enters running called kept =>
      rw [if_pos running] at stands ⊢
      refine .ofSettled ?_ running (hands kept) stands
      rw [called, ← callers]
      exact List.suffix_cons _ _

/-- Whatever a function that has been called does, the frame below it is saved. -/
theorem Phase.ofAway {poll : Poller σ} (coherent : machine.Coherent)
    (below : saved :: outer <:+ machine.callers)
    (active : machine.status = .running ∧ machine.frame.isDone = false ∨
      machine.status = .suspended)
    (line : Line host outer first visits saved)
    (stands : (machine.step host poll world).machine.Stands outer) :
    Phase host outer first visits (machine.step host poll world).machine := by
  rcases active with ⟨running, unfinished⟩ | waiting
  · obtain ⟨instr, next, after, executes, turn⟩ :=
      stands.carriesOut (coherent.active (Or.inr running)) unfinished
    rw [turn] at stands ⊢
    obtain ⟨action, planned, performed, fares⟩ := executes.fares
    have under : { machine with status := .running }.callers = machine.callers := rfl
    cases fares with
    | goesOn running frame same kept =>
        rw [if_pos running] at stands ⊢
        rw [← under, ← same] at below
        exact .ofSettled (below.trans (List.suffix_cons _ _)) running line stands
    | returns running left back =>
        rw [if_pos running] at stands ⊢
        rw [← under, back] at below
        exact .ofSettled below running line stands
    | waits waiting frame same kept =>
        rw [if_neg (not_running_of_waiting waiting)]
        rw [← under, ← same] at below
        exact .away below (Or.inr waiting) line
    | enters running called kept =>
        rw [if_pos running] at stands ⊢
        have deeper : saved :: outer <:+ next.callers := by
          rw [called]
          exact below.trans (List.suffix_cons _ _)
        exact .ofSettled (deeper.trans (List.suffix_cons _ _)) running line stands
  · obtain ⟨wait, waits⟩ := coherent.waits waiting
    rcases stands.wakes waits with same | ⟨value, later, turn⟩
    · rw [same]
      exact .away below (Or.inr waiting) line
    · rw [turn] at stands ⊢
      exact .ofSettled (below.trans (List.suffix_cons _ _)) rfl line stands

theorem Phase.step (phase : Phase host outer first visits machine) (coherent : machine.Coherent)
    (stood : machine.Stands outer) (poll : Poller σ)
    (stands : (machine.step host poll world).machine.Stands outer) :
    Phase host outer first (machine.noted outer world visits)
      (machine.step host poll world).machine := by
  cases phase with
  | acts active callers line =>
      have active := coherent.active active
      rw [noted, if_pos ⟨congrArg List.length callers, active.awake⟩]
      exact .ofActing active callers line stood stands
  | waits waiting callers line =>
      obtain ⟨wait, waits⟩ := coherent.waits waiting
      rw [noted, if_neg (not_acts_of_waiting coherent waiting)]
      rcases stands.wakes waits with same | ⟨value, later, turn⟩
      · rw [same]
        exact .waits waiting callers line
      · rw [turn] at stands ⊢
        rw [stands.settled callers]
        exact .acts (Or.inr rfl) callers line
  | @away saved below active line =>
      have deep : outer.length < machine.depth := below.length_le
      rw [noted, if_neg fun acts => Nat.ne_of_gt deep acts.1]
      exact .ofAway coherent below active line stands

/-- What can come of a frame above `outer` while it stands, with the instructions that it has begun,
the last one first: step by step, whatever is called; a burst may end, and the world may become
another at any time. -/
inductive Tenure (host : Host σ) (outer : List Frame) (first : Machine) (initial : World σ) :
    List (Visit σ) → Machine → World σ → Prop where
  | start : Tenure host outer first initial [] first initial
  | step {visits : List (Visit σ)} {machine : Machine} {world : World σ}
      (before : Tenure host outer first initial visits machine world) (poll : Poller σ)
      (stands : (machine.step host poll world).machine.Stands outer) :
      Tenure host outer first initial (machine.noted outer world visits)
        (machine.step host poll world).machine (machine.step host poll world).world
  | yielded {visits : List (Visit σ)} {machine : Machine} {world : World σ}
      (before : Tenure host outer first initial visits machine world) :
      Tenure host outer first initial visits { machine with yieldRequested := false } world
  | change {visits : List (Visit σ)} {machine : Machine} {world : World σ}
      (before : Tenure host outer first initial visits machine world) (after : World σ) :
      Tenure host outer first initial visits machine after

/-- A step that is known. -/
theorem Tenure.goesOn {first : Machine} {initial : World σ} {error : Option ScriptError}
    (before : Tenure host outer first initial visits machine world) (poll : Poller σ)
    (stepped : machine.step host poll world = ⟨next, after, error⟩) (stands : next.Stands outer) :
    Tenure host outer first initial (machine.noted outer world visits) next after := by
  have known := before.step poll
  rw [stepped] at known
  exact known stands

theorem Journey.tenure {first : Machine} {initial : World σ}
    (journey : Journey host outer first initial visits machine world) :
    Tenure host outer first initial visits machine world := by
  induction journey with
  | start => exact .start
  | step before poll enters stands ih => exact ih.step poll stands
  | yielded before ih => exact ih.yielded
  | change before after ih => exact ih.change after

theorem Tenure.stands {first : Machine} {initial : World σ}
    (tenure : Tenure host outer first initial visits machine world)
    (begins : first.Stands outer) : machine.Stands outer := by
  induction tenure with
  | start => exact begins
  | step before poll stands ih => exact stands
  | yielded before ih => exact ⟨ih.unfinished, ih.deep, ih.goesOn⟩
  | change before after ih => exact ih

theorem Tenure.coherent {first : Machine} {initial : World σ}
    (tenure : Tenure host outer first initial visits machine world)
    (coherent : first.Coherent) : machine.Coherent := by
  induction tenure with
  | start => exact coherent
  | step before poll stands ih => exact step_coherent poll ih _
  | yielded before ih => exact ih
  | change before after ih => exact ih

theorem Tenure.phase {first : Machine} {initial : World σ}
    (tenure : Tenure host outer first initial visits machine world) (begins : first.Stands outer)
    (active : first.Active) (callers : first.callers = outer) :
    Phase host outer first.frame visits machine := by
  induction tenure with
  | start => exact .acts active.status callers .start
  | step before poll stands ih =>
      exact ih.step (before.coherent (.ofActive active)) (before.stands begins) poll stands
  | yielded before ih =>
      cases ih with
      | acts active callers line => exact .acts active callers line
      | waits waiting callers line => exact .waits waiting callers line
      | away below active line => exact .away below active line
  | change before after ih => exact ih

/-- Whatever happens in between, the frame goes on as it was left. -/
theorem Tenure.line {first : Machine} {initial : World σ}
    (tenure : Tenure host outer first initial visits machine world) (begins : first.Stands outer)
    (active : first.Active) (callers : first.callers = outer) (acts : machine.Acts outer) :
    machine.callers = outer ∧ Line host outer first.frame visits machine.frame := by
  cases tenure.phase begins active callers with
  | acts _ callers line => exact ⟨callers, line⟩
  | waits waiting =>
      exact absurd acts (not_acts_of_waiting (tenure.coherent (.ofActive active)) waiting)
  | away below =>
      have deep : outer.length < machine.depth := below.length_le
      exact absurd acts.1 (Nat.ne_of_gt deep)

end Machine

end MiniScript
