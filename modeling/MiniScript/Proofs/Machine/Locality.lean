import MiniScript.Proofs.Machine.Confinement
import MiniScript.Proofs.Machine.Run

/-!
# Assignment is local

An interpreter runs programs that name no scope and that call built-in functions and
discreet natives alone. Then the variables of a scope change only when an assignment or
a turn of a loop is executed while that scope is the current one. A call begins with a
scope of its own, which holds the parameters, `self` and `super`; so nothing that is
called ever changes a variable of its caller, or of a scope around it.
-/

namespace MiniScript

variable {σ : Type}

/-- A request that executes no instruction. -/
def Request.isPassive : Request → Bool
  | .resume | .pause | .stop => true
  | .step | .cycles _ | .burst => false

namespace Fleet

/-- One event in the life of a fleet that runs programs without `PushScope`. It is labelled with the
scope whose variables may be assigned to. Code comes from the compiler, so its constants are
literals. -/
inductive Move (host : Host σ) (outside : World σ → World σ → Prop) :
    Option ScopeRef → Fleet σ → Fleet σ → Prop where
  | define (machines : List Machine) {world : World σ} {sourceName : Option String}
      {stmts : List Stmt} {code : Code} {functions : Array Definition}
      (compiled : Compiler.compileProgram sourceName stmts world.heap.functions =
        .ok (code, functions))
      (unscoped : ∀ definition ∈ functions, definition.body.NamesNoScope) :
      Move host outside none ⟨machines, world⟩
        ⟨machines, world.modifyHeap fun heap => { heap with functions }⟩
  | spawn (machines : List Machine) (world : World σ) {code : Code} {scope : ScopeRef}
      (discreet : code.IsDiscreet) (has : world.heap.HasScope scope) :
      Move host outside none ⟨machines, world⟩ ⟨.start code scope :: machines, world⟩
  | step (before : List Machine) (machine : Machine) (after : List Machine) (world : World σ)
      (calls : machine.CallsDiscreetly host world) :
      Move host outside (machine.writer? world) ⟨before ++ machine :: after, world⟩
        ⟨before ++ (machine.stepOnce host world).machine :: after,
          (machine.stepOnce host world).world⟩
  | serve (before : List Machine) (machine : Machine) (after : List Machine) (world : World σ)
      (request : Request) (passive : request.isPassive = true) :
      Move host outside none ⟨before ++ machine :: after, world⟩
        ⟨before ++ (machine.serve host world request).machine :: after,
          (machine.serve host world request).world⟩
  /-- The request of a `yield` has been heard. -/
  | hear (before : List Machine) (machine : Machine) (after : List Machine) (world : World σ) :
      Move host outside none ⟨before ++ machine :: after, world⟩
        ⟨before ++ { machine with yieldRequested := false } :: after, world⟩
  | drop (before : List Machine) (machine : Machine) (after : List Machine) (world : World σ) :
      Move host outside none ⟨before ++ machine :: after, world⟩
        ⟨before ++ after, world.release machine⟩
  | change (machines : List Machine) {world later : World σ} (changed : outside world later) :
      Move host outside none ⟨machines, world⟩ ⟨machines, later⟩

/-- Any number of events. -/
abbrev Life (host : Host σ) (outside : World σ → World σ → Prop) : Fleet σ → Fleet σ → Prop :=
  Relation.ReflTransGen fun fleet next => ∃ writer, Move host outside writer fleet next

/-- Any number of events, none of which may assign to a variable of the scope. -/
abbrev Spares (host : Host σ) (outside : World σ → World σ → Prop) (scope : ScopeRef) :
    Fleet σ → Fleet σ → Prop :=
  Relation.ReflTransGen fun fleet next =>
    ∃ writer, writer ≠ some scope ∧ Move host outside writer fleet next

/-- The world gives no scope away, and the machines reach no scope but their own. -/
structure Secluded (fleet : Fleet σ) : Prop where
  world : fleet.world.Secluded
  machines : ∀ machine ∈ fleet.machines, machine.Secluded fleet.world.heap

end Fleet

/-- What the compiler makes of a program that names no scope is discreet. -/
theorem Compiler.compileProgram_isDiscreet {sourceName : Option String} {stmts : List Stmt}
    {code : Code} {functions result : Array Definition}
    (compiled : compileProgram sourceName stmts functions = .ok (code, result))
    (unscoped : code.NamesNoScope) : code.IsDiscreet :=
  ⟨unscoped, (compileProgram_literal compiled).1⟩

namespace Fleet

section

variable {host : Host σ} {outside : World σ → World σ → Prop} {fleet next : Fleet σ}
variable {writer : Option ScopeRef}

/-- A machine takes a turn while the others stay as they are. -/
theorem Secluded.turn {before after : List Machine} {machine : Machine} {world : World σ}
    {turn : Turn σ} (secluded : Secluded ⟨before ++ machine :: after, world⟩)
    (confined : Turn.Confined writer world turn) :
    Secluded ⟨before ++ turn.machine :: after, turn.world⟩ := by
  obtain ⟨front, rest⟩ := List.forall_mem_append.mp secluded.machines
  obtain ⟨_, back⟩ := List.forall_mem_cons.mp rest
  have confines := confined.world.confines
  refine ⟨confined.world.secluded, List.forall_mem_append.mpr ⟨fun other member => ?_,
    List.forall_mem_cons.mpr ⟨confined.machine, fun other member => ?_⟩⟩⟩
  · exact (front other member).later confines
  · exact (back other member).later confines

theorem Secluded.member {before after : List Machine} {machine : Machine} {world : World σ}
    (secluded : Secluded ⟨before ++ machine :: after, world⟩) : machine.Secluded world.heap :=
  secluded.machines machine (List.mem_append_right before List.mem_cons_self)

theorem serve_confined (reserved : host.IsReserved) {world : World σ} {machine : Machine}
    (known : world.Secluded) (secluded : machine.Secluded world.heap) {request : Request}
    (passive : request.isPassive = true) :
    Turn.Confined none world (machine.serve host world request) := by
  cases request with
  | resume => exact Machine.resume_confined known secluded reserved
  | pause => exact Machine.pause_confined known secluded
  | stop => exact Machine.stop_confined known secluded
  | step | cycles | burst => cases passive

/-- Every event leaves the fleet secluded, and the variables of all scopes but one as they were. -/
theorem Move.confined (reserved : host.IsReserved)
    (discreet : ∀ before after, outside before after → before.Secluded →
      before.StaysSecluded none after)
    (move : Move host outside writer fleet next) (secluded : fleet.Secluded) :
    next.Secluded ∧ fleet.world.heap.Confines writer next.world.heap := by
  cases move with
  | define machines compiled unscoped =>
      rename_i world sourceName stmts code functions
      have constants := (Compiler.compileProgram_literal compiled).2
      have defined : world.StaysSecluded none
          (world.modifyHeap fun heap => { heap with functions }) := by
        refine secluded.world.modifyHeap (.ofMaps rfl rfl) ?_
        refine secluded.world.heap.withFunctions fun definition member => ?_
        refine (constants definition member).imp_right fun literal => ⟨fun param among => ?_, ?_⟩
        · exact .ofLiteral (literal.defaults param among)
        · intro code script
          have own := unscoped definition member
          rw [script] at own
          exact ⟨own, literal.constants code script⟩
      refine ⟨⟨defined.secluded, fun machine member => ?_⟩, defined.confines⟩
      exact (secluded.machines machine member).later defined.confines
  | spawn machines world code has =>
      have started : (Machine.start _ _).Secluded world.heap :=
        ⟨⟨code, has, nofun⟩, nofun, nofun, List.nodup_singleton _⟩
      exact ⟨⟨secluded.world, List.forall_mem_cons.mpr ⟨started, secluded.machines⟩⟩, .refl _⟩
  | step before machine after world calls =>
      have confined :=
        Machine.stepOnce_confined reserved secluded.world secluded.member calls
      exact ⟨secluded.turn confined, confined.world.confines⟩
  | serve before machine after world request passive =>
      have confined := serve_confined reserved secluded.world secluded.member passive
      exact ⟨secluded.turn confined, confined.world.confines⟩
  | hear before machine after world =>
      have confined : Turn.Confined none world
          { machine := { machine with yieldRequested := false }, world } :=
        ⟨secluded.world.refl, secluded.member.noted _ _ _ _⟩
      exact ⟨secluded.turn confined, .refl _⟩
  | drop before machine after world =>
      have released : world.StaysSecluded none (world.release machine) :=
        secluded.world.release machine
      obtain ⟨front, rest⟩ := List.forall_mem_append.mp secluded.machines
      obtain ⟨_, back⟩ := List.forall_mem_cons.mp rest
      refine ⟨⟨released.secluded, List.forall_mem_append.mpr ⟨fun other member => ?_,
        fun other member => ?_⟩⟩, released.confines⟩
      · exact (front other member).later released.confines
      · exact (back other member).later released.confines
  | change machines changed =>
      have stays := discreet _ _ changed secluded.world
      exact ⟨⟨stays.secluded, fun machine member =>
        (secluded.machines machine member).later stays.confines⟩, stays.confines⟩

end

end Fleet

/-! ## One step -/

namespace Heap

/-- The second scope lies inside the first one, perhaps with others in between. -/
abbrev Encloses (heap : Heap) : ScopeRef → ScopeRef → Prop :=
  Relation.TransGen fun outer inner => (heap.scopeAt inner).parent = some outer

theorem Layered.encloses_lt {heap : Heap} (layered : heap.Layered) {outer inner : ScopeRef}
    (has : heap.HasScope inner) (encloses : heap.Encloses outer inner) :
    outer.index < inner.index := by
  induction encloses with
  | single around => exact layered.parent _ _ has around
  | tail further around ih =>
      have less := layered.parent _ _ has around
      exact Nat.lt_trans (ih (Nat.lt_trans less has)) less

end Heap

namespace Machine

/-- The next step executes an assignment or a turn of a loop while `scope` is the current one. -/
structure Assigns (machine : Machine) (world : World σ) (scope : ScopeRef) : Prop where
  awake : machine.status = .ready ∨ machine.status = .running
  current : (machine.poised world).frame.scope = scope
  instr : ∃ instr,
    (machine.poised world).frame.code.instrs[(machine.poised world).position]? = some instr ∧
      (instr.op = .assignVar ∨ instr.op = .iterateForLoop)

/-- The next step begins a script function whose scope will lie inside `parent`, with the variables
that the call binds. -/
inductive BeginsCall (machine : Machine) (world : World σ) (parent : ScopeRef)
    (vars : List (String × Value)) : Prop where
  | call {next : Machine} {closure : Closure} {args bound : List Value}
      {receiver : Option Value} {owner : Option MapRef} {code : Code}
      (awake : machine.status = .ready ∨ machine.status = .running)
      (running : (machine.poised world).status = .running)
      (acts : (machine.poised world).action? world =
        some (.call next (.function closure) args receiver owner))
      (script : (world.heap.definition closure.definition).body = .script code)
      (binds : bindArguments (world.heap.definition closure.definition) args receiver = .ok bound)
      (room : next.depth < world.limits.maxCallDepth)
      (around : closure.outer.getD world.globals = parent)
      (bindings : callVars world.heap (world.heap.definition closure.definition) bound receiver
        owner = vars)

variable {host : Host σ} {world : World σ} {machine : Machine} {scope : ScopeRef}

theorem assigns_of_writer? (writes : machine.writer? world = some scope) :
    machine.Assigns world scope := by
  have assigns (awake : machine.status = .ready ∨ machine.status = .running)
      (writes : (if (machine.poised world).status = .running then (machine.poised world).assigns?
        else none) = some scope) : machine.Assigns world scope := by
    split at writes
    · obtain ⟨instr, fetched, own⟩ := Option.bind_eq_some_iff.mp writes
      unfold Instr.writer? at own
      split at own
      · rename_i op
        exact ⟨awake, Option.some.inj own, instr, fetched, .inl op⟩
      · rename_i op
        exact ⟨awake, Option.some.inj own, instr, fetched, .inr op⟩
      · cases own
    · cases writes
  unfold writer? at writes
  split at writes
  · rename_i ready
    exact assigns (.inl ready) writes
  · rename_i running
    exact assigns (.inr running) writes
  · cases writes

/-- The call adds a scope, and nothing else, to the heap. -/
theorem stepOnce_beginsCall {parent : ScopeRef} {vars : List (String × Value)}
    (begins : machine.BeginsCall world parent vars) :
    (machine.stepOnce host world).world.heap =
      world.heap.addScope (some parent) (.ofNames vars) := by
  cases begins with
  | call awake running acts script binds room around bindings =>
      rename_i next closure args bound receiver owner code
      subst around
      subst bindings
      obtain ⟨instr, fetched, planned⟩ := action?_eq_some acts
      have again : plan (world.pass 1000) (machine.poised world).begun
          (machine.poised world).position instr =
            .ok (.call next (.function closure) args receiver owner) := planned
      have same : (world.pass 1000).heap = world.heap := rfl
      have space : ¬ (world.pass 1000).limits.maxCallDepth ≤ next.depth := Nat.not_le_of_lt room
      have stepped : machine.stepOnce host world = (machine.poised world).advance host world :=
        step_of_running host _ awake running
      rw [stepped, advance_eq]
      rw [position] at fetched again
      rw [fetched]
      simp only [execute_eq, again, perform, Machine.call, same, binds, invoke, script, enter,
        if_neg space]
      split
      · rw [heap_settle]
        rfl
      · rfl

/-- What a step does to the variables of scopes: only those of the current one may have changed, by
an assignment or a turn of a loop; those of the callers and of the scopes around the current one
have not. A function that is entered begins with the variables that the call binds. -/
structure StepsLocally (host : Host σ) (machine : Machine) (world : World σ) : Prop where
  assigned : ∀ scope, world.heap.HasScope scope →
    (machine.stepOnce host world).world.heap.bindings scope ≠ world.heap.bindings scope →
      machine.Assigns world scope
  callers : ∀ frame ∈ (machine.poised world).callers,
    (machine.stepOnce host world).world.heap.bindings frame.scope =
      world.heap.bindings frame.scope
  enclosing : ∀ scope, world.heap.Encloses scope (machine.poised world).frame.scope →
    (machine.stepOnce host world).world.heap.bindings scope = world.heap.bindings scope
  created : ∀ parent vars, machine.BeginsCall world parent vars →
    (machine.stepOnce host world).world.heap.scopeAt world.heap.nextScope =
        ⟨⟨world.heap.maps.size⟩, some parent⟩ ∧
      (machine.stepOnce host world).world.heap.bindings world.heap.nextScope =
        (MapObject.ofNames vars).entries

theorem stepsLocally (reserved : host.IsReserved) (known : world.Secluded)
    (secluded : machine.Secluded world.heap) (calls : machine.CallsDiscreetly host world) :
    machine.StepsLocally host world := by
  have confined := stepOnce_confined reserved known secluded calls
  have unassigned {scope : ScopeRef} (has : world.heap.HasScope scope)
      (elsewhere : (machine.poised world).frame.scope ≠ scope) :
      (machine.stepOnce host world).world.heap.bindings scope = world.heap.bindings scope :=
    confined.world.confines.bindings scope has fun writes =>
      elsewhere (assigns_of_writer? writes).current
  have poised : (machine.poised world).Secluded world.heap := by
    have settled : Turn.Confined none world ({ machine with status := .running }.settle world) :=
      settle_confined known (secluded.noted _ _ _ _)
    have own := settled.machine
    rwa [heap_settle] at own
  refine ⟨fun scope has differs => ?_, fun frame saved => ?_, fun scope encloses => ?_,
    fun parent vars begins => ?_⟩
  · by_cases writes : machine.writer? world = some scope
    · exact assigns_of_writer? writes
    · exact absurd (confined.world.confines.bindings scope has writes) differs
  · refine unassigned (poised.callers frame saved).scope fun same => ?_
    have apart := poised.apart
    rw [List.map_cons, List.nodup_cons] at apart
    exact apart.1 (List.mem_map.mpr ⟨frame, saved, same.symm⟩)
  · have has := poised.frame.scope
    have less := known.heap.layered.encloses_lt has encloses
    exact unassigned (Nat.lt_trans less has) fun same => absurd (congrArg ScopeRef.index same)
      (Nat.ne_of_gt less)
  · rw [stepOnce_beginsCall begins]
    refine ⟨Heap.scopeAt_nextScope _ _ world.heap, ?_⟩
    rw [Heap.bindings, Heap.vars, Heap.scopeAt_nextScope]
    exact congrArg MapObject.entries (world.heap.mapAt_newMap (.ofNames vars))

end Machine

/-! ## Runs -/

namespace Fleet

variable {host : Host σ} {outside : World σ → World σ → Prop} {fleet : Fleet σ}
  (reserved : host.IsReserved)
  (discreet : ∀ before after, outside before after → before.Secluded →
    before.StaysSecluded none after)

include reserved discreet

theorem Life.secluded {first : Fleet σ} (life : Life host outside first fleet)
    (secluded : first.Secluded) : fleet.Secluded := by
  induction life with
  | refl => exact secluded
  | tail _ moved ih =>
      obtain ⟨writer, move⟩ := moved
      exact (move.confined reserved discreet ih).1

/-- As long as nothing is assigned in a scope, its variables stay as they are. -/
theorem Spares.bindings {later : Fleet σ} {scope : ScopeRef} (secluded : fleet.Secluded)
    (has : fleet.world.heap.HasScope scope) (spares : Spares host outside scope fleet later) :
    later.Secluded ∧ later.world.heap.HasScope scope ∧
      later.world.heap.bindings scope = fleet.world.heap.bindings scope := by
  induction spares with
  | refl => exact ⟨secluded, has, rfl⟩
  | tail _ moved ih =>
      obtain ⟨writer, other, move⟩ := moved
      obtain ⟨between, still, same⟩ := ih
      obtain ⟨after, confines⟩ := move.confined reserved discreet between
      exact ⟨after, confines.hasScope still, (confines.bindings scope still other).trans same⟩

/-- In the life of a fleet that begins in a fresh world, the variables of a scope change only at a
step that is an assignment or a turn of a loop with that scope as the current one; over any stretch
without such a step they are the same. No step changes the variables of a caller or of a scope
around the current one, and the variables of a call begin as what the call binds. -/
theorem assignment_is_local {limits : Limits} {state : σ}
    (life : Life host outside ⟨[], .initial limits state⟩ fleet) :
    (∀ scope later, fleet.world.heap.HasScope scope → Spares host outside scope fleet later →
      later.world.heap.bindings scope = fleet.world.heap.bindings scope) ∧
    (∀ scope writer next, fleet.world.heap.HasScope scope → Move host outside writer fleet next →
      next.world.heap.bindings scope ≠ fleet.world.heap.bindings scope →
        writer = some scope ∧ ∃ machine ∈ fleet.machines,
          next.world = (machine.stepOnce host fleet.world).world ∧
            machine.Assigns fleet.world scope) ∧
    ∀ machine ∈ fleet.machines, machine.CallsDiscreetly host fleet.world →
      machine.StepsLocally host fleet.world := by
  have start : Secluded ⟨[], World.initial limits state⟩ :=
    ⟨World.initial_secluded limits state, nofun⟩
  have secluded := Life.secluded reserved discreet life start
  refine ⟨fun scope later has spares => ?_, fun scope writer next has move differs => ?_,
    fun machine member calls => ?_⟩
  · exact (Spares.bindings reserved discreet secluded has spares).2.2
  · have confines := (move.confined reserved discreet secluded).2
    by_cases writes : writer = some scope
    · refine ⟨writes, ?_⟩
      cases move with
      | step before machine after world calls =>
          exact ⟨machine, List.mem_append_right before List.mem_cons_self, rfl,
            Machine.assigns_of_writer? writes⟩
      | _ => cases writes
    · exact absurd (confines.bindings scope has writes) differs
  · exact Machine.stepsLocally reserved secluded.world (secluded.machines machine member) calls

end Fleet

/-! ## A run -/

/-- All calls in the next steps of a machine, at most `budget` of them, are discreet. -/
def Machine.KeepsDiscreet (host : Host σ) : Nat → Machine → World σ → Prop
  | 0, _, _ => True
  | budget + 1, machine, world =>
      machine.CallsDiscreetly host world ∧
        KeepsDiscreet host budget (machine.stepOnce host world).machine
          (machine.stepOnce host world).world

/-- A number of cycles, and so every burst, is a sequence of such events. -/
theorem Fleet.Life.cycles {host : Host σ} {outside : World σ → World σ → Prop} {budget : Nat}
    {before after : List Machine} {machine : Machine} {world : World σ}
    (keeps : machine.KeepsDiscreet host budget world) :
    Life host outside ⟨before ++ machine :: after, world⟩
      ⟨before ++ (machine.cycles host budget world).machine :: after,
        (machine.cycles host budget world).world⟩ := by
  induction budget generalizing machine world with
  | zero => exact .refl
  | succ budget ih =>
      obtain ⟨calls, rest⟩ := keeps
      have stepped : Life host outside ⟨before ++ machine :: after, world⟩
          ⟨before ++ (machine.stepOnce host world).machine :: after,
            (machine.stepOnce host world).world⟩ :=
        .single ⟨_, .step before machine after world calls⟩
      have further := ih rest
      unfold Machine.cycles Machine.runCycles
      dsimp only
      split
      · split
        · exact stepped.tail ⟨none, .hear before _ after _⟩
        · exact stepped.trans further
      · exact stepped

theorem Host.silent_isReserved : (Host.silent : Host σ).IsReserved where
  poll _ _ known := ⟨known.refl, by rintro value ⟨⟩; trivial⟩
  intercept _ _ _ _ known _ _ := known.refl

/-- A variable is assigned, and then a function is called that assigns to that name too. -/
def Stmt.shadowing : List Stmt :=
  let x : Expr := .name ⟨"x", default, 0⟩
  let f : Expr := .name ⟨"f", default, 1⟩
  [.assign 2 x none (.text "a" default 3),
    .assign 4 f none (.function default 5 [] [.assign 6 x none (.text "b" default 7)]),
    .expr 8 f]

/-- The code of that program, with all functions. -/
def Code.shadowing : Code × Array Definition :=
  match Compiler.compileProgram none Stmt.shadowing (World.initial {} ()).heap.functions with
  | .ok compiled => compiled
  | .error _ => default

theorem Code.shadowing_compiled :
    Compiler.compileProgram none Stmt.shadowing (World.initial {} ()).heap.functions =
      .ok Code.shadowing := rfl

def World.shadowing : World Unit :=
  (World.initial {} ()).modifyHeap fun heap => { heap with functions := Code.shadowing.2 }

/-- The function has been called and is about to assign. -/
def Turn.shadowing : Turn Unit :=
  (Machine.start Code.shadowing.1 ⟨0⟩).cycles .silent 6 World.shadowing

/-- It has assigned. -/
def Heap.shadowed : Heap :=
  (Turn.shadowing.machine.stepOnce .silent Turn.shadowing.world).world.heap

def Value.text? : Value → Option String
  | .text content => some content
  | _ => none

theorem Value.eq_text_of_text? {found : Option Value} {content : String}
    (known : found.bind Value.text? = some content) : found = some (.text content) := by
  obtain ⟨value, rfl, same⟩ := Option.bind_eq_some_iff.mp known
  cases value with
  | text other =>
      cases same
      rfl
  | _ => cases same

/-- The function assigns to a variable of its own, and that of its caller is left alone. -/
theorem Fleet.callee_assigns_its_own_variable :
    let turn := (Machine.start Code.shadowing.1 ⟨0⟩).cycles .silent 6 World.shadowing
    let next := turn.machine.stepOnce .silent turn.world
    turn.machine.Assigns turn.world ⟨1⟩ ∧
      next.world.heap.getLocal? ⟨1⟩ "x" = some (.text "b") ∧
      next.world.heap.getLocal? ⟨0⟩ "x" = some (.text "a") ∧
      next.world.heap.bindings ⟨0⟩ = turn.world.heap.bindings ⟨0⟩ := by
  have own : (Heap.shadowed.getLocal? ⟨1⟩ "x").bind Value.text? = some "b" := by decide +kernel
  have outer : (Heap.shadowed.getLocal? ⟨0⟩ "x").bind Value.text? = some "a" := by decide +kernel
  intro turn next
  have quiet {machine : Machine} {world : World Unit} (calls : machine.native? world = none) :
      machine.CallsDiscreetly .silent world := fun _ _ some => nomatch calls.symm.trans some
  have discreet : Code.shadowing.1.IsDiscreet :=
    Compiler.compileProgram_isDiscreet Code.shadowing_compiled (by decide)
  have keeps : (Machine.start Code.shadowing.1 ⟨0⟩).KeepsDiscreet .silent 6 World.shadowing :=
    ⟨quiet rfl, quiet rfl, quiet rfl, quiet rfl, quiet rfl, quiet rfl, trivial⟩
  have defined : Life .silent Eq ⟨[], World.initial {} ()⟩ ⟨[], World.shadowing⟩ :=
    .single ⟨none, .define [] Code.shadowing_compiled (by decide)⟩
  have spawned : Life .silent Eq ⟨[], World.initial {} ()⟩
      ⟨[.start Code.shadowing.1 ⟨0⟩], World.shadowing⟩ :=
    defined.tail ⟨none, .spawn [] World.shadowing discreet Nat.zero_lt_one⟩
  have life : Life .silent Eq ⟨[], World.initial {} ()⟩ ⟨[turn.machine], turn.world⟩ :=
    spawned.trans (@Life.cycles Unit .silent Eq 6 [] [] _ _ keeps)
  have outside (before after : World Unit) (same : before = after) (known : before.Secluded) :
      before.StaysSecluded none after := same ▸ known.refl
  obtain ⟨_, _, steps⟩ := assignment_is_local Host.silent_isReserved outside life
  have steps := steps turn.machine List.mem_cons_self (quiet rfl)
  refine ⟨Machine.assigns_of_writer? rfl, Value.eq_text_of_text? own, Value.eq_text_of_text? outer,
    ?_⟩
  exact steps.callers { code := Code.shadowing.1, position := 5, scope := ⟨0⟩ } List.mem_cons_self

end MiniScript
