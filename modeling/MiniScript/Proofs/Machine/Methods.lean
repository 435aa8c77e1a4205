import Mathlib.Logic.Relation
import MiniScript.Proofs.Heap.Names
import MiniScript.Proofs.Machine.Returning
import MiniScript.Proofs.Machine.Standing

/-!
# Methods and their ancestors

A method is found in a map or in one of its ancestors. The function that is entered
sees the receiver as `self`, and as `super` the parent of the map that the method was
found in, so what it calls on `super` is found further up. Where that map has no
parent no `super` is bound, and the name means what it means around the function: a
function that was made inside of a method still sees the ancestors of that one.
-/

namespace MiniScript

variable {σ : Type}

namespace Heap

/-- The second map is the first one or an ancestor of it. -/
abbrev Inherits (heap : Heap) : MapRef → MapRef → Prop :=
  Relation.ReflTransGen fun map parent => heap.isaParent? map = some parent

/-- What is found in a map and its ancestors belongs to one of them. -/
theorem lookupInChain_found {heap : Heap} {key : Value} {whole limit : Nat} {map : MapRef}
    {member : Member} (found : heap.lookupInChain key whole limit map = .ok (some member)) :
    ∃ owner, member.owner = some owner ∧ heap.Inherits map owner ∧
      heap.get? owner key = some member.value := by
  induction limit generalizing map with
  | zero =>
      unfold lookupInChain at found
      split at found
      · rename_i value there
        cases found
        exact ⟨map, rfl, .refl, there⟩
      · split at found
        · cases found
        · cases found
  | succ limit ih =>
      unfold lookupInChain at found
      split at found
      · rename_i value there
        cases found
        exact ⟨map, rfl, .refl, there⟩
      · split at found
        · cases found
        · rename_i parent isParent
          obtain ⟨owner, owned, inherits, there⟩ := ih found
          exact ⟨owner, owned, .head isParent inherits, there⟩

end Heap

/-- A member that has an owner is one of a map or of its ancestors. -/
theorem World.member_found {world : World σ} {subject key value : Value} {owner : MapRef}
    (found : world.member subject key = .ok ⟨value, some owner⟩) :
    ∃ map, subject = .map map ∧ world.heap.Inherits map owner ∧
      world.heap.get? owner key = some value := by
  have core (kind : Kind) : world.coreMember kind key ≠ .ok ⟨value, some owner⟩ := by
    unfold coreMember
    split <;> exact nofun
  cases subject with
  | map map =>
      refine ⟨map, rfl, ?_⟩
      unfold member at found
      dsimp only at found
      cases chain : world.heap.lookupInChain key world.limits.maxIsaDepth
          world.limits.maxIsaDepth map with
      | error fault =>
          rw [chain] at found
          cases found
      | ok result =>
          rw [chain] at found
          cases result with
          | none => exact absurd found (core .map)
          | some member =>
              cases found
              obtain ⟨_, ⟨⟩, inherits, there⟩ := Heap.lookupInChain_found chain
              exact ⟨inherits, there⟩
  | null => cases found
  | number => exact absurd found (core .number)
  | function => exact absurd found (core .function)
  | list list =>
      unfold member at found
      dsimp only at found
      split at found
      · rename_i index
        cases place : Sequence.position index (world.heap.items list).size with
        | error fault => rw [place] at found; cases found
        | ok place' => rw [place] at found; cases found
      · exact absurd found (core .list)
  | text text =>
      unfold member at found
      dsimp only at found
      split at found
      · rename_i index
        cases place : Sequence.position index text.toList.length with
        | error fault => rw [place] at found; cases found
        | ok place' => rw [place] at found; cases found
      · exact absurd found (core .text)

namespace Machine

variable {host : Host σ} {world : World σ} {machine : Machine} {instr : Instr}

/-- The next instruction calls a function that it has found as a method in `owner`. -/
def CallsMethod (machine : Machine) (world : World σ) (instr : Instr) (callee : Closure)
    (receiver : Option Value) (owner : MapRef) : Prop :=
  ∃ next args, plan (world.pass 1000) machine.begun machine.position instr =
    .ok (.call next (.function callee) args receiver (some owner))

/-- Where a method comes from: the operand that it is called on or `super`, which is a map that has
or inherits it. The receiver is that operand, or the receiver of the caller. -/
inductive MethodSource (heap : Heap) (scope : ScopeRef) (op : Opcode) (callee : Value)
    (receiver : Option Value) (owner : MapRef) : Prop where
  | operand {map : MapRef} {key : Value} (isIndex : op = .callIndex)
      (inherits : heap.Inherits map owner) (found : heap.get? owner key = some callee)
      (called : receiver = some (.map map))
  | inherited {map : MapRef} {key : Value} (isSuper : op = .callSuper)
      (parent : heap.lookup? scope superName = some (.map map))
      (inherits : heap.Inherits map owner) (found : heap.get? owner key = some callee)
      (called : receiver = heap.lookup? scope selfName)

theorem orFault_eq_ok {α : Type} {outcome : Except Fault α} {value : α}
    (fine : orFault outcome = .ok value) : outcome = .ok value := by
  cases outcome with
  | ok other =>
      cases fine
      rfl
  | error fault => cases fine

/-- A call that has an owner is a call of a method. -/
theorem plan_method (world : World σ) (machine : Machine) (position : Nat) (instr : Instr) :
    Ensures (fun action => ∀ {next callee args receiver owner},
        action = .call next callee args receiver (some owner) →
          MethodSource world.heap machine.frame.scope instr.op callee receiver owner)
      (plan world machine position instr) := by
  obtain ⟨op, first, second⟩ := instr
  have isCall (action : Action) (planned : plan world machine position ⟨op, first, second⟩ =
      .ok action) := plan_calls world machine position ⟨op, first, second⟩ action planned
  cases op with
  | callVar =>
      exact .skip fun _ => .skip fun _ => .skip fun _ => .skip fun _ => .ok nofun
  | callValue => exact .skip fun _ => .skip fun _ => .skip fun _ => .ok nofun
  | callIndex =>
      refine .skip fun count => .skip fun ⟨args, after⟩ => .skip fun ⟨key, below⟩ =>
        .skip fun ⟨subject, rest⟩ => ?_
      refine .bind (fun member found => orFault_eq_ok found) fun ⟨value, owned⟩ found => .ok ?_
      rintro _ _ _ _ owner ⟨⟩
      obtain ⟨map, rfl, inherits, there⟩ := World.member_found found
      exact .operand rfl inherits there rfl
  | callSuper =>
      refine .skip fun count => .skip fun ⟨args, after⟩ => .skip fun ⟨key, below⟩ => ?_
      refine .bind (fun member found => orFault_eq_ok found) fun ⟨value, owned⟩ found => .ok ?_
      rintro _ _ _ _ owner ⟨⟩
      obtain ⟨map, parent, inherits, there⟩ := World.member_found found
      refine .inherited rfl ?_ inherits there rfl
      unfold superValue at parent
      cases above : world.heap.lookup? machine.frame.scope superName with
      | none =>
          rw [above] at parent
          cases parent
      | some value =>
          rw [above, Option.getD_some] at parent
          rw [parent]
  | _ =>
      intro action planned
      rintro _ _ _ _ _ rfl
      exact nomatch isCall _ planned rfl

theorem CallsMethod.source {callee : Closure} {receiver : Option Value} {owner : MapRef}
    (calls : machine.CallsMethod world instr callee receiver owner) :
    MethodSource world.heap machine.frame.scope instr.op (.function callee) receiver owner := by
  obtain ⟨next, args, planned⟩ := calls
  exact plan_method (world.pass 1000) machine.begun machine.position instr _ planned rfl

theorem receive_callers (machine : Machine) (reply : Reply) (world : World σ) :
    Ensures (fun next => next.callers = machine.callers) (machine.receive reply world).1 := by
  obtain ⟨answer, yields⟩ := reply
  cases answer with
  | ready value => exact .ok rfl
  | pending ref => exact .ok rfl

theorem receiveOutcome_callers (machine : Machine) (outcome : Except RuntimeError Reply × World σ) :
    Ensures (fun next => next.callers = machine.callers) (machine.receiveOutcome outcome).1 := by
  obtain ⟨error | reply, world⟩ := outcome
  · exact .error _
  · exact receive_callers machine reply world

/-- A call that enters a function gives it a scope of its own inside of that of the definition. -/
theorem call_enters {next : Machine} {after : World σ} {callee : Closure} {args : List Value}
    {receiver : Option Value} {owner : Option MapRef}
    (called : machine.call host (.function callee) args receiver owner world = (.ok next, after))
    (deeper : machine.depth < next.depth) :
    ∃ bound, next.frame.scope = world.heap.nextScope ∧
      after = world.modifyHeap fun heap => heap.addScope (some (callee.outer.getD world.globals))
        (.ofNames (callVars world.heap (world.heap.definition callee.definition) bound receiver
          owner)) := by
  have stays {outcome : Outcome σ} (same : outcome = (.ok next, after))
      (kept : Ensures (fun next => next.callers = machine.callers) outcome.1) : False := by
    have callers := kept next (by rw [same])
    rw [depth, depth, callers] at deeper
    exact Nat.lt_irrefl _ deeper
  unfold call at called
  dsimp only at called
  split at called
  · rename_i bound accepted
    refine ⟨bound, ?_⟩
    unfold invoke at called
    dsimp only at called
    split at called
    · unfold enter at called
      split at called
      · cases called
      · cases called
        exact ⟨rfl, rfl⟩
    · split at called
      · exact (stays called (receive_callers _ _ _)).elim
      · cases called
    · exact (stays called (receiveOutcome_callers _ _)).elim
    · exact (stays called (receiveOutcome_callers _ _)).elim
  · cases called

/-- The function that has been entered, with its variables in a scope of its own. -/
theorem Executes.enters_method {entered : Machine} {after : World σ} {callee : Closure}
    {receiver : Option Value} {owner : MapRef}
    (executes : machine.Executes host world instr entered after)
    (deeper : machine.depth < entered.depth)
    (calls : machine.CallsMethod world instr callee receiver owner) :
    ∃ bound, entered.frame.scope = world.heap.nextScope ∧
      after = (world.pass 1000).modifyHeap fun heap =>
        heap.addScope (some (callee.outer.getD world.globals))
          (.ofNames (callVars world.heap (world.heap.definition callee.definition) bound receiver
            (some owner))) := by
  obtain ⟨next, args, planned⟩ := calls
  obtain ⟨action, same, performed⟩ := execute_eq_ok executes.executed
  obtain rfl : action = .call next (.function callee) args receiver (some owner) :=
    Except.ok.inj (same.symm.trans planned)
  have kept := plan_continues _ _ _ _ _ planned
  refine call_enters performed ?_
  have depth : next.depth ≤ machine.depth := kept.kept.depth_le
  exact Nat.lt_of_le_of_lt depth deeper

section

variable {heap : Heap} {definition : Definition} {bound : List Value} {receiver : Option Value}
variable {owner : MapRef}

theorem callVars_super {parent : MapRef} (isParent : heap.isaParent? owner = some parent) :
    (MapObject.ofNames (callVars heap definition bound receiver (some owner))).named? superName =
      some (.map parent) := by
  rw [callVars, Option.bind_some, isParent, Option.map_some, Option.toList_some,
    MapObject.named?_ofNames_concat, if_pos rfl]

theorem callVars_self {value : Value} (called : receiver = some value) :
    (MapObject.ofNames (callVars heap definition bound receiver (some owner))).named? selfName =
      some value := by
  have own : (MapObject.ofNames ((definition.params.map (·.name)).zip bound ++
      [(selfName, value)])).named? selfName = some value := by
    rw [MapObject.named?_ofNames_concat, if_pos rfl]
  rw [callVars, called, Option.map_some, Option.toList_some, Option.bind_some]
  cases heap.isaParent? owner with
  | none =>
      rw [Option.map_none, Option.toList_none, List.append_nil]
      exact own
  | some parent =>
      rw [Option.map_some, Option.toList_some, MapObject.named?_ofNames_concat,
        if_neg (by decide)]
      exact own

theorem callVars_no_super (orphan : heap.isaParent? owner = none)
    (unnamed : superName ∉ definition.params.map (·.name)) :
    (MapObject.ofNames (callVars heap definition bound receiver (some owner))).named? superName =
      none := by
  refine MapObject.named?_ofNames_of_not_mem ?_
  rw [callVars, Option.bind_some, orphan, Option.map_none, Option.toList_none, List.append_nil,
    List.map_append, List.mem_append, not_or]
  constructor
  · intro member
    obtain ⟨⟨name, value⟩, paired, rfl⟩ := List.mem_map.mp member
    exact unnamed (List.of_mem_zip paired).1
  · cases receiver with
    | none => exact List.not_mem_nil
    | some value =>
        intro member
        have impossible : superName = selfName := List.mem_singleton.mp member
        exact absurd impossible (by decide)

end

/-- What a function sees that was called as a method, on `receiver`, which was found in `owner`. It
has been entered with `scope` in the world `begins`. -/
structure SeesParent (initial begins : World σ) (callee : Closure) (receiver : Option Value)
    (owner : MapRef) (scope : ScopeRef) : Prop where
  /-- Its `super` is the parent that the owner had when the call was made. -/
  parent : ∀ parent, initial.heap.isaParent? owner = some parent →
    loadVariable begins scope superName = .ok (.map parent) ∧ superValue begins scope = .map parent
  /-- An owner without a parent leaves `super` as it is where the function was made. -/
  orphan : initial.heap.isaParent? owner = none → initial.heap.ScopesKnown →
    (callee.outer.getD initial.globals).index < initial.heap.scopes.size →
    superName ∉ (initial.heap.definition callee.definition).params.map (·.name) →
      loadVariable begins scope superName =
          loadVariable initial (callee.outer.getD initial.globals) superName ∧
        superValue begins scope = superValue initial (callee.outer.getD initial.globals)
  /-- Its `self` is the receiver. -/
  self : ∀ value, receiver = some value → begins.heap.lookup? scope selfName = some value
  /-- As long as its `super` and `self` have not been assigned to, a method that it calls on `super`
  is found in the parent of the owner or further up, and is called on the same receiver. -/
  above : ∀ {machine : Machine} {later : World σ} {instr : Instr} {inner : Closure}
      {passed : Option Value} {further : MapRef}, machine.frame.scope = scope →
    later.heap.getLocal? scope superName = begins.heap.getLocal? scope superName →
    later.heap.getLocal? scope selfName = begins.heap.getLocal? scope selfName →
    instr.op = .callSuper → machine.CallsMethod later instr inner passed further →
      (∀ parent, initial.heap.isaParent? owner = some parent →
        later.heap.Inherits parent further) ∧
      ∀ value, receiver = some value → passed = some value

/-- A function that is called as a method sees as `super` the parent of the map in which it was
found, if there is one; its `self` is the receiver, and calls on `super` lead further up. -/
theorem method_sees_parent_of_owner {caller entered : Machine} {call : Instr}
    {initial begins : World σ} {callee : Closure} {receiver : Option Value} {owner : MapRef}
    (calls : caller.Executes host initial call entered begins)
    (deeper : caller.depth < entered.depth)
    (method : caller.CallsMethod initial call callee receiver owner) :
    MethodSource initial.heap caller.frame.scope call.op (.function callee) receiver owner ∧
      SeesParent initial begins callee receiver owner entered.frame.scope := by
  obtain ⟨bound, scope, begun⟩ := calls.enters_method deeper method
  have heap : begins.heap = initial.heap.addScope (some (callee.outer.getD initial.globals))
      (.ofNames (callVars initial.heap (initial.heap.definition callee.definition) bound receiver
        (some owner))) := by
    rw [begun]
    rfl
  have intrinsics : begins.intrinsics = initial.intrinsics := by
    rw [begun]
    rfl
  have own (name : String) : begins.heap.getLocal? entered.frame.scope name =
      (MapObject.ofNames (callVars initial.heap (initial.heap.definition callee.definition) bound
        receiver (some owner))).named? name := by
    rw [heap, scope]
    exact Heap.getLocal?_addScope_new _ _ _ _
  refine ⟨method.source, ?_, ?_, ?_, ?_⟩
  · intro parent isParent
    have found : begins.heap.lookup? entered.frame.scope superName = some (.map parent) :=
      Heap.lookupWithin_of_getLocal? ((own superName).trans (callVars_super isParent)) _
    constructor
    · rw [loadVariable, World.resolve?, found]
    · rw [superValue, found, Option.getD_some]
  · intro orphan known there unnamed
    have found : begins.heap.lookup? entered.frame.scope superName =
        initial.heap.lookup? (callee.outer.getD initial.globals) superName := by
      rw [heap, scope]
      exact Heap.lookup?_addScope_other _ known there (callVars_no_super orphan unnamed)
    constructor
    · rw [loadVariable, World.resolve?, found, World.intrinsic?, intrinsics]
      rfl
    · rw [superValue, found]
      rfl
  · intro value called
    exact Heap.lookupWithin_of_getLocal? ((own selfName).trans (callVars_self called)) _
  · intro machine later instr inner passed further same sameSuper sameSelf isSuper calls
    cases calls.source with
    | operand isIndex => cases isIndex.symm.trans isSuper
    | @inherited map key _ above inherits found passes =>
        rw [same] at above passes
        constructor
        · intro parent isParent
          have kept : later.heap.lookup? entered.frame.scope superName = some (.map parent) :=
            Heap.lookupWithin_of_getLocal?
              ((sameSuper.trans (own superName)).trans (callVars_super isParent)) _
          cases above.symm.trans kept
          exact inherits
        · intro value called
          rw [passes]
          exact Heap.lookupWithin_of_getLocal?
            ((sameSelf.trans (own selfName)).trans (callVars_self called)) _

end Machine

/-- A machine that is about to call the method `m` of a map. -/
def Machine.aboutToCallMethod : Machine where
  frame :=
    { code := { instrs := #[Compiler.withCount .callIndex 0, { op := .pop }] }
      scope := ⟨0⟩ }
  stack := [.text "m", .map ⟨7⟩]
  status := .running

/-- A world with a map that has a method `m`. The function was made in a scope where `super` is the
table of methods of functions. -/
def World.withMethod (parent : List (String × Value)) : World Unit :=
  let world := World.initial {} ()
  { world with
    heap := { world.heap with
      maps := world.heap.maps ++
        #[{}, .ofNames (parent ++ [("m", .function ⟨⟨0⟩, some ⟨1⟩⟩)]),
          .ofNames [(superName, .map world.core.function)]]
      scopes := world.heap.scopes.push ⟨⟨8⟩, some ⟨0⟩⟩
      functions := #[⟨none, [], .script { instrs := #[{ op := .return }] }⟩] } }

/-- The world in which the method has been entered with variables of its own. -/
def World.inMethod (parent own : List (String × Value)) : World Unit :=
  ((World.withMethod parent).pass 1000).modifyHeap fun heap =>
    heap.addScope (some ⟨1⟩) (.ofNames own)

/-- The machine at the beginning of the method. -/
def Machine.inMethod : Machine :=
  { Machine.aboutToCallMethod with
    frame := { code := { instrs := #[{ op := .return }] }, scope := ⟨2⟩ }
    callers := [Machine.aboutToCallMethod.begun.frame]
    stack := [] }

/-- The method of a map that has a parent sees that parent, not what `super` was where the function
was made. -/
theorem Machine.method_sees_own_parent :
    let initial := World.withMethod [(isaName, .map ⟨6⟩)]
    let begins := World.inMethod [(isaName, .map ⟨6⟩)] [(selfName, .map ⟨7⟩), (superName, .map ⟨6⟩)]
    superValue initial ⟨1⟩ = .map initial.core.function ∧
      MethodSource initial.heap ⟨0⟩ .callIndex (.function ⟨⟨0⟩, some ⟨1⟩⟩) (some (.map ⟨7⟩)) ⟨7⟩ ∧
      SeesParent initial begins ⟨⟨0⟩, some ⟨1⟩⟩ (some (.map ⟨7⟩)) ⟨7⟩ ⟨2⟩ := by
  have calls : Machine.aboutToCallMethod.Executes .silent
      (World.withMethod [(isaName, .map ⟨6⟩)]) (Compiler.withCount .callIndex 0) Machine.inMethod
      (World.inMethod [(isaName, .map ⟨6⟩)] [(selfName, .map ⟨7⟩), (superName, .map ⟨6⟩)]) :=
    ⟨rfl, rfl, rfl, rfl⟩
  exact ⟨rfl, Machine.method_sees_parent_of_owner calls (Nat.succ_pos 0) ⟨_, _, rfl⟩⟩

/-- The method of a map without a parent sees as `super` what it was where the function was made. -/
theorem Machine.method_without_parent_sees_another :
    ∃ (caller entered : Machine) (call : Instr) (initial begins : World Unit) (callee : Closure)
      (receiver : Option Value) (owner : MapRef),
      caller.Executes .silent initial call entered begins ∧ call.op = .callIndex ∧
        caller.depth < entered.depth ∧ caller.CallsMethod initial call callee receiver owner ∧
        initial.heap.isaParent? owner = none ∧
        loadVariable begins entered.frame.scope superName ≠ .ok .null ∧
        superValue begins entered.frame.scope ≠ .null := by
  refine ⟨.aboutToCallMethod, .inMethod, Compiler.withCount .callIndex 0, .withMethod [],
    .inMethod [] [(selfName, .map ⟨7⟩)], ⟨⟨0⟩, some ⟨1⟩⟩, some (.map ⟨7⟩), ⟨7⟩,
    ⟨rfl, rfl, rfl, rfl⟩,
    rfl, Nat.succ_pos 0, ⟨_, _, rfl⟩, rfl, ?_, ?_⟩
  · have found : loadVariable (World.inMethod [] [(selfName, .map ⟨7⟩)]) ⟨2⟩ superName =
        .ok (.map ⟨5⟩) := rfl
    exact fun null => nomatch found.symm.trans null
  · have found : superValue (World.inMethod [] [(selfName, .map ⟨7⟩)]) ⟨2⟩ = .map ⟨5⟩ := rfl
    exact fun null => nomatch found.symm.trans null

end MiniScript
