import MiniScript.Proofs.Machine.Interceptors
import MiniScript.Proofs.Machine.Tenure
import MiniScript.Proofs.World.Seclusion

/-!
# Machines that reach no scope but their own

A machine is secluded when its operands and the items of its loops are admitted values,
its code names no scope, and each of its frames has a scope of its own. In a secluded
world every instruction of such a machine leaves both as they are, and stores into an
ordinary map or, if it is an assignment or a turn of a loop, among the variables of the
current scope. Calls get scopes that nobody has seen before.
-/

namespace MiniScript

variable {σ : Type}

/-- Discreet code in a scope that is there, and loops over admitted values. -/
structure Frame.Secluded (heap : Heap) (frame : Frame) : Prop where
  code : frame.code.IsDiscreet
  scope : heap.HasScope frame.scope
  loops : ∀ loop ∈ frame.loops, ∀ item ∈ loop.items, heap.Admits item

/-- The operands are admitted, and the frames are secluded and have different scopes. -/
structure Machine.Secluded (heap : Heap) (machine : Machine) : Prop where
  frame : machine.frame.Secluded heap
  callers : ∀ frame ∈ machine.callers, frame.Secluded heap
  stack : ∀ value ∈ machine.stack, heap.Admits value
  apart : ((machine.frame :: machine.callers).map (·.scope)).Nodup

/-- The scope whose variables an instruction may assign to when `scope` is the current one. -/
def Instr.writer? (instr : Instr) (scope : ScopeRef) : Option ScopeRef :=
  match instr.op with
  | .assignVar | .iterateForLoop => some scope
  | _ => none

/-- An action with admitted values that stores where `writer` may store. -/
inductive Action.Secluded (heap : Heap) (writer : Option ScopeRef) : Action → Prop where
  | proceed {next : Machine} (secluded : next.Secluded heap) : Secluded heap writer (.proceed next)
  | produce {next : Machine} {draft : Draft} (secluded : next.Secluded heap)
      (admitted : draft.Admitted heap) : Secluded heap writer (.produce next draft)
  | store {next : Machine} {map : MapRef} {key : Value} {draft : Draft}
      (secluded : next.Secluded heap) (writable : heap.Writable writer map)
      (keyed : heap.Admits key) (admitted : draft.Admitted heap) :
      Secluded heap writer (.store next map key draft)
  | replaceItem {next : Machine} {list : ListRef} {index : Nat} {value : Value}
      (secluded : next.Secluded heap) (admits : heap.Admits value) :
      Secluded heap writer (.replaceItem next list index value)
  | call {next : Machine} {callee : Value} {args : List Value} {receiver : Option Value}
      {owner : Option MapRef} (secluded : next.Secluded heap) (called : heap.Admits callee)
      (admitted : ∀ arg ∈ args, heap.Admits arg)
      (received : ∀ value, receiver = some value → heap.Admits value) :
      Secluded heap writer (.call next callee args receiver owner)

theorem Grants.orFault {α : Type} {holds : α → Prop} {outcome : Except Fault α}
    (grants : Grants holds outcome) : Ensures holds (Machine.orFault outcome) := by
  cases outcome with
  | error fault => exact .error _
  | ok value => exact .ok (grants value rfl)

section

variable {heap after : Heap} {writer : Option ScopeRef}

theorem Frame.Secluded.later {frame : Frame} (secluded : frame.Secluded heap)
    (confines : heap.Confines writer after) : frame.Secluded after :=
  ⟨secluded.code, confines.hasScope secluded.scope,
    fun loop running item member => (secluded.loops loop running item member).later confines⟩

theorem Frame.Secluded.dropLoop {frame : Frame} (secluded : frame.Secluded heap) (id : Nat) :
    (frame.dropLoop id).Secluded heap :=
  ⟨secluded.code, secluded.scope, fun loop running =>
    secluded.loops loop (List.mem_of_mem_filter running)⟩

theorem Frame.Secluded.putLoop {frame : Frame} {loop : LoopState} (secluded : frame.Secluded heap)
    (items : ∀ item ∈ loop.items, heap.Admits item) : (frame.putLoop loop).Secluded heap :=
  ⟨secluded.code, secluded.scope,
    List.forall_mem_cons.mpr ⟨items, (secluded.dropLoop loop.id).loops⟩⟩

theorem Frame.Secluded.moveTo {frame : Frame} (secluded : frame.Secluded heap) (position : Nat) :
    ({ frame with position } : Frame).Secluded heap :=
  ⟨secluded.code, secluded.scope, secluded.loops⟩

namespace Machine

namespace Secluded

variable {machine : Machine} (secluded : machine.Secluded heap)

include secluded

theorem later (confines : heap.Confines writer after) : machine.Secluded after :=
  ⟨secluded.frame.later confines, fun frame saved => (secluded.callers frame saved).later confines,
    fun value member => (secluded.stack value member).later confines, secluded.apart⟩

theorem push {value : Value} (admits : heap.Admits value) : (machine.push value).Secluded heap :=
  ⟨secluded.frame, secluded.callers, List.forall_mem_cons.mpr ⟨admits, secluded.stack⟩,
    secluded.apart⟩

/-- The machine goes on in the same scope. -/
theorem withFrame {frame : Frame} (own : frame.Secluded heap)
    (same : frame.scope = machine.frame.scope) :
    ({ machine with frame } : Machine).Secluded heap where
  frame := own
  callers := secluded.callers
  stack := secluded.stack
  apart := by
    rw [List.map_cons, same, ← List.map_cons]
    exact secluded.apart

theorem jump (position : Nat) : (machine.jump position).Secluded heap :=
  secluded.withFrame (secluded.frame.moveTo position) rfl

/-- The machine goes on in the scope of the caller. -/
theorem back {caller : Frame} {callers : List Frame} (above : machine.callers = caller :: callers)
    {value : Value} (admits : heap.Admits value) :
    ({ machine with frame := caller, callers, stack := value :: machine.stack } :
      Machine).Secluded heap := by
  have known := secluded.callers
  have apart := secluded.apart
  rw [above] at known apart
  obtain ⟨own, others⟩ := List.forall_mem_cons.mp known
  rw [List.map_cons] at apart
  exact ⟨own, others, List.forall_mem_cons.mpr ⟨admits, secluded.stack⟩, apart.of_cons⟩

theorem leave {value : Value} (admits : heap.Admits value) :
    (machine.leave value).Secluded heap := by
  unfold Machine.leave
  split
  · exact secluded
  · rename_i above
    exact secluded.back above admits

theorem pop : Ensures (fun popped => heap.Admits popped.1 ∧ popped.2.Secluded heap)
    machine.pop := by
  have admitted := secluded.stack
  unfold Machine.pop pop?
  cases same : machine.stack with
  | nil => exact .error _
  | cons value stack =>
      rw [same] at admitted
      obtain ⟨top, below⟩ := List.forall_mem_cons.mp admitted
      exact .ok ⟨top, secluded.frame, secluded.callers, below, secluded.apart⟩

theorem popMany (count : Nat) :
    Ensures (fun popped => (∀ value ∈ popped.1, heap.Admits value) ∧ popped.2.Secluded heap)
      (machine.popMany count) := by
  unfold Machine.popMany popMany?
  split
  · rename_i same
    split at same
    · cases same
    · cases same
      refine .ok ⟨fun value member => ?_, secluded.frame, secluded.callers, fun value member => ?_,
        secluded.apart⟩
      · exact secluded.stack value (List.mem_of_mem_take (List.mem_reverse.mp member))
      · exact secluded.stack value (List.mem_of_mem_drop member)
  · exact .error _

end Secluded

end Machine

end

namespace Machine

/-- What is stored is what was given. -/
theorem planStore_secluded {heap : Heap} {writer : Option ScopeRef} {machine : Machine}
    (secluded : machine.Secluded heap) {subject key value : Value} (target : heap.Admits subject)
    (keyed : heap.Admits key) (admits : heap.Admits value) :
    Ensures (Action.Secluded heap writer) (orFault (planStore heap machine subject key value)) := by
  cases subject with
  | map map => exact .ok (.store secluded (.ordinary target) keyed admits)
  | list list =>
      cases key with
      | number index =>
          unfold planStore
          dsimp only
          cases Sequence.position index (heap.items list).size with
          | error fault => exact .error _
          | ok place => exact .ok (.replaceItem secluded admits)
      | _ => exact .error _
  | _ => exact .error _

theorem pairUp_admitted {heap : Heap} : (flat : List Value) →
    (∀ value ∈ flat, heap.Admits value) →
    ∀ pair ∈ pairUp flat, heap.Admits pair.1 ∧ heap.Admits pair.2
  | [], _ => nofun
  | [_], _ => nofun
  | key :: value :: rest, admitted => by
      obtain ⟨first, admitted⟩ := List.forall_mem_cons.mp admitted
      obtain ⟨second, admitted⟩ := List.forall_mem_cons.mp admitted
      exact List.forall_mem_cons.mpr ⟨⟨first, second⟩, pairUp_admitted rest admitted⟩

theorem loopItems_admitted {heap : Heap} (secluded : heap.Secluded) (subject : Value) :
    Grants (fun visited => ∀ item ∈ visited.1, heap.Admits item) (loopItems heap subject) := by
  unfold loopItems
  split
  · exact .ok (secluded.items _)
  · exact .ok (Library.characters_admitted _)
  · refine .ok fun item member => ?_
    obtain ⟨entry, among, rfl⟩ := List.mem_map.mp (List.mem_toArray.mp member)
    exact (secluded.entries _ entry among).key
  · exact .error _

theorem loopValue_admitted {heap : Heap} (secluded : heap.Secluded) (source : Option MapRef)
    {item : Value} (admits : heap.Admits item) : (loopValue heap source item).Admitted heap := by
  cases source with
  | none => exact admits
  | some map =>
      refine Heap.AdmitsEntry.ofNames (List.forall_mem_cons.mpr ⟨admits, ?_⟩)
      refine List.forall_mem_singleton.mpr ?_
      cases found : heap.get? map item with
      | none => trivial
      | some value => exact secluded.get? found

section

variable {world : World σ} {machine : Machine} (known : world.Secluded)
  (secluded : machine.Secluded world.heap)

include known

theorem loadVariable_admitted (scope : ScopeRef) (name : String) :
    Grants world.heap.Admits (loadVariable world scope name) := by
  unfold loadVariable
  split
  · rename_i found
    exact .ok (known.resolve? found)
  · split
    · exact .ok trivial
    · exact .error _

theorem calledVariable_admitted (scope : ScopeRef) (name : String) :
    Grants world.heap.Admits (calledVariable world scope name) := by
  unfold calledVariable
  split
  · rename_i found
    exact .ok (known.resolve? found)
  · exact .error _

include secluded

/-- The variable of a loop is one of the current scope. -/
theorem planTurn_secluded (position exit : Nat) {loop : LoopState}
    (running : loop ∈ machine.frame.loops) :
    Action.Secluded world.heap (some machine.frame.scope)
      (planTurn world machine position exit loop) := by
  have items := secluded.frame.loops loop running
  unfold planTurn
  split
  · exact .proceed (secluded.withFrame ((secluded.frame.dropLoop loop.id).moveTo exit) rfl)
  · rename_i item visited
    refine .store (secluded.withFrame (secluded.frame.putLoop items) rfl)
      (.own rfl secluded.frame.scope rfl) trivial (loopValue_admitted known.heap _ ?_)
    exact items item (Array.mem_of_getElem? visited)

/-- An instruction that names no scope uses the operands and what it finds in the world. -/
theorem plan_secluded (position : Nat) {instr : Instr} (unscoped : instr.op ≠ .pushScope)
    (literal : instr.isLiteral = true) :
    Ensures (Action.Secluded world.heap (instr.writer? machine.frame.scope))
      (plan world machine position instr) := by
  obtain ⟨op, first, second⟩ := instr
  cases op with
  | pushScope => exact absurd rfl unscoped
  | pushValue =>
      unfold plan
      dsimp only
      split
      · exact .ok (.proceed (secluded.push (.ofLiteral literal)))
      · exact .error _
  | pushFunction =>
      unfold plan
      dsimp only
      split
      · refine .ok (.proceed (secluded.push ?_))
        rintro scope ⟨⟩
        exact secluded.frame.scope
      · exact .error _
  | loadVar =>
      refine .skip fun name => ?_
      refine (loadVariable_admitted known _ name).orFault.bind fun value admits => ?_
      exact .ok (.proceed (secluded.push admits))
  | callVar =>
      refine .skip fun name => .skip fun count => (secluded.popMany count).bind ?_
      rintro ⟨args, rest⟩ ⟨admitted, own⟩
      refine (calledVariable_admitted known _ name).orFault.bind fun callee admits => ?_
      exact .ok (.call own admits admitted nofun)
  | assignVar =>
      refine .skip fun name => secluded.pop.bind ?_
      rintro ⟨value, rest⟩ ⟨admits, own⟩
      exact .ok (.store own (.own rfl secluded.frame.scope rfl) trivial admits)
  | loadIndex =>
      refine secluded.pop.bind ?_
      rintro ⟨key, below⟩ ⟨_, own⟩
      refine own.pop.bind ?_
      rintro ⟨subject, rest⟩ ⟨_, own⟩
      exact (known.member subject key).orFault.bind fun member admits =>
        .ok (.proceed (own.push admits))
  | callIndex =>
      refine .skip fun count => (secluded.popMany count).bind ?_
      rintro ⟨args, below⟩ ⟨admitted, own⟩
      refine own.pop.bind ?_
      rintro ⟨key, under⟩ ⟨_, own⟩
      refine own.pop.bind ?_
      rintro ⟨subject, rest⟩ ⟨target, own⟩
      refine (known.member subject key).orFault.bind fun member admits => .ok ?_
      refine .call own admits admitted ?_
      rintro _ ⟨⟩
      exact target
  | assignIndex =>
      refine secluded.pop.bind ?_
      rintro ⟨value, below⟩ ⟨admits, own⟩
      refine own.pop.bind ?_
      rintro ⟨key, under⟩ ⟨keyed, own⟩
      refine own.pop.bind ?_
      rintro ⟨subject, rest⟩ ⟨target, own⟩
      exact planStore_secluded own target keyed admits
  | loadSuperIndex =>
      refine secluded.pop.bind ?_
      rintro ⟨key, rest⟩ ⟨_, own⟩
      exact (known.member _ key).orFault.bind fun member admits => .ok (.proceed (own.push admits))
  | callSuper =>
      refine .skip fun count => (secluded.popMany count).bind ?_
      rintro ⟨args, below⟩ ⟨admitted, own⟩
      refine own.pop.bind ?_
      rintro ⟨key, rest⟩ ⟨_, own⟩
      refine (known.member _ key).orFault.bind fun member admits => .ok ?_
      exact .call own admits admitted fun value found => known.heap.lookup? found
  | callValue =>
      refine .skip fun count => (secluded.popMany count).bind ?_
      rintro ⟨args, below⟩ ⟨admitted, own⟩
      refine own.pop.bind ?_
      rintro ⟨callee, rest⟩ ⟨admits, own⟩
      exact .ok (.call own admits admitted nofun)
  | slice =>
      refine secluded.pop.bind ?_
      rintro ⟨last, below⟩ ⟨_, own⟩
      refine own.pop.bind ?_
      rintro ⟨start, under⟩ ⟨_, own⟩
      refine own.pop.bind ?_
      rintro ⟨subject, rest⟩ ⟨_, own⟩
      exact (Operator.slice_admitted known.heap subject start last).orFault.bind
        fun draft admitted => .ok (.produce own admitted)
  | buildList =>
      refine .skip fun count => (secluded.popMany count).bind ?_
      rintro ⟨items, rest⟩ ⟨admitted, own⟩
      exact .ok (.produce own fun item member => admitted item (List.mem_toArray.mp member))
  | buildMap =>
      refine .skip fun count => (secluded.popMany (count * 2)).bind ?_
      rintro ⟨flat, rest⟩ ⟨admitted, own⟩
      refine .ok (.produce own ?_)
      exact Heap.AdmitsEntry.withEntries (fun entry member => nomatch member)
        (pairUp_admitted flat admitted)
  | binary =>
      refine .skip fun op => secluded.pop.bind ?_
      rintro ⟨right, below⟩ ⟨_, own⟩
      refine own.pop.bind ?_
      rintro ⟨left, rest⟩ ⟨_, own⟩
      exact (known.binary op left right).orFault.bind fun draft admitted =>
        .ok (.produce own admitted)
  | compareKeep =>
      refine .skip fun op => secluded.pop.bind ?_
      rintro ⟨right, below⟩ ⟨kept, own⟩
      refine own.pop.bind ?_
      rintro ⟨left, rest⟩ ⟨_, own⟩
      exact (known.binary op left right).orFault.bind fun draft admitted =>
        .ok (.produce (own.push kept) admitted)
  | negate =>
      refine secluded.pop.bind ?_
      rintro ⟨value, rest⟩ ⟨_, own⟩
      cases value with
      | number value => exact .ok (.proceed (own.push trivial))
      | _ => exact .error _
  | not =>
      refine secluded.pop.bind ?_
      rintro ⟨value, rest⟩ ⟨_, own⟩
      exact .ok (.proceed (own.push trivial))
  | new =>
      refine secluded.pop.bind ?_
      rintro ⟨parent, rest⟩ ⟨admits, own⟩
      exact (Operator.instantiate_admitted admits).orFault.bind fun draft admitted =>
        .ok (.produce own admitted)
  | pop =>
      refine secluded.pop.bind ?_
      rintro ⟨value, rest⟩ ⟨_, own⟩
      exact .ok (.proceed own)
  | dup2 =>
      have admitted := secluded.stack
      unfold plan
      dsimp only
      split
      · rename_i top below rest same
        rw [same] at admitted
        obtain ⟨first, under⟩ := List.forall_mem_cons.mp admitted
        obtain ⟨second, _⟩ := List.forall_mem_cons.mp under
        exact .ok (.proceed ((secluded.push second).push first))
      · exact .error _
  | jump => exact .skip fun address => .ok (.proceed (secluded.jump address))
  | jumpIfFalse =>
      refine secluded.pop.bind ?_
      rintro ⟨value, rest⟩ ⟨_, own⟩
      dsimp only
      split
      · exact .ok (.proceed own)
      · exact .skip fun address => .ok (.proceed (own.jump address))
  | jumpIfTrue =>
      refine secluded.pop.bind ?_
      rintro ⟨value, rest⟩ ⟨_, own⟩
      dsimp only
      split
      · exact .skip fun address => .ok (.proceed (own.jump address))
      · exact .ok (.proceed own)
  | «return» =>
      refine secluded.pop.bind ?_
      rintro ⟨value, rest⟩ ⟨admits, own⟩
      exact .ok (.proceed (own.leave admits))
  | createForLoop =>
      refine .skip fun id => .skip fun var => secluded.pop.bind ?_
      rintro ⟨subject, rest⟩ ⟨_, own⟩
      refine (loopItems_admitted known.heap subject).orFault.bind fun visited admitted => ?_
      exact .ok (.proceed (own.withFrame (own.frame.putLoop admitted) rfl))
  | iterateForLoop =>
      refine .skip fun id => .skip fun exit => ?_
      refine (activeLoop_mem machine id).bind fun loop running => ?_
      exact .ok (planTurn_secluded known secluded position exit running)
  | breakForLoop =>
      refine .skip fun id => .skip fun loop => .ok (.proceed ?_)
      exact secluded.withFrame ((secluded.frame.dropLoop id).moveTo loop.exit) rfl
  | continueForLoop =>
      exact .skip fun id => .skip fun loop => .ok (.proceed (secluded.jump loop.start))

end

end Machine

end MiniScript
