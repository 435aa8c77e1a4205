import MiniScript.Proofs.Machine.Frames
import MiniScript.Proofs.Machine.Plan

/-!
# Which operands an instruction touches

Of code of any origin: an instruction takes as many operands as it says and leaves
those below them as they are; a call goes on with exactly those below. In laid out
code the operands that an instruction takes belong to the frame it stands in.
-/

namespace MiniScript

/-- The number that an operand stands for. -/
def Operand.count : Operand → Nat
  | .int number => number.toNat
  | _ => 0

/-- How many operands an instruction takes from the stack: a call takes its arguments, with the
callee, the key or the target and the key below them. -/
def Instr.taken (instr : Instr) : Nat :=
  match instr.op with
  | .callVar => instr.second.count
  | .callIndex => instr.first.count + 2
  | .callSuper | .callValue => instr.first.count + 1
  | .buildList => instr.first.count
  | .buildMap => instr.first.count * 2
  | .assignIndex | .slice => 3
  | .loadIndex | .binary | .compareKeep => 2
  | .assignVar | .loadSuperIndex | .negate | .not | .new | .pop => 1
  | .jumpIfFalse | .jumpIfTrue | .return | .createForLoop => 1
  | _ => 0

theorem Instr.Straight.taken_le {instr : Instr} {taken put : Nat}
    (moves : instr.Straight taken put) : instr.taken ≤ taken := by
  cases moves with
  | unary op => cases op <;> exact Nat.le_refl _
  | dup2 => exact Nat.zero_le _
  | _ => exact Nat.le_refl _

/-- The operands that an accepted instruction takes are those of its slot. -/
theorem Accepts.taken_le {outermost : Bool} {next : Places} {position : Nat} {instr : Instr}
    {slot : Slot} (accepts : Accepts outermost next position instr slot) :
    instr.taken ≤ slot.height := by
  induction accepts with
  | straight rest moves onward => exact Nat.le_trans moves.taken_le (Nat.le_add_left _ _)
  | branch height branches onward away =>
      rcases branches with rfl | rfl
      · exact Nat.le_add_left _ _
      · exact Nat.le_add_left _ _
  | leave inner => exact Nat.le_refl _
  | drop outer onward => exact Nat.le_add_left _ _
  | create height small fresh onward => exact Nat.le_add_left _ _
  | forget less ih => exact ih
  | _ => exact Nat.zero_le _

namespace Machine

variable {σ : Type} {host : Host σ} {world : World σ} {machine : Machine} {position : Nat}

theorem countOperand_count (heap : Heap) (op : Opcode) (operand : Operand) :
    Ensures (fun count => count = operand.count) (countOperand heap op operand) := by
  cases operand with
  | int value =>
      unfold countOperand natOperand
      dsimp only
      split
      · exact .ok rfl
      · exact .error _
  | _ => exact .error _

/-- Taking one operand. -/
theorem pop_stack (machine : Machine) :
    Ensures (fun popped => popped.2.stack = machine.stack.drop 1) machine.pop := by
  unfold pop pop?
  cases machine.stack with
  | nil => exact .error _
  | cons value stack => exact .ok rfl

theorem popMany_stack (machine : Machine) (count : Nat) :
    Ensures (fun popped => popped.2.stack = machine.stack.drop count) (machine.popMany count) := by
  unfold popMany popMany?
  split
  · rename_i same
    split at same
    · cases same
    · cases same
      exact .ok rfl
  · exact .error _

/-- The action leaves the operands from `kept` on as they are, and a call goes on with no others. -/
structure Leaves (kept : List Value) (action : Action) : Prop where
  suffix : kept <:+ action.next.stack
  called : ∀ {next : Machine} {callee : Value} {args : List Value} {receiver : Option Value}
    {owner : Option MapRef}, action = .call next callee args receiver owner → next.stack = kept

variable {kept : List Value}

theorem Leaves.ofCall {next : Machine} {callee : Value} {args : List Value}
    {receiver : Option Value} {owner : Option MapRef} (same : next.stack = kept) :
    Leaves kept (.call next callee args receiver owner) := by
  refine ⟨⟨[], same.symm⟩, ?_⟩
  rintro _ _ _ _ _ ⟨⟩
  exact same

theorem Leaves.proceed {next : Machine} (suffix : kept <:+ next.stack) :
    Leaves kept (.proceed next) :=
  ⟨suffix, nofun⟩

theorem Leaves.push {next : Machine} (value : Value) (same : next.stack = kept) :
    Leaves kept (.proceed (next.push value)) :=
  .proceed ⟨[value], congrArg (value :: ·) same.symm⟩

theorem Leaves.produce {next : Machine} (draft : Draft) (suffix : kept <:+ next.stack) :
    Leaves kept (.produce next draft) :=
  ⟨suffix, nofun⟩

theorem planStore_leaves (heap : Heap) (machine : Machine) (subject key value : Value) :
    Ensures (Leaves machine.stack) (orFault (planStore heap machine subject key value)) := by
  cases subject with
  | map map => exact .ok ⟨List.suffix_refl _, nofun⟩
  | list list =>
      cases key with
      | number index =>
          unfold planStore
          dsimp only
          cases Sequence.position index (heap.items list).size with
          | error fault => exact .error _
          | ok place => exact .ok ⟨List.suffix_refl _, nofun⟩
      | _ => exact .error _
  | _ => exact .error _

theorem leave_suffix (machine : Machine) (value : Value) :
    machine.stack <:+ (machine.leave value).stack := by
  unfold leave
  split
  · exact List.suffix_refl _
  · exact List.suffix_cons _ _

theorem planTurn_leaves (world : World σ) (machine : Machine) (position exit : Nat)
    (loop : LoopState) : Leaves machine.stack (planTurn world machine position exit loop) := by
  unfold planTurn
  split
  · exact ⟨List.suffix_refl _, nofun⟩
  · exact ⟨List.suffix_refl _, nofun⟩

/-- An instruction touches only the operands that it takes. -/
theorem plan_leaves (world : World σ) (machine : Machine) (position : Nat) (instr : Instr) :
    Ensures (Leaves (machine.stack.drop instr.taken)) (plan world machine position instr) := by
  obtain ⟨op, first, second⟩ := instr
  cases op with
  | pushValue =>
      cases first with
      | value value => exact .ok (.push _ rfl)
      | _ => exact .error _
  | pushFunction =>
      cases first with
      | func ref => exact .ok (.push _ rfl)
      | _ => exact .error _
  | pushScope =>
      cases first with
      | scope kind => exact .ok (.push _ rfl)
      | _ => exact .error _
  | loadVar => exact .skip fun name => .skip fun value => .ok (.push value rfl)
  | callVar =>
      refine .skip fun name => (countOperand_count _ _ second).bind fun count counted => ?_
      refine (popMany_stack machine count).bind fun popped same => .skip fun callee => .ok ?_
      exact .ofCall (same.trans (congrArg machine.stack.drop counted))
  | assignVar =>
      refine .skip fun name => (pop_stack machine).bind fun popped same => .ok ?_
      exact ⟨⟨[], same.symm⟩, nofun⟩
  | loadIndex =>
      refine (pop_stack machine).bind fun keyed first => ?_
      refine (pop_stack keyed.2).bind fun popped second => .skip fun member => .ok (.push _ ?_)
      rw [second, first, List.drop_drop]
      rfl
  | callIndex =>
      refine (countOperand_count _ _ first).bind fun count counted => ?_
      refine (popMany_stack machine count).bind fun args first => ?_
      refine (pop_stack args.2).bind fun keyed second => ?_
      refine (pop_stack keyed.2).bind fun popped third => .skip fun member => .ok (.ofCall ?_)
      rw [third, second, first, List.drop_drop, List.drop_drop, counted]
      rfl
  | assignIndex =>
      refine (pop_stack machine).bind fun valued first => ?_
      refine (pop_stack valued.2).bind fun keyed second => ?_
      refine (pop_stack keyed.2).bind fun popped third => ?_
      have same : popped.2.stack = machine.stack.drop 3 := by
        rw [third, second, first, List.drop_drop, List.drop_drop]
      have stored := planStore_leaves world.heap popped.2 popped.1 keyed.1 valued.1
      rw [same] at stored
      exact stored
  | loadSuperIndex =>
      refine (pop_stack machine).bind fun popped same => ?_
      exact .skip fun member => .ok (.push _ same)
  | callSuper =>
      refine (countOperand_count _ _ first).bind fun count counted => ?_
      refine (popMany_stack machine count).bind fun args first => ?_
      refine (pop_stack args.2).bind fun popped second => .skip fun member => .ok (.ofCall ?_)
      rw [second, first, List.drop_drop, counted]
      rfl
  | callValue =>
      refine (countOperand_count _ _ first).bind fun count counted => ?_
      refine (popMany_stack machine count).bind fun args first => ?_
      refine (pop_stack args.2).bind fun popped second => .ok (.ofCall ?_)
      rw [second, first, List.drop_drop, counted]
      rfl
  | slice =>
      refine (pop_stack machine).bind fun upper first => ?_
      refine (pop_stack upper.2).bind fun lower second => ?_
      refine (pop_stack lower.2).bind fun popped third => .skip fun draft => .ok (.produce _ ?_)
      rw [third, second, first, List.drop_drop, List.drop_drop]
      exact List.suffix_refl _
  | buildList =>
      refine (countOperand_count _ _ first).bind fun count counted => ?_
      refine (popMany_stack machine count).bind fun items same => .ok (.produce _ ?_)
      rw [same, counted]
      exact List.suffix_refl _
  | buildMap =>
      refine (countOperand_count _ _ first).bind fun count counted => ?_
      refine (popMany_stack machine (count * 2)).bind fun flat same => .ok (.produce _ ?_)
      rw [same, counted]
      exact List.suffix_refl _
  | binary =>
      refine .skip fun op => (pop_stack machine).bind fun right first => ?_
      refine (pop_stack right.2).bind fun left second => .skip fun draft => .ok (.produce _ ?_)
      rw [second, first, List.drop_drop]
      exact List.suffix_refl _
  | compareKeep =>
      refine .skip fun op => (pop_stack machine).bind fun right first => ?_
      refine (pop_stack right.2).bind fun left second => .skip fun draft => .ok (.produce _ ?_)
      rw [push, second, first, List.drop_drop]
      exact List.suffix_cons _ _
  | negate =>
      refine (pop_stack machine).bind fun popped same => ?_
      exact .skip fun negated => .ok (.push _ same)
  | not => exact (pop_stack machine).bind fun popped same => .ok (.push _ same)
  | new =>
      refine (pop_stack machine).bind fun popped same => .skip fun draft => .ok (.produce _ ?_)
      exact ⟨[], same.symm⟩
  | pop => exact (pop_stack machine).bind fun popped same => .ok (.proceed ⟨[], same.symm⟩)
  | dup2 =>
      unfold plan
      dsimp only
      split
      · exact .ok (.proceed ⟨[_, _], rfl⟩)
      · exact .error _
  | jump => exact .skip fun address => .ok (.proceed (List.suffix_refl _))
  | jumpIfFalse =>
      refine (pop_stack machine).bind fun popped same => ?_
      dsimp only
      split
      · exact .ok (.proceed ⟨[], same.symm⟩)
      · exact .skip fun address => .ok (.proceed ⟨[], same.symm⟩)
  | jumpIfTrue =>
      refine (pop_stack machine).bind fun popped same => ?_
      dsimp only
      split
      · exact .skip fun address => .ok (.proceed ⟨[], same.symm⟩)
      · exact .ok (.proceed ⟨[], same.symm⟩)
  | «return» =>
      refine (pop_stack machine).bind fun popped same => .ok (.proceed ?_)
      have kept := leave_suffix popped.2 popped.1
      rw [same] at kept
      exact kept
  | createForLoop =>
      refine .skip fun id => .skip fun var => (pop_stack machine).bind fun popped same => ?_
      exact .skip fun visited => .ok (.proceed ⟨[], same.symm⟩)
  | iterateForLoop =>
      exact .skip fun id => .skip fun exit => .skip fun loop =>
        .ok (planTurn_leaves world machine position exit loop)
  | breakForLoop => exact .skip fun id => .skip fun loop => .ok (.proceed (List.suffix_refl _))
  | continueForLoop => exact .skip fun id => .skip fun loop => .ok (.proceed (List.suffix_refl _))

end Machine

end MiniScript
