import MiniScript.Proofs.Compiler.Laying

/-!
# Layouts of code

A slot says how many operands a frame holds at a place in its code and which
loops it is running there. `Accepts` says when an instruction can be executed at a
slot, and which slots it leads to. A segment is a piece of code, together with
slots for all places that can be reached in it; it is left only towards the
exits it is allowed, or by running on to its end. Segments are put together the way
a compiler puts code together: one after the other, with jumps to the seam or to
the end, and around in a loop.
-/

namespace MiniScript

open Compiler

/-- A loop that is running. Where its turns begin and where it is left is known only after its first
turn has begun. -/
structure OpenLoop where
  id : Nat
  bounds : Option (Nat × Nat)

/-- What a frame holds at a place in its code. -/
structure Slot where
  height : Nat
  loops : List OpenLoop

namespace Slot

/-- Between two statements no operand is held. -/
def level (loops : List OpenLoop) : Slot :=
  ⟨0, loops⟩

end Slot

/-- The instructions that go on to the next one: how many operands each takes and leaves. -/
inductive Instr.Straight : Instr → Nat → Nat → Prop where
  | pushValue (value : Value) : Straight (pushValue value) 0 1
  | pushFunction (ref : FunctionRef) : Straight { op := .pushFunction, first := .func ref } 0 1
  | pushScope (kind : ScopeKind) : Straight { op := .pushScope, first := .scope kind } 0 1
  | loadVar (name : String) : Straight { op := .loadVar, first := .name name } 0 1
  | callVar (name : String) (count : Nat) :
      Straight { op := .callVar, first := .name name, second := .int count } count 1
  | assignVar (name : String) : Straight { op := .assignVar, first := .name name } 1 0
  | loadIndex : Straight { op := .loadIndex } 2 1
  | callIndex (count : Nat) : Straight (withCount .callIndex count) (count + 2) 1
  | assignIndex : Straight { op := .assignIndex } 3 0
  | loadSuperIndex : Straight { op := .loadSuperIndex } 1 1
  | callSuper (count : Nat) : Straight (withCount .callSuper count) (count + 1) 1
  | callValue (count : Nat) : Straight (withCount .callValue count) (count + 1) 1
  | slice : Straight { op := .slice } 3 1
  | buildList (count : Nat) : Straight (withCount .buildList count) count 1
  | buildMap (count : Nat) : Straight (withCount .buildMap count) (count * 2) 1
  | binary (op : BinaryOp) : Straight { op := .binary, first := .op op } 2 1
  | compareKeep (op : BinaryOp) : Straight { op := .compareKeep, first := .op op } 2 2
  | unary (op : UnaryOp) : Straight { op := unaryOpcode op } 1 1
  | pop : Straight { op := .pop } 1 0
  | dup2 : Straight { op := .dup2 } 2 4

/-- The places that lead on, with the slots they are reached with. -/
abbrev Places := Nat → Slot → Prop

namespace Places

/-- One place more. -/
def orAt (places : Places) (position : Nat) (slot : Slot) : Places :=
  fun place other => places place other ∨ place = position ∧ other = slot

theorem orAt_new (places : Places) (position : Nat) (slot : Slot) :
    places.orAt position slot position slot :=
  Or.inr ⟨rfl, rfl⟩

end Places

/-- Whether an instruction can be executed with what the slot holds, when `next` are the places that
may be reached. A `return` of the outermost code drops its operand and goes on; elsewhere it leaves
the code and the operand must be the only one. -/
inductive Accepts (outermost : Bool) (next : Places) (position : Nat) : Instr → Slot → Prop where
  | straight {instr : Instr} {taken left : Nat} (rest : Nat) {loops : List OpenLoop}
      (moves : instr.Straight taken left) (onward : next (position + 1) ⟨rest + left, loops⟩) :
      Accepts outermost next position instr ⟨rest + taken, loops⟩
  | jump {target : Nat} {slot : Slot} (onward : next target slot) :
      Accepts outermost next position (jumpTo .jump target) slot
  | branch {op : Opcode} {target : Nat} (height : Nat) {loops : List OpenLoop}
      (branches : op = .jumpIfFalse ∨ op = .jumpIfTrue)
      (onward : next (position + 1) ⟨height, loops⟩) (away : next target ⟨height, loops⟩) :
      Accepts outermost next position (jumpTo op target) ⟨height + 1, loops⟩
  | leave {loops : List OpenLoop} (inner : outermost = false) :
      Accepts outermost next position { op := .return } ⟨1, loops⟩
  | drop {height : Nat} {loops : List OpenLoop} (outer : outermost = true)
      (onward : next (position + 1) ⟨height, loops⟩) :
      Accepts outermost next position { op := .return } ⟨height + 1, loops⟩
  | create {id : Nat} {var : String} (height : Nat) {loops : List OpenLoop}
      (small : id < UInt32.size) (fresh : id ∉ loops.map (·.id))
      (onward : next (position + 1) ⟨height, ⟨id, none⟩ :: loops⟩) :
      Accepts outermost next position
        { op := .createForLoop, first := .int id, second := .name var } ⟨height + 1, loops⟩
  | iterate {id stop height : Nat} {bounds : Option (Nat × Nat)} {loops : List OpenLoop}
      (small : id < UInt32.size) (apart : id ∉ loops.map (·.id))
      (onward : next (position + 1) ⟨height, ⟨id, some (position, stop)⟩ :: loops⟩)
      (away : next stop ⟨height, loops⟩) :
      Accepts outermost next position
        { op := .iterateForLoop, first := .int id, second := .addr stop }
        ⟨height, ⟨id, bounds⟩ :: loops⟩
  | exit {id start stop height : Nat} {loops : List OpenLoop} (small : id < UInt32.size)
      (apart : id ∉ loops.map (·.id)) (away : next stop ⟨height, loops⟩) :
      Accepts outermost next position (withCount .breakForLoop id)
        ⟨height, ⟨id, some (start, stop)⟩ :: loops⟩
  | again {id start stop height : Nat} {loops : List OpenLoop} (small : id < UInt32.size)
      (away : next start ⟨height, ⟨id, none⟩ :: loops⟩) :
      Accepts outermost next position (withCount .continueForLoop id)
        ⟨height, ⟨id, some (start, stop)⟩ :: loops⟩
  /-- What is known of the innermost loop may be forgotten. -/
  | forget {instr : Instr} {id height : Nat} {bounds : Option (Nat × Nat)} {loops : List OpenLoop}
      (less : Accepts outermost next position instr ⟨height, ⟨id, none⟩ :: loops⟩) :
      Accepts outermost next position instr ⟨height, ⟨id, bounds⟩ :: loops⟩

theorem Accepts.mono {outermost : Bool} {next more : Places} {position : Nat} {instr : Instr}
    {slot : Slot} (accepts : Accepts outermost next position instr slot)
    (wider : ∀ place slot, next place slot → more place slot) :
    Accepts outermost more position instr slot := by
  induction accepts with
  | straight rest moves onward => exact .straight rest moves (wider _ _ onward)
  | jump onward => exact .jump (wider _ _ onward)
  | branch height branches onward away =>
      exact .branch height branches (wider _ _ onward) (wider _ _ away)
  | leave inner => exact .leave inner
  | drop outer onward => exact .drop outer (wider _ _ onward)
  | create height small fresh onward => exact .create height small fresh (wider _ _ onward)
  | iterate small apart onward away =>
      exact .iterate small apart (wider _ _ onward) (wider _ _ away)
  | exit small apart away => exact .exit small apart (wider _ _ away)
  | again small away => exact .again small (wider _ _ away)
  | forget _ ih => exact .forget ih

/-- Instructions from `position` on that can be executed from `slot` at the first of them, whichever
way they go, until one of the exits is reached or, with the slot `after`, their end. -/
def Segment (outermost : Bool) (exits : Places) (position : Nat) (instrs : List Instr)
    (slot : Slot) (after : Option Slot) : Prop :=
  ∃ places : Places, (places position slot ∨ instrs = [] ∧ after = some slot) ∧
    ∀ place slot, places place slot → ∃ offset instr,
      place = position + offset ∧ instrs[offset]? = some instr ∧
        Accepts outermost
          (fun place slot => places place slot ∨ exits place slot ∨
            place = position + instrs.length ∧ after = some slot) place instr slot

namespace Segment

variable {outermost : Bool} {exits more : Places} {position : Nat} {slot middle : Slot}
variable {after : Option Slot} {instrs left right : List Instr}

theorem nil : Segment outermost exits position [] slot (some slot) :=
  ⟨fun _ _ => False, Or.inr ⟨rfl, rfl⟩, fun _ _ known => known.elim⟩

theorem single {instr : Instr}
    (accepts : Accepts outermost
      (fun place slot => exits place slot ∨ place = position + 1 ∧ after = some slot)
      position instr slot) :
    Segment outermost exits position [instr] slot after := by
  refine ⟨fun place other => place = position ∧ other = slot, Or.inl ⟨rfl, rfl⟩, ?_⟩
  rintro place other ⟨rfl, rfl⟩
  exact ⟨0, instr, rfl, rfl, accepts.mono fun _ _ => Or.inr⟩

theorem straight {instr : Instr} {taken put : Nat} (moves : instr.Straight taken put) (rest : Nat)
    (loops : List OpenLoop) :
    Segment outermost exits position [instr] ⟨rest + taken, loops⟩ (some ⟨rest + put, loops⟩) :=
  single (.straight rest moves (Or.inr ⟨rfl, rfl⟩))

/-- Whatever the places of a segment lead to may be described anew. -/
theorem revise {after' : Option Slot} (segment : Segment outermost exits position instrs slot after)
    (start : after = some slot → after' = some slot)
    (onward : ∀ places : Places, (places position slot ∨ instrs = []) → ∀ place other,
      exits place other ∨ place = position + instrs.length ∧ after = some other →
        places place other ∨ more place other ∨
          place = position + instrs.length ∧ after' = some other) :
    Segment outermost more position instrs slot after' := by
  obtain ⟨places, begun, accepted⟩ := segment
  refine ⟨places, begun.imp_right (And.imp_right start), fun place slot known => ?_⟩
  obtain ⟨offset, instr, same, found, accepts⟩ := accepted place slot known
  refine ⟨offset, instr, same, found, accepts.mono fun place other reached => ?_⟩
  rcases reached with inside | outside
  · exact Or.inl inside
  · exact onward places (begun.imp_right And.left) place other outside

theorem mono (segment : Segment outermost exits position instrs slot after)
    (wider : ∀ place slot, exits place slot → more place slot) :
    Segment outermost more position instrs slot after :=
  segment.revise id fun _ _ place other reached => Or.inr (reached.imp_left (wider place other))

/-- Code that never runs on to its end goes with any slot there. -/
theorem orAfter (segment : Segment outermost exits position instrs slot none) :
    Segment outermost exits position instrs slot after :=
  segment.revise nofun fun _ _ _ _ reached =>
    Or.inr (reached.imp_right fun impossible => nomatch impossible.2)

/-- A jump to the end is as good as running on to it. -/
theorem close (middle : Slot)
    (segment : Segment outermost (exits.orAt (position + instrs.length) middle) position instrs slot
      (some middle)) :
    Segment outermost exits position instrs slot (some middle) :=
  segment.revise id fun _ _ place other reached => by
    rcases reached with (outside | ⟨rfl, rfl⟩) | ended
    · exact Or.inr (Or.inl outside)
    · exact Or.inr (Or.inr ⟨rfl, rfl⟩)
    · exact Or.inr (Or.inr ended)

/-- A jump back to the start stays inside. -/
theorem loop (nonempty : instrs ≠ [])
    (segment : Segment outermost (exits.orAt position slot) position instrs slot after) :
    Segment outermost exits position instrs slot after :=
  segment.revise id fun places begun place other reached => by
    rcases reached with (outside | ⟨rfl, rfl⟩) | ended
    · exact Or.inr (Or.inl outside)
    · exact Or.inl (begun.resolve_right nonempty)
    · exact Or.inr (Or.inr ended)

/-- The first part runs on, or jumps, to the seam. -/
theorem append (first : Segment outermost exits position left slot (some middle))
    (second : Segment outermost exits (position + left.length) right middle after) :
    Segment outermost exits position (left ++ right) slot after := by
  obtain ⟨lefts, start, leftAccepted⟩ := first
  obtain ⟨rights, seam, rightAccepted⟩ := second
  have ends : position + left.length + right.length = position + (left ++ right).length := by
    rw [List.length_append, Nat.add_assoc]
  refine ⟨fun place slot => lefts place slot ∨ rights place slot, ?_, ?_⟩
  · rcases start with inside | ⟨rfl, same⟩
    · exact Or.inl (Or.inl inside)
    · cases same
      exact seam.imp Or.inr id
  · rintro place slot (known | known)
    · obtain ⟨offset, instr, same, found, accepts⟩ := leftAccepted place slot known
      obtain ⟨within, _⟩ := List.getElem?_eq_some_iff.mp found
      refine ⟨offset, instr, same, by rw [List.getElem?_append_left within]; exact found, ?_⟩
      refine accepts.mono fun place slot reached => ?_
      rcases reached with inside | outside | ⟨rfl, same⟩
      · exact Or.inl (Or.inl inside)
      · exact Or.inr (Or.inl outside)
      · cases same
        rcases seam with inside | ⟨rfl, same⟩
        · exact Or.inl (Or.inr inside)
        · exact Or.inr (Or.inr ⟨by rw [List.append_nil], same⟩)
    · obtain ⟨offset, instr, rfl, found, accepts⟩ := rightAccepted place slot known
      refine ⟨left.length + offset, instr, Nat.add_assoc _ _ _, ?_, ?_⟩
      · rw [List.getElem?_append_right (Nat.le_add_right _ _), Nat.add_sub_cancel_left]
        exact found
      · rw [← ends]
        exact accepts.mono fun _ _ => Or.imp_left Or.inr

/-- One instruction in front. -/
theorem cons (middle : Slot) {instr : Instr}
    (accepts : Accepts outermost (exits.orAt (position + 1) middle) position instr slot)
    (rest : Segment outermost exits (position + 1) instrs middle after) :
    Segment outermost exits position (instr :: instrs) slot after := by
  have front : Segment outermost exits position [instr] slot (some middle) := by
    refine single (accepts.mono fun place other reached => ?_)
    rcases reached with outside | ⟨rfl, rfl⟩
    · exact Or.inl outside
    · exact Or.inr ⟨rfl, rfl⟩
  exact front.append rest

end Segment

/-- Code that leaves `count` operands more, whatever is below them. -/
def Pushes (position : Nat) (instrs : List Instr) (count : Nat) : Prop :=
  ∀ outermost exits height loops,
    Segment outermost exits position instrs ⟨height, loops⟩ (some ⟨height + count, loops⟩)

namespace Pushes

variable {position first second : Nat} {left right : List Instr}

theorem nil : Pushes position [] 0 :=
  fun _ _ _ _ => .nil

theorem append (before : Pushes position left first)
    (next : Pushes (position + left.length) right second) :
    Pushes position (left ++ right) (first + second) := by
  intro outermost exits height loops
  have rest := next outermost exits (height + first) loops
  rw [Nat.add_assoc] at rest
  exact (before outermost exits height loops).append rest

/-- An instruction that takes all that has been left. -/
theorem apply {instr : Instr} {put : Nat} (before : Pushes position left first)
    (moves : instr.Straight first put) : Pushes position (left ++ [instr]) put :=
  fun outermost exits height loops =>
    (before outermost exits height loops).append (.straight moves height loops)

end Pushes

/-- Code with a layout: a `return` leaves code that is not outermost, and only the outermost code
ends by itself, without operands and loops. -/
structure LaidOut (outermost : Bool) (code : Code) (places : Places) : Prop where
  start : places 0 (.level [])
  accepts : ∀ {position slot}, places position slot → position < code.size →
    ∃ instr, code.instrs[position]? = some instr ∧ Accepts outermost places position instr slot
  ends : ∀ {position slot}, places position slot → code.size ≤ position →
    outermost = true ∧ slot = .level []

/-- A segment without exits that is all of the code. -/
theorem Segment.laidOut {outermost : Bool} {code : Code} {after : Option Slot}
    (segment : Segment outermost (fun _ _ => False) 0 code.instrs.toList (.level []) after)
    (ends : ∀ slot, after = some slot → outermost = true ∧ slot = .level []) :
    ∃ places, LaidOut outermost code places := by
  obtain ⟨places, start, accepted⟩ := segment
  refine ⟨fun place slot => places place slot ∨ place = code.size ∧ after = some slot, ?_, ?_, ?_⟩
  · refine start.imp_right fun ⟨empty, same⟩ => ⟨?_, same⟩
    rw [Code.size, ← Array.length_toList, empty]
    rfl
  · rintro place slot (known | ⟨rfl, _⟩) within
    · obtain ⟨offset, instr, same, found, accepts⟩ := accepted place slot known
      rw [Nat.zero_add] at same
      subst same
      refine ⟨instr, by rw [← Array.getElem?_toList]; exact found, ?_⟩
      refine accepts.mono fun place slot reached => ?_
      rcases reached with inside | outside | ⟨rfl, same⟩
      · exact Or.inl inside
      · exact outside.elim
      · exact Or.inr ⟨by rw [Nat.zero_add, Code.size, Array.length_toList], same⟩
    · exact absurd within (Nat.lt_irrefl _)
  · rintro place slot (known | ⟨rfl, same⟩) beyond
    · obtain ⟨offset, instr, rfl, found, _⟩ := accepted place slot known
      obtain ⟨within, _⟩ := List.getElem?_eq_some_iff.mp found
      rw [Array.length_toList] at within
      rw [Nat.zero_add] at beyond
      exact absurd (Nat.lt_of_lt_of_le within beyond) (Nat.lt_irrefl _)
    · exact ends slot same

end MiniScript
