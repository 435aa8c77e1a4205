import MiniScript.Proofs.Code.Control

/-!
# Where jumps lead

The code of an expression only ever goes forward, at most to its own end. A part of
some code is sealed in it if no jump from outside of the part leads into it: jumps
lead at most to its beginning, or beyond the end.
-/

namespace MiniScript

open Compiler

/-- The instruction has that address as an operand. -/
def Instr.Aims (instr : Instr) (target : Nat) : Prop :=
  instr.first = .addr target ∨ instr.second = .addr target

theorem Instr.Straight.not_aims {instr : Instr} {taken put : Nat}
    (moves : instr.Straight taken put) (target : Nat) : ¬ instr.Aims target := by
  rintro (first | second)
  · cases moves <;> cases first
  · cases moves <;> cases second

/-- The instruction goes on from `place` to the next one or jumps forward, to `stop` at most. -/
inductive Instr.Forward (place stop : Nat) : Instr → Prop where
  | straight {instr : Instr} {taken put : Nat} (moves : instr.Straight taken put) :
      Forward place stop instr
  | jump {target : Nat} (later : place < target) (most : target ≤ stop) :
      Forward place stop (jumpTo .jump target)
  | branch {op : Opcode} {target : Nat} (branches : op = .jumpIfFalse ∨ op = .jumpIfTrue)
      (later : place < target) (most : target ≤ stop) : Forward place stop (jumpTo op target)

namespace Instr.Forward

variable {place stop more target : Nat} {instr : Instr}

theorem mono (forward : instr.Forward place stop) (further : stop ≤ more) :
    instr.Forward place more := by
  cases forward with
  | straight moves => exact .straight moves
  | jump later most => exact .jump later (Nat.le_trans most further)
  | branch branches later most => exact .branch branches later (Nat.le_trans most further)

theorem aims (forward : instr.Forward place stop) (aims : instr.Aims target) :
    place < target ∧ target ≤ stop := by
  cases forward with
  | straight moves => exact absurd aims (moves.not_aims target)
  | jump later most =>
      rcases aims with first | second
      · cases first
        exact ⟨later, most⟩
      · cases second
  | branch branches later most =>
      rcases aims with first | second
      · cases first
        exact ⟨later, most⟩
      · cases second

/-- It has nothing to do with loops over items, and does not return. -/
theorem op_ne (forward : instr.Forward place stop) {op : Opcode}
    (other : op = .createForLoop ∨ op = .iterateForLoop ∨ op = .breakForLoop ∨
      op = .continueForLoop ∨ op = .return) : instr.op ≠ op := by
  rcases other with rfl | rfl | rfl | rfl | rfl
  all_goals
    cases forward with
    | straight moves =>
        cases moves with
        | unary op => cases op <;> exact nofun
        | _ => exact nofun
    | jump => exact nofun
    | branch branches => rcases branches with rfl | rfl <;> exact nofun

end Instr.Forward

/-- All the instructions from `position` on go forward, to `stop` at most. -/
def Forwards (position stop : Nat) (instrs : List Instr) : Prop :=
  ∀ (offset : Nat) (instr : Instr), instrs[offset]? = some instr →
    instr.Forward (position + offset) stop

namespace Forwards

variable {position stop more target : Nat} {instrs left right : List Instr} {instr : Instr}

theorem nil : Forwards position stop [] :=
  fun _ _ found => nomatch found

theorem single (forward : instr.Forward position stop) : Forwards position stop [instr] := by
  intro offset other found
  cases offset with
  | zero =>
      cases found
      exact forward
  | succ offset => cases found

theorem append (first : Forwards position stop left)
    (second : Forwards (position + left.length) stop right) :
    Forwards position stop (left ++ right) := by
  intro offset instr found
  rcases Nat.lt_or_ge offset left.length with within | beyond
  · rw [List.getElem?_append_left within] at found
    exact first offset instr found
  · rw [List.getElem?_append_right beyond] at found
    have forward := second (offset - left.length) instr found
    rw [show position + left.length + (offset - left.length) = position + offset by omega]
      at forward
    exact forward

theorem cons (forward : instr.Forward position stop) (rest : Forwards (position + 1) stop instrs) :
    Forwards position stop (instr :: instrs) :=
  (single forward).append rest

theorem mono (forwards : Forwards position stop instrs) (further : stop ≤ more) :
    Forwards position more instrs :=
  fun offset instr found => (forwards offset instr found).mono further

theorem aims (forwards : Forwards position stop instrs) (member : instr ∈ instrs)
    (aims : instr.Aims target) : position < target ∧ target ≤ stop := by
  obtain ⟨offset, found⟩ := List.mem_iff_getElem?.mp member
  obtain ⟨later, most⟩ := (forwards offset instr found).aims aims
  omega

end Forwards

/-- The part stands at `place` in code that begins at `position`, and no jump from elsewhere in that
code leads into it. -/
def Sealed (position : Nat) (instrs : List Instr) (place : Nat) (part : List Instr) : Prop :=
  ∃ before after, instrs = before ++ part ++ after ∧ place = position + before.length ∧
    ∀ instr ∈ before ++ after, ∀ target, instr.Aims target →
      target ≤ place ∨ place + part.length < target

namespace Sealed

variable {position place inner : Nat} {instrs part piece before after left right : List Instr}

theorem refl (position : Nat) (instrs : List Instr) : Sealed position instrs position instrs := by
  refine ⟨[], [], (List.append_nil _).symm, rfl, fun instr member => ?_⟩
  cases member

theorem trans (outer : Sealed position instrs place part) (within : Sealed place part inner piece) :
    Sealed position instrs inner piece := by
  obtain ⟨before, after, rfl, rfl, avoids⟩ := outer
  obtain ⟨front, back, rfl, rfl, spares⟩ := within
  refine ⟨before ++ front, back ++ after, ?_, ?_, ?_⟩
  · simp only [List.append_assoc]
  · rw [List.length_append, Nat.add_assoc]
  · simp only [List.length_append] at avoids
    intro instr member target aims
    have outside (member : instr ∈ before ++ after) :
        target ≤ position + before.length + front.length ∨
          position + before.length + front.length + piece.length < target := by
      have := avoids instr member target aims
      omega
    rcases List.mem_append.mp member with early | late
    · rcases List.mem_append.mp early with far | near
      · exact outside (List.mem_append_left _ far)
      · exact spares instr (List.mem_append_left _ near) target aims
    · rcases List.mem_append.mp late with near | far
      · exact spares instr (List.mem_append_right _ near) target aims
      · exact outside (List.mem_append_right _ far)

theorem bounds (within : Sealed position instrs place part) :
    position ≤ place ∧ place + part.length ≤ position + instrs.length := by
  obtain ⟨before, after, rfl, rfl, _⟩ := within
  simp only [List.length_append]
  omega

theorem getElem? (within : Sealed position instrs place part) {offset : Nat}
    (inside : offset < part.length) :
    instrs[place + offset - position]? = part[offset]? := by
  obtain ⟨before, after, rfl, rfl, _⟩ := within
  rw [show position + before.length + offset - position = before.length + offset by omega,
    List.append_assoc, List.getElem?_append_right (Nat.le_add_right _ _),
    Nat.add_sub_cancel_left, List.getElem?_append_left inside]

/-- The first of two pieces, when the second goes forward. -/
theorem ofFirst (position : Nat) {stop : Nat} (left : List Instr)
    (forwards : Forwards (position + left.length) stop right) :
    Sealed position (left ++ right) position left := by
  refine ⟨[], right, rfl, rfl, fun instr member target aims => ?_⟩
  exact Or.inr (forwards.aims member aims).1

/-- The second of two pieces, when the first goes forward to the seam at most. -/
theorem ofSecond (right : List Instr)
    (forwards : Forwards position (position + left.length) left) :
    Sealed position (left ++ right) (position + left.length) right := by
  refine ⟨left, [], (List.append_nil _).symm, rfl, fun instr member target aims => ?_⟩
  rw [List.append_nil] at member
  exact Or.inl (forwards.aims member aims).2

end Sealed

end MiniScript
