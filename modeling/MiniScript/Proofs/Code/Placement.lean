import MiniScript.Proofs.Code.Labels

/-!
# Addresses in place of labels

If every label has a place, the instructions of a builder can be given addresses
for their labels at once. This changes nothing else that a builder does, and when all
labels are bound to their places it changes nothing in the code that is finished.
-/

namespace MiniScript

namespace Operand

/-- The operand with the place of the label for a label. -/
def placed (places : Label → Nat) : Operand → Operand
  | .label target => .addr (places target)
  | operand => operand

theorem isLabel_placed (places : Label → Nat) (operand : Operand) :
    (operand.placed places).isLabel = false := by
  cases operand <;> rfl

theorem placed_of_plain (places : Label → Nat) {operand : Operand}
    (plain : operand.isLabel = false) : operand.placed places = operand := by
  cases operand with
  | label target => exact nomatch plain
  | _ => rfl

end Operand

namespace Instr

def placed (places : Label → Nat) (instr : Instr) : Instr :=
  { instr with first := instr.first.placed places, second := instr.second.placed places }

theorem isPlain_placed (places : Label → Nat) (instr : Instr) : (instr.placed places).IsPlain :=
  ⟨instr.first.isLabel_placed places, instr.second.isLabel_placed places⟩

theorem placed_of_isPlain (places : Label → Nat) {instr : Instr} (plain : instr.IsPlain) :
    instr.placed places = instr := by
  obtain ⟨op, first, second⟩ := instr
  rw [placed, Operand.placed_of_plain places plain.1, Operand.placed_of_plain places plain.2]

/-- There is no label in an instruction without labels. -/
theorem IsPlain.not_has {instr : Instr} (plain : instr.IsPlain) (label : Label) :
    ¬ instr.Has label := by
  rintro (same | same)
  · exact nomatch same ▸ plain.1
  · exact nomatch same ▸ plain.2

end Instr

namespace Builder

/-- The builder with addresses for the labels, which it then need not know. -/
def placed (places : Label → Nat) (builder : Builder) : Builder :=
  { builder with instrs := builder.instrs.map (Instr.placed places), labels := #[] }

variable {places : Label → Nat}

theorem placed_fresh (sourceName : Option String) :
    ({ sourceName } : Builder).placed places = { sourceName } := by
  rw [placed, Array.map_empty]

theorem placed_position (builder : Builder) :
    (builder.placed places).position = builder.position :=
  Array.size_map

theorem placed_callsFrom (builder : Builder) (start : Nat) :
    (builder.placed places).callsFrom start = builder.callsFrom start := by
  rw [callsFrom, placed_position, placed, ← Array.map_extract, Array.any_map]
  rfl

theorem placed_flush (builder : Builder) (bracket : Bracket) :
    (builder.flush bracket).placed places = (builder.placed places).flush bracket := by
  unfold flush
  rw [placed_position, placed_callsFrom, apply_ite (placed places)]
  rfl

theorem placed_flushInnermost (builder : Builder) :
    builder.flushInnermost.placed places = (builder.placed places).flushInnermost := by
  unfold flushInnermost
  rw [show (builder.placed places).brackets = builder.brackets from rfl]
  split
  · rfl
  · exact placed_flush builder _

theorem placed_restartInnermost (builder : Builder) :
    builder.restartInnermost.placed places = (builder.placed places).restartInnermost := by
  unfold restartInnermost
  rw [show (builder.placed places).brackets = builder.brackets from rfl, placed_position]
  split <;> rfl

theorem placed_emit (builder : Builder) (instr : Instr) :
    (builder.emit instr).placed places = (builder.placed places).emit (instr.placed places) := by
  simp only [emit, placed, Array.map_push]

theorem placed_emitUnmapped (builder : Builder) (instr : Instr) :
    (builder.emitUnmapped instr).placed places =
      (builder.placed places).emitUnmapped (instr.placed places) := by
  rw [emitUnmapped, placed_restartInnermost, placed_emit, placed_flushInnermost]
  rfl

theorem placed_openSource (builder : Builder) (line : Nat) :
    (builder.openSource line).placed places = (builder.placed places).openSource line := by
  rw [openSource, openSource, ← placed_flushInnermost, placed_position]
  rfl

theorem placed_closeSource (builder : Builder) :
    builder.closeSource.placed places = (builder.placed places).closeSource := by
  unfold closeSource
  rw [show (builder.placed places).brackets = builder.brackets from rfl]
  split
  · rfl
  · rw [placed_restartInnermost, ← placed_flush]
    rfl

/-- The step with addresses for the labels of its instruction. -/
def Step.placed (places : Label → Nat) : Step → Step
  | .emit instr => .emit (instr.placed places)
  | .emitUnmapped instr => .emitUnmapped (instr.placed places)
  | .openSource line => .openSource line
  | .closeSource => .closeSource

theorem placed_apply (builder : Builder) (step : Step) :
    (builder.apply step).placed places = (builder.placed places).apply (step.placed places) := by
  cases step with
  | emit instr => exact placed_emit builder instr
  | emitUnmapped instr => exact placed_emitUnmapped builder instr
  | openSource line => exact placed_openSource builder line
  | closeSource => exact placed_closeSource builder

theorem placed_closeAll (count : Nat) (builder : Builder) :
    (closeAll count builder).placed places = closeAll count (builder.placed places) := by
  induction count generalizing builder with
  | zero => rfl
  | succ count ih => rw [closeAll, ih, placed_closeSource, ← closeAll]

/-- Every label among the operands is bound to its place. -/
def Bound (places : Label → Nat) (labels : Array (Option Nat)) (instr : Instr) : Prop :=
  ∀ label, instr.Has label → labels[label]? = some (some (places label))

section

variable {labels : Array (Option Nat)} {entries : Array SourceEntry} {instrs : List Instr}

theorem resolveOperand_of_bound {operand : Operand} (position : Nat)
    (bound : ∀ label, operand = .label label → labels[label]? = some (some (places label))) :
    resolveOperand labels entries position operand = .ok (operand.placed places) := by
  cases operand with
  | label label => rw [resolveOperand, bound label rfl, Operand.placed]
  | _ => rfl

theorem resolveFirsts_of_bound (position : Nat)
    (bound : ∀ instr ∈ instrs, Bound places labels instr) :
    resolveFirsts labels entries position instrs =
      .ok (instrs.map fun instr => { instr with first := instr.first.placed places }) := by
  induction instrs generalizing position with
  | nil => rfl
  | cons instr rest ih =>
      rw [List.forall_mem_cons] at bound
      rw [resolveFirsts,
        resolveOperand_of_bound position fun label same => bound.1 label (.inl same),
        ih (position + 1) bound.2]
      rfl

theorem resolveSeconds_of_bound (position : Nat)
    (bound : ∀ instr ∈ instrs, Bound places labels instr) :
    resolveSeconds labels entries position
        (instrs.map fun instr => { instr with first := instr.first.placed places }) =
      .ok (instrs.map (Instr.placed places)) := by
  induction instrs generalizing position with
  | nil => rfl
  | cons instr rest ih =>
      rw [List.forall_mem_cons] at bound
      rw [List.map_cons, resolveSeconds,
        resolveOperand_of_bound position fun label same => bound.1 label (.inr same),
        ih (position + 1) bound.2]
      rfl

end

/-- Code is finished as if the labels had had their addresses from the start. -/
theorem finish_placed {builder : Builder}
    (bound : ∀ instr ∈ builder.instrs.toList, Bound places builder.labels instr) :
    builder.finish = (builder.placed places).finish := by
  have plain : ∀ instr ∈ builder.instrs.toList.map (Instr.placed places), instr.IsPlain := by
    rintro instr member
    obtain ⟨instr, _, rfl⟩ := List.mem_map.mp member
    exact instr.isPlain_placed places
  have closed : (closeAll builder.brackets.length builder).placed places = _ :=
    placed_closeAll builder.brackets.length builder
  have entries : (closeAll builder.brackets.length builder).entries =
      (closeAll builder.brackets.length (builder.placed places)).entries := by
    rw [← closed]
    rfl
  have given : (builder.placed places).instrs.toList =
      builder.instrs.toList.map (Instr.placed places) := Array.toList_map
  have sourceName : (closeAll builder.brackets.length builder).sourceName =
      (closeAll builder.brackets.length (builder.placed places)).sourceName := by
    rw [← closed]
    rfl
  rw [finish, finish, show (builder.placed places).brackets = builder.brackets from rfl]
  simp only [closeAll_instrs, closeAll_labels, resolveFirsts_of_bound 0 bound,
    resolveSeconds_of_bound 0 bound, given, resolveFirsts_of_plain _ _ 0 plain,
    resolveSeconds_of_plain _ _ 0 plain, Bind.bind, Except.bind, entries, sourceName]

end Builder

end MiniScript
