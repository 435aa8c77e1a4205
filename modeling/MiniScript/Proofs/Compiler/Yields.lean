import MiniScript.Proofs.Compiler.Laying

/-!
# What laying code out yields

`Yields` opens the computations that lay code out, one lemma for each way of
putting them together. The code that a builder finishes is the list of the
instructions it was given, if none of them holds a label.
-/

namespace MiniScript

namespace Operand

def isLabel : Operand → Bool
  | .label _ => true
  | _ => false

end Operand

/-- Neither operand is a label. -/
def Instr.IsPlain (instr : Instr) : Prop :=
  instr.first.isLabel = false ∧ instr.second.isLabel = false

namespace Compiler

section

variable {α β : Type} {before after : LayState}

/-- The computation succeeds with a result and leads from one state to another. -/
def Yields (computation : Lay α) (before : LayState) (result : α) (after : LayState) : Prop :=
  computation.run before = .ok (result, after)

theorem yields_pure {value result : α} :
    Yields (pure value) before result after ↔ result = value ∧ after = before := by
  constructor
  · intro ran
    cases ran
    exact ⟨rfl, rfl⟩
  · rintro ⟨rfl, rfl⟩
    rfl

theorem yields_bind {first : Lay α} {next : α → Lay β} {result : β} :
    Yields (first >>= next) before result after ↔
      ∃ value middle, Yields first before value middle ∧
        Yields (next value) middle result after := by
  unfold Yields
  rw [StateT.run_bind]
  constructor
  · intro ran
    cases opened : first.run before with
    | error error =>
        rw [opened] at ran
        cases ran
    | ok pair =>
        rw [opened] at ran
        exact ⟨pair.1, pair.2, rfl, ran⟩
  · rintro ⟨value, middle, opened, ran⟩
    rw [opened]
    exact ran

theorem yields_reject {fault : CompileFault} {line : Nat} {result : α} :
    Yields (reject fault line) before result after ↔ False :=
  ⟨nofun, False.elim⟩

theorem yields_ite {condition : Prop} [Decidable condition] {first second : Lay α}
    {result : α} :
    Yields (if condition then first else second) before result after ↔
      condition ∧ Yields first before result after ∨
        ¬ condition ∧ Yields second before result after := by
  by_cases holds : condition <;> simp [holds]

theorem yields_lift {outcome : Except CompileError α} {result : α} :
    Yields (liftM outcome) before result after ↔ outcome = .ok result ∧ after = before := by
  cases outcome with
  | error error => exact ⟨nofun, fun same => nomatch same.1⟩
  | ok value =>
      rw [show Yields (liftM (Except.ok value : Except CompileError α)) before result after ↔
        Yields (pure value) before result after from Iff.rfl, yields_pure]
      exact and_congr_left' ⟨fun same => congrArg _ same.symm, fun same => by cases same; rfl⟩

theorem yields_get {result : LayState} :
    Yields get before result after ↔ result = before ∧ after = before := by
  rw [show Yields get before result after ↔
    (Except.ok (before, before) : Except CompileError _) = .ok (result, after) from Iff.rfl]
  simp only [Except.ok.injEq, Prod.mk.injEq, eq_comm]

theorem yields_set {state : LayState} {result : PUnit} :
    Yields (set state) before result after ↔ after = state := by
  rw [show Yields (set state) before result after ↔
    (Except.ok (PUnit.unit, state) : Except CompileError _) = .ok (result, after) from Iff.rfl]
  simp only [Except.ok.injEq, Prod.mk.injEq, true_and, eq_comm]

theorem yields_takeLoop {id : Nat} :
    Yields takeLoop before id after ↔ id = before.nextLoop % UInt32.size ∧
      after = { before with nextLoop := before.nextLoop + 1 } := by
  simp only [takeLoop, yields_bind, yields_get, yields_set, yields_pure]
  constructor
  · rintro ⟨state, _, ⟨rfl, rfl⟩, _, _, rfl, rfl, rfl⟩
    exact ⟨rfl, rfl⟩
  · rintro ⟨rfl, rfl⟩
    exact ⟨before, before, ⟨rfl, rfl⟩, ⟨⟩, _, rfl, rfl, rfl⟩

theorem yields_takeFunction {definition : Definition} {ref : FunctionRef} :
    Yields (takeFunction definition) before ref after ↔
      ref = ⟨before.functions.size⟩ ∧
        after = { before with functions := before.functions.push definition } := by
  simp only [takeFunction, yields_bind, yields_get, yields_set, yields_pure]
  constructor
  · rintro ⟨state, _, ⟨rfl, rfl⟩, _, _, rfl, rfl, rfl⟩
    exact ⟨rfl, rfl⟩
  · rintro ⟨rfl, rfl⟩
    exact ⟨before, before, ⟨rfl, rfl⟩, ⟨⟩, _, rfl, rfl, rfl⟩

end

end Compiler

namespace Builder

open Compiler

theorem flushInnermost_instrs (builder : Builder) :
    builder.flushInnermost.instrs = builder.instrs := by
  unfold flushInnermost
  split
  · rfl
  · exact flush_instrs builder _

theorem restartInnermost_instrs (builder : Builder) :
    builder.restartInnermost.instrs = builder.instrs := by
  unfold restartInnermost
  split <;> rfl

theorem closeSource_instrs (builder : Builder) : builder.closeSource.instrs = builder.instrs := by
  unfold closeSource
  split
  · rfl
  · rw [restartInnermost_instrs]
    exact flush_instrs builder _

theorem apply_instrs (builder : Builder) (step : Step) :
    (builder.apply step).instrs.toList = builder.instrs.toList ++ step.instr?.toList := by
  cases step with
  | emit instr => exact Array.toList_push
  | emitUnmapped instr =>
      simp only [apply, emitUnmapped, restartInnermost_instrs, emit, flushInnermost_instrs,
        Array.toList_push, Step.instr?, Option.toList_some]
  | openSource line =>
      simp only [apply, openSource, flushInnermost_instrs, Step.instr?, Option.toList_none,
        List.append_nil]
  | closeSource =>
      simp only [apply, closeSource_instrs, Step.instr?, Option.toList_none, List.append_nil]

theorem applyAll_instrs (builder : Builder) (steps : List Step) :
    (builder.applyAll steps).instrs.toList = builder.instrs.toList ++ instrsOf steps := by
  induction steps generalizing builder with
  | nil => exact (List.append_nil _).symm
  | cons step rest ih =>
      rw [show builder.applyAll (step :: rest) = (builder.apply step).applyAll rest from rfl, ih,
        apply_instrs]
      cases step <;> simp [instrsOf, Step.instr?, List.filterMap_cons]

theorem closeAll_instrs (count : Nat) (builder : Builder) :
    (closeAll count builder).instrs = builder.instrs := by
  induction count generalizing builder with
  | zero => rfl
  | succ count ih => exact (ih builder.closeSource).trans (closeSource_instrs builder)

theorem resolveOperand_of_plain (labels : Array (Option Nat)) (entries : Array SourceEntry)
    (position : Nat) {operand : Operand} (plain : operand.isLabel = false) :
    resolveOperand labels entries position operand = .ok operand := by
  cases operand with
  | label label => exact nomatch plain
  | _ => rfl

theorem resolveFirsts_of_plain (labels : Array (Option Nat)) (entries : Array SourceEntry)
    (position : Nat) {instrs : List Instr} (plain : ∀ instr ∈ instrs, instr.IsPlain) :
    resolveFirsts labels entries position instrs = .ok instrs := by
  induction instrs generalizing position with
  | nil => rfl
  | cons instr rest ih =>
      rw [List.forall_mem_cons] at plain
      rw [resolveFirsts, resolveOperand_of_plain labels entries position plain.1.1,
        ih (position + 1) plain.2]
      rfl

theorem resolveSeconds_of_plain (labels : Array (Option Nat)) (entries : Array SourceEntry)
    (position : Nat) {instrs : List Instr} (plain : ∀ instr ∈ instrs, instr.IsPlain) :
    resolveSeconds labels entries position instrs = .ok instrs := by
  induction instrs generalizing position with
  | nil => rfl
  | cons instr rest ih =>
      rw [List.forall_mem_cons] at plain
      rw [resolveSeconds, resolveOperand_of_plain labels entries position plain.1.2,
        ih (position + 1) plain.2]
      rfl

/-- Instructions without labels are finished as they are. -/
theorem instrs_of_finish {sourceName : Option String} {steps : List Step} {code : Code}
    (plain : ∀ instr ∈ instrsOf steps, instr.IsPlain)
    (finished : (applyAll { sourceName } steps).finish = .ok code) :
    code.instrs.toList = instrsOf steps := by
  have given : (applyAll { sourceName } steps).instrs.toList = instrsOf steps :=
    applyAll_instrs { sourceName } steps
  simp only [finish, closeAll_instrs, given, resolveFirsts_of_plain _ _ _ plain, Bind.bind,
    Except.bind, resolveSeconds_of_plain _ _ _ plain] at finished
  cases finished
  rfl

end Builder

end MiniScript
