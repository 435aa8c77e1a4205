import Mathlib.Data.List.Forall2
import MiniScript.Proofs.Code.SourceMap

/-!
# Labels stand for where they were bound

Labels are numbers, so a builder can be asked to bind one that it never made, one of
another builder or one that it has bound before; it then keeps what it has. Whatever a
builder is asked, in whatever order, its table holds for every label the number of
instructions before the command that bound it. The code is finished exactly if all labels
among the operands have such a place, and puts the place for the label.
-/

namespace MiniScript

/-- The label is one of the operands. -/
def Instr.Has (instr : Instr) (label : Label) : Prop :=
  instr.first = .label label ∨ instr.second = .label label

namespace Builder

theorem flush_labels (builder : Builder) (bracket : Bracket) :
    (builder.flush bracket).labels = builder.labels := by
  unfold flush
  split <;> rfl

theorem flushInnermost_labels (builder : Builder) :
    builder.flushInnermost.labels = builder.labels := by
  unfold flushInnermost
  split
  · rfl
  · exact flush_labels builder _

theorem restartInnermost_labels (builder : Builder) :
    builder.restartInnermost.labels = builder.labels := by
  unfold restartInnermost
  split <;> rfl

theorem closeSource_labels (builder : Builder) : builder.closeSource.labels = builder.labels := by
  unfold closeSource
  split
  · rfl
  · rw [restartInnermost_labels]
    exact flush_labels builder _

theorem apply_labels (builder : Builder) (step : Step) :
    (builder.apply step).labels = builder.labels := by
  cases step with
  | emit instr => rfl
  | emitUnmapped instr =>
      rw [apply, emitUnmapped, restartInnermost_labels]
      exact flushInnermost_labels builder
  | openSource line => exact flushInnermost_labels builder
  | closeSource => exact closeSource_labels builder

theorem closeAll_labels (count : Nat) (builder : Builder) :
    (closeAll count builder).labels = builder.labels := by
  induction count generalizing builder with
  | zero => rfl
  | succ count ih => exact (ih builder.closeSource).trans (closeSource_labels builder)

/-- How many labels the commands make. -/
def labelsOf (commands : List Command) : Nat :=
  commands.countP fun command =>
    match command with
    | .newLabel => true
    | _ => false

/-- One of the commands binds the label at `address`: the label has been made by then, and no
command before it has bound the label. -/
def BindsAt (commands : List Command) (label : Label) (address : Nat) : Prop :=
  ∃ before after, commands = before ++ .bind label :: after ∧ label < labelsOf before ∧
    address = (instrsOf (stepsOf before)).length ∧
    ∀ earlier between, before = earlier ++ .bind label :: between → ¬label < labelsOf earlier

def Binds (commands : List Command) (label : Label) : Prop :=
  ∃ address, BindsAt commands label address

theorem stepsOf_append (first second : List Command) :
    stepsOf (first ++ second) = stepsOf first ++ stepsOf second :=
  List.filterMap_append

theorem instrsOf_append (first second : List Step) :
    instrsOf (first ++ second) = instrsOf first ++ instrsOf second :=
  List.filterMap_append

theorem labelsOf_concat (commands : List Command) (command : Command) :
    labelsOf (commands ++ [command]) = labelsOf commands + labelsOf [command] :=
  List.countP_append

section Commands

variable {commands : List Command} {command : Command} {label : Label} {address : Nat}

theorem not_bindsAt_nil : ¬BindsAt [] label address := by
  rintro ⟨before, after, split, -⟩
  exact List.cons_ne_nil _ _ (List.append_eq_nil_iff.mp split.symm).2

/-- Labels are bound at an instruction of the code or behind its last one. -/
theorem BindsAt.le (bound : BindsAt commands label address) :
    address ≤ (instrsOf (stepsOf commands)).length := by
  obtain ⟨before, after, rfl, -, rfl, -⟩ := bound
  rw [stepsOf_append, instrsOf_append, List.length_append]
  exact Nat.le_add_right _ _

/-- A label is bound by the time a command has asked to bind it after it was made. -/
theorem binds_of_split {before : List Command} (made : label < labelsOf before)
    (after : List Command) : Binds (before ++ .bind label :: after) label := by
  -- The first of the commands that ask for it so is the one that binds it.
  induction length : before.length using Nat.strongRecOn generalizing before after with
  | ind count ih =>
      by_cases again : ∃ earlier between, before = earlier ++ .bind label :: between ∧
          label < labelsOf earlier
      · obtain ⟨earlier, between, rfl, sooner⟩ := again
        rw [List.append_assoc]
        refine ih earlier.length ?_ sooner _ rfl
        rw [← length, List.length_append, List.length_cons]
        omega
      · refine ⟨_, before, after, rfl, made, rfl, fun earlier between split sooner => ?_⟩
        exact again ⟨earlier, between, split, sooner⟩

/-- What a last command adds to the places of labels. -/
theorem bindsAt_concat_iff : BindsAt (commands ++ [command]) label address ↔
    BindsAt commands label address ∨
      command = .bind label ∧ label < labelsOf commands ∧ ¬Binds commands label ∧
        address = (instrsOf (stepsOf commands)).length := by
  constructor
  · rintro ⟨before, after, split, made, rfl, first⟩
    rcases List.eq_nil_or_concat after with rfl | ⟨after, last, rfl⟩
    · obtain ⟨rfl, same⟩ := List.append_inj' split rfl
      refine Or.inr ⟨(List.cons.inj same).1, made, ?_, rfl⟩
      rintro ⟨address, earlier, between, again, sooner, -⟩
      exact first earlier between again sooner
    · rw [List.concat_eq_append, ← List.cons_append, ← List.append_assoc] at split
      exact Or.inl ⟨before, after, (List.append_inj' split rfl).1, made, rfl, first⟩
  · rintro (⟨before, after, rfl, made, rfl, first⟩ | ⟨rfl, made, free, rfl⟩)
    · exact ⟨before, after ++ [command], List.append_assoc _ _ _, made, rfl, first⟩
    · refine ⟨commands, [], rfl, made, rfl, fun earlier between split sooner => free ?_⟩
      rw [split]
      exact binds_of_split sooner between

/-- Only a command to bind adds a place. -/
theorem bindsAt_concat_of_ne (other : command ≠ .bind label) :
    BindsAt (commands ++ [command]) label address ↔ BindsAt commands label address := by
  rw [bindsAt_concat_iff]
  exact or_iff_left fun bound => other bound.1

end Commands

/-- The table of the builder says which labels the commands have made, and where they have bound
them. -/
structure Knows (builder : Builder) (commands : List Command) : Prop where
  position : builder.position = (instrsOf (stepsOf commands)).length
  made : builder.labels.size = labelsOf commands
  places : ∀ label address,
    builder.labels[label]? = some (some address) ↔ BindsAt commands label address

namespace Knows

variable {builder : Builder} {commands : List Command} {label : Label} {address : Nat}

/-- The entry of a label that has been made and is not bound. -/
theorem free_iff (knows : Knows builder commands) :
    builder.labels[label]? = some none ↔ label < labelsOf commands ∧ ¬Binds commands label := by
  rw [← knows.made]
  constructor
  · intro free
    refine ⟨(Array.getElem?_eq_some_iff.mp free).1, ?_⟩
    rintro ⟨address, bound⟩
    exact nomatch free.symm.trans ((knows.places label address).mpr bound)
  · rintro ⟨made, free⟩
    cases entry : builder.labels[label]? with
    | none => exact absurd made (Nat.not_lt_of_le (Array.getElem?_eq_none_iff.mp entry))
    | some place =>
        cases place with
        | none => rfl
        | some address => exact absurd ⟨address, (knows.places label address).mp entry⟩ free

/-- A label is bound if it has been made and is not bound yet, and refused otherwise. -/
theorem bind_cases (knows : Knows builder commands) (label : Label) :
    (label < labelsOf commands ∧ ¬Binds commands label) ∧
        builder.bind label =
          .ok { builder with labels := builder.labels.set! label (some builder.position) } ∨
      ¬(label < labelsOf commands ∧ ¬Binds commands label) ∧
        ∃ error, builder.bind label = .error error := by
  rw [← knows.free_iff, bind]
  cases entry : builder.labels[label]? with
  | none => exact Or.inr ⟨fun same => (nomatch same), _, rfl⟩
  | some place =>
      cases place with
      | none => exact Or.inl ⟨rfl, rfl⟩
      | some address => exact Or.inr ⟨fun same => (nomatch same), _, rfl⟩

/-- One command. -/
theorem obey (knows : Knows builder commands) (command : Command) :
    Knows (builder.obey command) (commands ++ [command]) := by
  have position : (builder.obey command).position =
      (instrsOf (stepsOf (commands ++ [command]))).length := by
    have added := congrArg List.length (obeyAll_instrs builder [command])
    rw [List.length_append, Array.length_toList, Array.length_toList] at added
    rw [stepsOf_append, instrsOf_append, List.length_append, ← knows.position]
    exact added
  cases command with
  | step step =>
      refine ⟨position, ?_, fun label address => ?_⟩
      · rw [labelsOf_concat]
        exact (congrArg Array.size (apply_labels builder step)).trans knows.made
      · have other : Command.step step ≠ .bind label := fun same => nomatch same
        rw [bindsAt_concat_of_ne other, ← knows.places label address]
        exact iff_of_eq (congrArg (·[label]? = _) (apply_labels builder step))
  | newLabel =>
      refine ⟨position, ?_, fun label address => ?_⟩
      · rw [labelsOf_concat, ← knows.made]
        exact Array.size_push _
      · have other : Command.newLabel ≠ .bind label := fun same => nomatch same
        rw [bindsAt_concat_of_ne other, ← knows.places label address]
        change (builder.labels.push none)[label]? = _ ↔ _
        rw [Array.getElem?_push]
        split
        · rename_i last
          rw [last, Array.getElem?_eq_none (Nat.le_refl _)]
          exact ⟨fun same => (nomatch same), fun same => (nomatch same)⟩
        · exact Iff.rfl
  | bind target =>
      have made : labelsOf (commands ++ [.bind target]) = labelsOf commands :=
        labelsOf_concat commands (.bind target)
      rcases knows.bind_cases target with ⟨free, bound⟩ | ⟨kept, error, refused⟩
      · have obeyed : builder.obey (.bind target) =
            { builder with labels := builder.labels.set! target (some builder.position) } := by
          rw [Builder.obey, bound]
        refine ⟨position, ?_, fun label address => ?_⟩
        · rw [obeyed, made, ← knows.made]
          exact Array.size_setIfInBounds
        · rw [bindsAt_concat_iff, ← knows.places label address, obeyed]
          dsimp only
          rw [Array.set!_eq_setIfInBounds, Array.getElem?_setIfInBounds]
          by_cases same : target = label
          · subst same
            have entry := knows.free_iff.mpr free
            rw [if_pos rfl, if_pos (Array.getElem?_eq_some_iff.mp entry).1, entry, knows.position]
            constructor
            · intro stored
              exact Or.inr ⟨rfl, free.1, free.2, (Option.some.inj (Option.some.inj stored)).symm⟩
            · rintro (stored | ⟨-, -, -, rfl⟩)
              · exact nomatch stored
              · rfl
          · rw [if_neg same]
            exact (or_iff_left fun bound => same (Command.bind.inj bound.1)).symm
      · have obeyed : builder.obey (.bind target) = builder := by
          rw [Builder.obey, refused]
        refine ⟨position, ?_, fun label address => ?_⟩
        · rw [obeyed, made]
          exact knows.made
        · rw [obeyed, bindsAt_concat_iff, knows.places label address]
          refine (or_iff_left ?_).symm
          rintro ⟨same, made, free, -⟩
          obtain rfl : target = label := Command.bind.inj same
          exact kept ⟨made, free⟩

/-- Any number of commands. -/
theorem obeyAll (knows : Knows builder commands) (more : List Command) :
    Knows (builder.obeyAll more) (commands ++ more) := by
  induction more generalizing builder commands with
  | nil => rwa [List.append_nil]
  | cons command rest ih =>
      rw [← List.singleton_append, ← List.append_assoc]
      exact ih (knows.obey command)

theorem fresh (sourceName : Option String) : Knows { sourceName } [] where
  position := rfl
  made := rfl
  places _ _ := iff_of_false (fun stored => nomatch stored) not_bindsAt_nil

end Knows

/-- What two passes over a list make of its elements. -/
theorem forall₂_comp {α : Type} {R S T : α → α → Prop} (both : ∀ x y z, R x y → S y z → T x z)
    {xs ys zs : List α} (first : List.Forall₂ R xs ys) (second : List.Forall₂ S ys zs) :
    List.Forall₂ T xs zs := by
  induction first generalizing zs with
  | nil =>
      cases second
      exact .nil
  | cons before _ ih =>
      cases second with
      | cons after others => exact .cons (both _ _ _ before after) (ih others)

/-- What becomes of an operand: the place of a label stands for the label. -/
inductive Resolves (commands : List Command) : Operand → Operand → Prop where
  | label {label : Label} {address : Nat} (bound : BindsAt commands label address) :
      Resolves commands (.label label) (.addr address)
  | plain {operand : Operand} (plain : operand.isLabel = false) : Resolves commands operand operand

theorem Resolves.binds {commands : List Command} {label : Label} {result : Operand}
    (resolves : Resolves commands (.label label) result) : Binds commands label := by
  cases resolves with
  | label bound => exact ⟨_, bound⟩
  | plain plain => exact nomatch plain

theorem Resolves.isLabel {commands : List Command} {operand result : Operand}
    (resolves : Resolves commands operand result) : result.isLabel = false := by
  cases resolves with
  | label bound => rfl
  | plain plain => exact plain

/-- What becomes of an instruction. -/
structure Resolved (commands : List Command) (instr result : Instr) : Prop where
  op : result.op = instr.op
  first : Resolves commands instr.first result.first
  second : Resolves commands instr.second result.second

namespace Resolved

variable {commands : List Command} {instr result : Instr} {label : Label}

theorem isPlain (resolved : Resolved commands instr result) : result.IsPlain :=
  ⟨resolved.first.isLabel, resolved.second.isLabel⟩

theorem binds (resolved : Resolved commands instr result) (has : instr.Has label) :
    Binds commands label := by
  obtain ⟨-, first, second⟩ := resolved
  rcases has with same | same
  · exact (same ▸ first).binds
  · exact (same ▸ second).binds

end Resolved

/-- The line in an error about the instruction of a position. -/
def lineOf (entries : Array SourceEntry) (position : Nat) : Nat :=
  match entries.find? fun entry => entry.contains position with
  | some entry => entry.line
  | none => 0

/-- The error about an operand of an instruction that is a label without a place. -/
def Unresolved (commands : List Command) (entries : Array SourceEntry) (position : Nat)
    (operand : Operand) (error : CompileError) : Prop :=
  ∃ label, operand = .label label ∧ ¬Binds commands label ∧
    error = ⟨.unresolvedLabel label, lineOf entries position⟩

section Resolving

variable {builder : Builder} {commands : List Command} {entries : Array SourceEntry}

theorem resolveOperand_cases (knows : Knows builder commands) (entries : Array SourceEntry)
    (position : Nat) (operand : Operand) :
    (∃ result, resolveOperand builder.labels entries position operand = .ok result ∧
        Resolves commands operand result) ∨
      ∃ error, resolveOperand builder.labels entries position operand = .error error ∧
        Unresolved commands entries position operand error := by
  cases operand with
  | label label =>
      unfold resolveOperand
      dsimp only
      split
      · rename_i address stored
        exact Or.inl ⟨_, rfl, .label ((knows.places label address).mp stored)⟩
      · rename_i missing
        refine Or.inr ⟨_, rfl, label, rfl, ?_, rfl⟩
        rintro ⟨address, bound⟩
        exact missing address ((knows.places label address).mpr bound)
  | _ => exact Or.inl ⟨_, rfl, .plain rfl⟩

/-- One pass over instructions from `position` on. -/
def resolveEach (resolve : Nat → Instr → Except CompileError Instr) :
    Nat → List Instr → Except CompileError (List Instr)
  | _, [] => .ok []
  | position, instr :: rest => do
      let instr ← resolve position instr
      let rest ← resolveEach resolve (position + 1) rest
      return instr :: rest

def resolveFirst (labels : Array (Option Nat)) (entries : Array SourceEntry) (position : Nat)
    (instr : Instr) : Except CompileError Instr := do
  let first ← resolveOperand labels entries position instr.first
  return { instr with first }

def resolveSecond (labels : Array (Option Nat)) (entries : Array SourceEntry) (position : Nat)
    (instr : Instr) : Except CompileError Instr := do
  let second ← resolveOperand labels entries position instr.second
  return { instr with second }

theorem resolveFirsts_eq (labels : Array (Option Nat)) (entries : Array SourceEntry)
    (position : Nat) (instrs : List Instr) :
    resolveFirsts labels entries position instrs =
      resolveEach (resolveFirst labels entries) position instrs := by
  induction instrs generalizing position with
  | nil => rfl
  | cons instr rest ih =>
      rw [resolveFirsts, resolveEach, resolveFirst, bind_assoc, ih (position + 1)]
      simp only [pure_bind]

theorem resolveSeconds_eq (labels : Array (Option Nat)) (entries : Array SourceEntry)
    (position : Nat) (instrs : List Instr) :
    resolveSeconds labels entries position instrs =
      resolveEach (resolveSecond labels entries) position instrs := by
  induction instrs generalizing position with
  | nil => rfl
  | cons instr rest ih =>
      rw [resolveSeconds, resolveEach, resolveSecond, bind_assoc, ih (position + 1)]
      simp only [pure_bind]

/-- A pass changes each instruction, or ends at the first one that it cannot change. -/
theorem resolveEach_cases {resolve : Nat → Instr → Except CompileError Instr}
    {changes : Instr → Instr → Prop} {fails : Nat → Instr → CompileError → Prop}
    (each : ∀ place instr, (∃ result, resolve place instr = .ok result ∧ changes instr result) ∨
      ∃ error, resolve place instr = .error error ∧ fails place instr error)
    (position : Nat) (instrs : List Instr) :
    (∃ results, resolveEach resolve position instrs = .ok results ∧
        List.Forall₂ changes instrs results) ∨
      ∃ error offset instr, resolveEach resolve position instrs = .error error ∧
        instrs[offset]? = some instr ∧ fails (position + offset) instr error := by
  induction instrs generalizing position with
  | nil => exact Or.inl ⟨[], rfl, .nil⟩
  | cons instr rest ih =>
      rw [resolveEach]
      rcases each position instr with ⟨result, resolved, changed⟩ | ⟨error, failed, fails⟩
      · rw [resolved]
        rcases ih (position + 1) with ⟨results, all, others⟩ | ⟨error, offset, other, failed, fails⟩
        · rw [all]
          exact Or.inl ⟨result :: results, rfl, .cons changed others⟩
        · rw [failed]
          rw [Nat.add_assoc, Nat.add_comm 1] at fails
          exact Or.inr ⟨error, offset + 1, other, rfl, fails⟩
      · rw [failed]
        exact Or.inr ⟨error, 0, instr, rfl, rfl, fails⟩

/-- A pass over the first operands, as one over instructions. -/
theorem resolveFirst_cases (knows : Knows builder commands) (entries : Array SourceEntry)
    (position : Nat) (instr : Instr) :
    (∃ result, resolveFirst builder.labels entries position instr = .ok result ∧
        result.op = instr.op ∧ Resolves commands instr.first result.first ∧
          result.second = instr.second) ∨
      ∃ error, resolveFirst builder.labels entries position instr = .error error ∧
        Unresolved commands entries position instr.first error := by
  rw [resolveFirst]
  rcases resolveOperand_cases knows entries position instr.first with
    ⟨first, resolved, resolves⟩ | ⟨error, failed, unresolved⟩
  · rw [resolved]
    exact Or.inl ⟨_, rfl, rfl, resolves, rfl⟩
  · rw [failed]
    exact Or.inr ⟨error, rfl, unresolved⟩

theorem resolveSecond_cases (knows : Knows builder commands) (entries : Array SourceEntry)
    (position : Nat) (instr : Instr) :
    (∃ result, resolveSecond builder.labels entries position instr = .ok result ∧
        result.op = instr.op ∧ result.first = instr.first ∧
          Resolves commands instr.second result.second) ∨
      ∃ error, resolveSecond builder.labels entries position instr = .error error ∧
        Unresolved commands entries position instr.second error := by
  rw [resolveSecond]
  rcases resolveOperand_cases knows entries position instr.second with
    ⟨second, resolved, resolves⟩ | ⟨error, failed, unresolved⟩
  · rw [resolved]
    exact Or.inl ⟨_, rfl, rfl, rfl, resolves⟩
  · rw [failed]
    exact Or.inr ⟨error, rfl, unresolved⟩

/-- The code is finished, or one of its instructions has a label without a place. -/
theorem finish_cases (knows : Knows builder commands) :
    (∃ code, builder.finish = .ok code ∧
        List.Forall₂ (Resolved commands) builder.instrs.toList code.instrs.toList) ∨
      ∃ position label instr, builder.instrs.toList[position]? = some instr ∧
        instr.Has label ∧ ¬Binds commands label ∧
        builder.finish = .error ⟨.unresolvedLabel label,
          lineOf (closeAll builder.brackets.length builder).entries position⟩ := by
  simp only [finish, Bind.bind, Except.bind, closeAll_labels, closeAll_instrs]
  generalize (closeAll builder.brackets.length builder).entries = entries
  have firsts := resolveEach_cases (resolveFirst_cases knows entries) 0 builder.instrs.toList
  rw [← resolveFirsts_eq] at firsts
  rcases firsts with ⟨results, all, changed⟩ | ⟨error, position, instr, failed, here, unresolved⟩
  · rw [all]
    have seconds := resolveEach_cases (resolveSecond_cases knows entries) 0 results
    rw [← resolveSeconds_eq] at seconds
    rcases seconds with ⟨others, done, also⟩ | ⟨error, position, instr, failed, here, unresolved⟩
    · dsimp only
      rw [done]
      refine Or.inl ⟨_, rfl, ?_⟩
      refine forall₂_comp (fun instr between result before after => ?_) changed also
      obtain ⟨op, first, second⟩ := before
      exact ⟨after.1.trans op, after.2.1 ▸ first, second ▸ after.2.2⟩
    · -- The first pass has left the second operands as they were.
      obtain ⟨inside, rfl⟩ := List.getElem?_eq_some_iff.mp here
      have known := changed.length_eq ▸ inside
      have second := (changed.get known inside).2.2
      obtain ⟨label, names, free, rfl⟩ := unresolved
      dsimp only
      rw [failed, Nat.zero_add]
      exact Or.inr ⟨position, label, _, List.getElem?_eq_getElem known,
        Or.inr (second.symm.trans names), free, rfl⟩
  · obtain ⟨label, names, free, rfl⟩ := unresolved
    rw [failed, Nat.zero_add]
    exact Or.inr ⟨position, label, instr, here, Or.inl names, free, rfl⟩

end Resolving

/-- Once all brackets are closed, the line is that of the innermost bracket. -/
theorem lineOf_closed (sourceName : Option String) (commands : List Command) {position : Nat}
    (inside : position < (instrsOf (stepsOf commands)).length) :
    let builder := obeyAll { sourceName } commands
    ∃ origin, (origins {} (stepsOf commands))[position]? = some origin ∧
      lineOf (closeAll builder.brackets.length builder).entries position =
        origin.elim 0 (·.line) := by
  have covers := closed_covers sourceName commands
  have knows := (Knows.fresh sourceName).obeyAll commands
  dsimp only at covers ⊢
  rw [knows.position] at covers
  generalize (closeAll _ (obeyAll { sourceName } commands)).entries = entries at covers ⊢
  obtain ⟨origin, here⟩ : ∃ origin, (origins {} (stepsOf commands))[position]? = some origin := by
    rw [← origins_length {} (stepsOf commands)] at inside
    exact ⟨_, List.getElem?_eq_getElem inside⟩
  refine ⟨origin, here, ?_⟩
  rw [lineOf]
  split
  · rename_i entry found
    obtain ⟨owner, line, all⟩ := covers.owned entry (Array.mem_of_find?_eq_some found)
    have same := all position (Array.find?_eq_some_iff_append.mp found).1
    rw [Option.some.inj (here.symm.trans same)]
    exact line
  · rename_i nothing
    cases origin with
    | none => rfl
    | some origin =>
        obtain ⟨entry, member, holds⟩ := covers.complete position origin inside here
        exact absurd holds (Array.find?_eq_none.mp nothing entry member)

/-- Labels can be bound once, after they have been made; the finished code has their places for
them; without all places there is no code. -/
structure KeepsLabels (builder : Builder) (commands : List Command) : Prop where
  /-- The number of the next label. -/
  next : builder.newLabel.1 = labelsOf commands
  binds : ∀ label, (∃ bound, builder.bind label = .ok bound) ↔
    label < labelsOf commands ∧ ¬Binds commands label
  /-- A label that cannot be bound leaves the builder as it is. -/
  refuses : ∀ label error, builder.bind label = .error error →
    builder.obey (.bind label) = builder
  finishes : (∃ code, builder.finish = .ok code) ↔
    ∀ instr ∈ instrsOf (stepsOf commands), ∀ label, instr.Has label → Binds commands label
  /-- The instructions are those of the steps, with a place for every label. -/
  resolves : ∀ code, builder.finish = .ok code →
    List.Forall₂ (Resolved commands) (instrsOf (stepsOf commands)) code.instrs.toList ∧
      ∀ instr ∈ code.instrs.toList, instr.IsPlain
  /-- A label stands for an instruction or the end of the code. -/
  bounded : ∀ code label address, builder.finish = .ok code → BindsAt commands label address →
    address ≤ code.size
  /-- The error names a label without a place and the line of the innermost bracket around an
  instruction that has it as an operand. -/
  fails : ∀ error, builder.finish = .error error →
    ∃ (position : Nat) (label : Label) (instr : Instr) (origin : Option Origin),
      (instrsOf (stepsOf commands))[position]? = some instr ∧ instr.Has label ∧
        ¬Binds commands label ∧
        (origins {} (stepsOf commands))[position]? = some origin ∧
        error = ⟨.unresolvedLabel label, origin.elim 0 (·.line)⟩

/-- Whatever a builder has been asked. -/
theorem obeyAll_keeps_labels (sourceName : Option String) (commands : List Command) :
    KeepsLabels (obeyAll { sourceName } commands) commands := by
  have knows : Knows (obeyAll { sourceName } commands) commands :=
    (Knows.fresh sourceName).obeyAll commands
  have finished := finish_cases knows
  rw [show (obeyAll { sourceName } commands).instrs.toList = instrsOf (stepsOf commands) from
    obeyAll_instrs { sourceName } commands] at finished
  refine ⟨knows.made, fun label => ?_, fun label error refused => ?_, ?_, fun code given => ?_,
    fun code label address given bound => ?_, fun error given => ?_⟩
  · rcases knows.bind_cases label with ⟨free, bound⟩ | ⟨kept, error, refused⟩
    · exact iff_of_true ⟨_, bound⟩ free
    · refine iff_of_false ?_ kept
      rintro ⟨bound, done⟩
      exact nomatch refused.symm.trans done
  · rw [obey, refused]
  · rcases finished with ⟨code, done, resolved⟩ | ⟨_, label, instr, here, has, free, failed⟩
    · refine iff_of_true ⟨code, done⟩ fun instr member label has => ?_
      obtain ⟨index, inside, rfl⟩ := List.getElem_of_mem member
      exact (resolved.get inside (resolved.length_eq ▸ inside)).binds has
    · refine iff_of_false ?_ fun all => free (all instr (List.mem_of_getElem? here) label has)
      rintro ⟨code, done⟩
      exact nomatch failed.symm.trans done
  · rcases finished with ⟨other, done, resolved⟩ | ⟨_, _, _, _, _, _, failed⟩
    · obtain rfl := Except.ok.inj (given.symm.trans done)
      refine ⟨resolved, fun instr member => ?_⟩
      obtain ⟨index, inside, rfl⟩ := List.getElem_of_mem member
      exact (resolved.get (resolved.length_eq ▸ inside) inside).isPlain
    · exact nomatch given.symm.trans failed
  · rcases finished with ⟨other, done, resolved⟩ | ⟨_, _, _, _, _, _, failed⟩
    · obtain rfl := Except.ok.inj (given.symm.trans done)
      exact Nat.le_trans bound.le (Nat.le_of_eq resolved.length_eq)
    · exact nomatch given.symm.trans failed
  · rcases finished with ⟨code, done, -⟩ | ⟨position, label, instr, here, has, free, failed⟩
    · exact nomatch given.symm.trans done
    · obtain rfl := Except.error.inj (given.symm.trans failed)
      obtain ⟨origin, around, line⟩ := lineOf_closed sourceName commands
        (List.getElem?_eq_some_iff.mp here).1
      exact ⟨position, label, instr, origin, here, has, free, around, congrArg _ line⟩

end Builder

end MiniScript
