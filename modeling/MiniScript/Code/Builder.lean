import MiniScript.Code.Basic
import MiniScript.Code.CompileError

/-!
# Assembling code

A builder takes instructions in order. Source brackets nest: opening one ends
the running segment of the bracket around it, closing it starts a new one, so
every instruction belongs to the innermost bracket that was open when it came.
Labels stand for addresses and are resolved when the code is finished.
-/

namespace MiniScript

/-- An open source bracket and the start of its running segment. -/
structure Bracket where
  line : Nat
  segmentStart : Nat
deriving DecidableEq, Repr

structure Builder where
  instrs : Array Instr := #[]
  /-- The position that each label is bound to. -/
  labels : Array (Option Nat) := #[]
  entries : Array SourceEntry := #[]
  /-- The innermost bracket first. -/
  brackets : List Bracket := []
  sourceName : Option String := none
deriving Inhabited

namespace Builder

def position (builder : Builder) : Nat :=
  builder.instrs.size

def emit (builder : Builder) (instr : Instr) : Builder :=
  { builder with instrs := builder.instrs.push instr }

/-- Whether one of the instructions from `start` on can enter a function. -/
def callsFrom (builder : Builder) (start : Nat) : Bool :=
  (builder.instrs.extract start builder.position).any fun instr => instr.op.isCall

/-- Records the segment of `bracket` that ends here, unless it is empty. -/
def flush (builder : Builder) (bracket : Bracket) : Builder :=
  if bracket.segmentStart < builder.position then
    { builder with
      entries := builder.entries.push
        { start := bracket.segmentStart
          stop := builder.position
          line := bracket.line
          isCallSite := builder.callsFrom bracket.segmentStart } }
  else builder

def flushInnermost (builder : Builder) : Builder :=
  match builder.brackets with
  | [] => builder
  | bracket :: _ => builder.flush bracket

/-- Starts a new segment of the innermost bracket at the current position. -/
def restartInnermost (builder : Builder) : Builder :=
  match builder.brackets with
  | [] => builder
  | bracket :: rest =>
      { builder with brackets := { bracket with segmentStart := builder.position } :: rest }

/-- Takes an instruction that belongs to no line. -/
def emitUnmapped (builder : Builder) (instr : Instr) : Builder :=
  (builder.flushInnermost.emit instr).restartInnermost

def openSource (builder : Builder) (line : Nat) : Builder :=
  let flushed := builder.flushInnermost
  { flushed with brackets := ⟨line, flushed.position⟩ :: flushed.brackets }

def closeSource (builder : Builder) : Builder :=
  match builder.brackets with
  | [] => builder
  | bracket :: rest => ({ builder.flush bracket with brackets := rest }).restartInnermost

def newLabel (builder : Builder) : Label × Builder :=
  (builder.labels.size, { builder with labels := builder.labels.push none })

/-- The line of the innermost bracket. -/
def currentLine (builder : Builder) : Nat :=
  match builder.brackets with
  | [] => 0
  | bracket :: _ => bracket.line

/-- Gives a label the next address. A label that has one, or was never made, is refused before
anything is written: the builder stays as it was. -/
def bind (builder : Builder) (label : Label) : Except CompileError Builder :=
  match builder.labels[label]? with
  | some none =>
      .ok { builder with labels := builder.labels.set! label (some builder.position) }
  | some (some _) => .error ⟨.boundTwice label, builder.currentLine⟩
  | none => .error ⟨.unknownLabel label, builder.currentLine⟩

/-- Closes the brackets that are still open. -/
def closeAll : Nat → Builder → Builder
  | 0, builder => builder
  | count + 1, builder => closeAll count builder.closeSource

/-- The address of a label in place of the label. -/
def resolveOperand (labels : Array (Option Nat)) (entries : Array SourceEntry) (position : Nat) :
    Operand → Except CompileError Operand
  | .label label =>
      match labels[label]? with
      | some (some address) => .ok (.addr address)
      | _ =>
          let line := match entries.find? fun entry => entry.contains position with
            | some entry => entry.line
            | none => 0
          .error ⟨.unresolvedLabel label, line⟩
  | operand => .ok operand

/-- Resolves the first operands of all instructions, from `position` on. -/
def resolveFirsts (labels : Array (Option Nat)) (entries : Array SourceEntry) :
    Nat → List Instr → Except CompileError (List Instr)
  | _, [] => .ok []
  | position, instr :: rest => do
      let first ← resolveOperand labels entries position instr.first
      let rest ← resolveFirsts labels entries (position + 1) rest
      return { instr with first } :: rest

/-- Resolves the second operands of all instructions, from `position` on. -/
def resolveSeconds (labels : Array (Option Nat)) (entries : Array SourceEntry) :
    Nat → List Instr → Except CompileError (List Instr)
  | _, [] => .ok []
  | position, instr :: rest => do
      let second ← resolveOperand labels entries position instr.second
      let rest ← resolveSeconds labels entries (position + 1) rest
      return { instr with second } :: rest

/-- The finished code. The first operands are resolved before the second ones. -/
def finish (builder : Builder) : Except CompileError Code := do
  let closed := closeAll builder.brackets.length builder
  let instrs ← resolveFirsts closed.labels closed.entries 0 closed.instrs.toList
  let instrs ← resolveSeconds closed.labels closed.entries 0 instrs
  return { instrs := instrs.toArray, entries := closed.entries, sourceName := closed.sourceName }

theorem position_emit (builder : Builder) (instr : Instr) :
    (builder.emit instr).position = builder.position + 1 := by
  simp [emit, position]

theorem flush_instrs (builder : Builder) (bracket : Bracket) :
    (builder.flush bracket).instrs = builder.instrs := by
  unfold flush
  split <;> rfl

/-- What the compiler asks of a builder. -/
inductive Step where
  | emit (instr : Instr)
  | emitUnmapped (instr : Instr)
  | openSource (line : Nat)
  | closeSource

def apply (builder : Builder) : Step → Builder
  | .emit instr => builder.emit instr
  | .emitUnmapped instr => builder.emitUnmapped instr
  | .openSource line => builder.openSource line
  | .closeSource => builder.closeSource

def applyAll (builder : Builder) (steps : List Step) : Builder :=
  steps.foldl apply builder

theorem applyAll_append (builder : Builder) (first second : List Step) :
    builder.applyAll (first ++ second) = (builder.applyAll first).applyAll second := by
  simp [applyAll]

/-- The instruction that a step adds. -/
def Step.instr? : Step → Option Instr
  | .emit instr => some instr
  | .emitUnmapped instr => some instr
  | .openSource _ => none
  | .closeSource => none

/-- The instructions that the steps add, in order. -/
def instrsOf (steps : List Step) : List Instr :=
  steps.filterMap Step.instr?

end Builder

end MiniScript
