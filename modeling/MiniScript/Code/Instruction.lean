import MiniScript.Program.Tree
import MiniScript.Value.Basic

/-!
# Instructions

An instruction is an opcode with two operands. Which operands an opcode makes
use of is checked when it is executed, so that code assembled by hand can hold
any combination.
-/

namespace MiniScript

inductive Opcode where
  | pushValue | pushFunction | pushScope
  | loadVar | callVar | assignVar
  | loadIndex | callIndex | assignIndex
  | loadSuperIndex | callSuper | callValue
  | slice | buildList | buildMap
  | binary | compareKeep | negate | not | new
  | pop | dup2
  | jump | jumpIfFalse | jumpIfTrue | return
  | createForLoop | iterateForLoop | breakForLoop | continueForLoop
deriving DecidableEq, Repr, Inhabited

namespace Opcode

def name : Opcode → String
  | .pushValue => "PushValue"
  | .pushFunction => "PushFunction"
  | .pushScope => "PushScope"
  | .loadVar => "LoadVar"
  | .callVar => "CallVar"
  | .assignVar => "AssignVar"
  | .loadIndex => "LoadIndex"
  | .callIndex => "CallIndex"
  | .assignIndex => "AssignIndex"
  | .loadSuperIndex => "LoadSuperIndex"
  | .callSuper => "CallSuper"
  | .callValue => "CallValue"
  | .slice => "Slice"
  | .buildList => "BuildList"
  | .buildMap => "BuildMap"
  | .binary => "Binary"
  | .compareKeep => "CompareKeep"
  | .negate => "Negate"
  | .not => "Not"
  | .new => "New"
  | .pop => "Pop"
  | .dup2 => "Dup2"
  | .jump => "Jump"
  | .jumpIfFalse => "JumpIfFalse"
  | .jumpIfTrue => "JumpIfTrue"
  | .return => "Return"
  | .createForLoop => "CreateForLoop"
  | .iterateForLoop => "IterateForLoop"
  | .breakForLoop => "BreakForLoop"
  | .continueForLoop => "ContinueForLoop"

def all : List Opcode :=
  [.pushValue, .pushFunction, .pushScope, .loadVar, .callVar, .assignVar, .loadIndex, .callIndex,
    .assignIndex, .loadSuperIndex, .callSuper, .callValue, .slice, .buildList, .buildMap, .binary,
    .compareKeep, .negate, .not, .new, .pop, .dup2, .jump, .jumpIfFalse, .jumpIfTrue, .return,
    .createForLoop, .iterateForLoop, .breakForLoop, .continueForLoop]

def ofName? (text : String) : Option Opcode :=
  all.find? fun op => op.name == text

theorem ofName?_name (op : Opcode) : ofName? op.name = some op := by
  cases op <;> decide

/-- The opcodes that may enter a function. -/
def isCall : Opcode → Bool
  | .callVar | .callIndex | .callSuper | .callValue => true
  | _ => false

end Opcode

/-- The variable maps that a script can name. -/
inductive ScopeKind where
  | locals | globals | outer
deriving DecidableEq, Repr, Inhabited

namespace ScopeKind

def ofName? : String → Option ScopeKind
  | "locals" => some .locals
  | "globals" => some .globals
  | "outer" => some .outer
  | _ => none

def describe : ScopeKind → String
  | .locals => "Locals"
  | .globals => "Globals"
  | .outer => "Outer"

end ScopeKind

/-- A place in code that is not known yet. -/
abbrev Label := Nat

inductive Operand where
  | none
  | int (value : Int)
  | value (value : Value)
  | name (name : String)
  | addr (address : Nat)
  | func (ref : FunctionRef)
  | op (op : BinaryOp)
  | scope (scope : ScopeKind)
  /-- Stands for an address until the code is finished. -/
  | label (label : Label)
deriving Inhabited

structure Instr where
  op : Opcode
  first : Operand := .none
  second : Operand := .none
deriving Inhabited

end MiniScript
