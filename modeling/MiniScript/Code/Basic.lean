import MiniScript.Code.Instruction

/-!
# Code

The instructions of one program or function body, and a source map: ranges of
instructions, in increasing order and apart from each other, with the line each
comes from. The map is searched by halving.
-/

namespace MiniScript

/-- A line of a source, which may have a name. -/
structure Location where
  sourceName : Option String
  line : Nat
deriving DecidableEq, Repr

def Location.describe (location : Location) : String :=
  match location.sourceName with
  | some name => name ++ " line " ++ toString location.line
  | none => "line " ++ toString location.line

/-- The instructions from `start` up to, but not including, `stop`. -/
structure SourceEntry where
  start : Nat
  stop : Nat
  line : Nat
  /-- Whether one of them can enter a function. -/
  isCallSite : Bool
deriving DecidableEq, Repr, Inhabited

def SourceEntry.contains (entry : SourceEntry) (position : Nat) : Bool :=
  entry.start ≤ position && position < entry.stop

structure Code where
  instrs : Array Instr := #[]
  entries : Array SourceEntry := #[]
  sourceName : Option String := none
deriving Inhabited

namespace Code

def size (code : Code) : Nat :=
  code.instrs.size

def opcodeAt? (code : Code) (position : Nat) : Option Opcode :=
  code.instrs[position]?.map (·.op)

/-- The first index from `low` up to `high` at which an entry stops beyond `position`, provided
that the entries are in order. -/
def searchEntries (entries : Array SourceEntry) (position low high : Nat) : Nat :=
  if low < high then
    let middle := low + (high - low) / 2
    if (entries[middle]?.getD default).stop ≤ position then
      searchEntries entries position (middle + 1) high
    else searchEntries entries position low middle
  else low
termination_by high - low

/-- The entry that holds the instruction at `position`. -/
def entryAt? (code : Code) (position : Nat) : Option SourceEntry :=
  code.entries[searchEntries code.entries position 0 code.entries.size]?.filter
    fun entry => entry.contains position

def lineAt? (code : Code) (position : Nat) : Option Nat :=
  (code.entryAt? position).map (·.line)

def locationAt? (code : Code) (position : Nat) : Option Location :=
  (code.entryAt? position).map fun entry => ⟨code.sourceName, entry.line⟩

end Code

end MiniScript
