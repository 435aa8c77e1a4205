import MiniScript.Json.Reader

/-!
# Limits

What bounds one interpreter and every machine it starts. Limits are read from a
JSON object; a missing one keeps its default, and nothing else is accepted.
-/

namespace MiniScript

structure Limits where
  /-- Instructions in one burst. -/
  burstCycles : Nat := 2000
  /-- Saved call frames. -/
  maxCallDepth : Nat := 256
  /-- Links to parents followed in one lookup. -/
  maxIsaDepth : Nat := 16
  /-- Elements of a list or characters of a text made by an operator or a range. -/
  maxSequenceLen : Nat := 16777216
deriving DecidableEq, Repr, Inhabited

namespace Limits

inductive Field where
  | burstCycles | maxCallDepth | maxIsaDepth | maxSequenceLen
deriving DecidableEq, Repr

def Field.ofName? : String → Option Field
  | "burst_cycles" => some .burstCycles
  | "max_call_depth" => some .maxCallDepth
  | "max_isa_depth" => some .maxIsaDepth
  | "max_sequence_len" => some .maxSequenceLen
  | _ => none

def assign (limits : Limits) (field : Field) (value : Nat) : Limits :=
  match field with
  | .burstCycles => { limits with burstCycles := value }
  | .maxCallDepth => { limits with maxCallDepth := value }
  | .maxIsaDepth => { limits with maxIsaDepth := value }
  | .maxSequenceLen => { limits with maxSequenceLen := value }

/-- Sets a limit from a program; a burst has at least one cycle. -/
def adjust (limits : Limits) (field : Field) (value : Nat) : Limits :=
  match field with
  | .burstCycles => limits.assign field (max 1 value)
  | field => limits.assign field value

/-- Reads the fields one after the other; none may come twice. -/
def readFields : List Field → Limits → List (String × Json) → Option Limits
  | _, limits, [] => some limits
  | seen, limits, (name, document) :: rest =>
      match Field.ofName? name with
      | none => none
      | some field =>
          if seen.contains field then none
          else
            match document.toNat? with
            | none => none
            | some value =>
                if value < UInt64.size then
                  readFields (field :: seen) (limits.assign field value) rest
                else none

/-- Reads limits in their fixed order. -/
def readInOrder : List Field → Limits → List Json → Option Limits
  | _, limits, [] => some limits
  | [], _, _ :: _ => none
  | field :: fields, limits, document :: rest =>
      match document.toNat? with
      | none => none
      | some value =>
          if value < UInt64.size then readInOrder fields (limits.assign field value) rest else none

def ofJson? : Json → Option Limits
  | .object fields => readFields [] {} fields
  | .array items =>
      readInOrder [.burstCycles, .maxCallDepth, .maxIsaDepth, .maxSequenceLen] {} items
  | _ => none

def read? (text : String) : Option Limits :=
  (Json.read? text).bind ofJson?

end Limits

end MiniScript
