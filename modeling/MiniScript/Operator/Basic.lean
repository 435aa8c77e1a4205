import MiniScript.Config
import MiniScript.Heap.Draft
import MiniScript.Heap.Render
import MiniScript.Sequence.Basic
import MiniScript.Text.Search

/-!
# Operators

Numbers have arithmetic and order, and null counts as zero on the right of
arithmetic. Strings are joined, compared and repeated, and a string loses
another from its end. Lists are joined and repeated, maps are merged. Equality
is defined for all values.
-/

namespace MiniScript

namespace Operator

/-- The text that a value adds to a string: nothing for null. -/
def addedText (heap : Heap) : Value → String
  | .null => ""
  | value => heap.display value

/-- What an operator makes of two numbers, unless it is not defined for numbers. -/
def onNumbers? (op : BinaryOp) (left right : Float) : Option Value :=
  match op with
  | .add => some (.number (left + right))
  | .sub => some (.number (left - right))
  | .mul => some (.number (left * right))
  | .div => some (.number (left / right))
  | .mod => some (.number (Number.remainder left right))
  | .pow => some (.number (left.pow right))
  | .lt => some (Value.truth (left < right))
  | .le => some (Value.truth (left ≤ right))
  | .gt => some (Value.truth (left > right))
  | .ge => some (Value.truth (left ≥ right))
  | _ => none

/-- Whether an operator orders its operands. -/
def isOrder : BinaryOp → Bool
  | .lt | .le | .gt | .ge => true
  | _ => false

/-- What an operator makes of two strings, unless it is not defined for strings. -/
def onTexts? (op : BinaryOp) (left right : String) : Option Value :=
  match op with
  | .add => some (.text (left ++ right))
  | .sub => some (.text (String.ofList (Text.dropTail right.toList left.toList)))
  | .lt => some (Value.truth (left < right))
  | .le => some (Value.truth (!(right < left)))
  | .gt => some (Value.truth (right < left))
  | .ge => some (Value.truth (!(left < right)))
  | _ => none

/-- How often a sequence is repeated: multiplication by the factor, division by its inverse. -/
def repeatFactor? (op : BinaryOp) (factor : Float) : Option Float :=
  match op with
  | .mul => some factor
  | .div => if factor == 0.0 then none else some (1.0 / factor)
  | _ => none

/-- The operators other than the equalities and `isa`. -/
def combine (heap : Heap) (limits : Limits) (op : BinaryOp) (left right : Value) :
    Except Fault Draft :=
  let unsupported := Fault.cannotApply op left.kind right.kind
  match left, right with
  | .number first, .number second =>
      match onNumbers? op first second with
      | some value => .ok (.plain value)
      | none => .error unsupported
  | .number first, .null =>
      if isOrder op then .error unsupported
      else
        match onNumbers? op first 0.0 with
        | some value => .ok (.plain value)
        | none => .error unsupported
  | .text first, .text second =>
      match onTexts? op first second with
      | some value => .ok (.plain value)
      | none => .error unsupported
  | .text first, other =>
      if op = .add then .ok (.plain (.text (first ++ addedText heap other)))
      else
        match other with
        | .number factor =>
            match repeatFactor? op factor with
            | some factor => do
                let chars ← Sequence.scale first.toList factor limits.maxSequenceLen
                return .text chars
            | none => .error unsupported
        | _ => .error unsupported
  | other, .text second =>
      if op = .add then .ok (.plain (.text (addedText heap other ++ second)))
      else .error unsupported
  | .list first, .list second =>
      if op = .add then do
        let items := heap.items first ++ heap.items second
        Sequence.checkLength items.size limits.maxSequenceLen
        return .list items
      else .error unsupported
  | .list first, .number factor =>
      match repeatFactor? op factor with
      | some factor => do
          let items ← Sequence.scale (heap.items first).toList factor limits.maxSequenceLen
          return .list items.toArray
      | none => .error unsupported
  | .map first, .map second =>
      if op = .add then
        let merged := heap.withEntries (heap.entries first)
          ((heap.entries second).map fun entry => (entry.key, entry.value))
        .ok (.map { heap.mapAt first with entries := merged })
      else .error unsupported
  | _, _ => .error unsupported

def negate : Value → Except Fault Value
  | .number value => .ok (.number (-value))
  | other => .error (.cannotNegate other.kind)

/-- The part of a list or string between two bounds. -/
def slice (heap : Heap) (subject first last : Value) : Except Fault Draft :=
  match subject with
  | .list ref => do
      let (start, stop) ← Sequence.bounds first last (heap.items ref).size
      return .list ((heap.items ref).extract start stop)
  | .text text => do
      let chars := text.toList
      let (start, stop) ← Sequence.bounds first last chars.length
      return .text ((chars.take stop).drop start)
  | other => .error (.cannotSlice other.kind)

/-- A new map whose parent is `parent`. -/
def instantiate (parent : Value) : Except Fault Draft :=
  match parent with
  | .map _ => .ok (.map (MapObject.ofNames [(isaName, parent)]))
  | other => .error (.cannotInstantiate other.kind)

end Operator

end MiniScript
