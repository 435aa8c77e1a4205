import MiniScript.Operator.Basic
import MiniScript.World.Basic

/-!
# Members and ancestors

A member of a map is looked for in the map, then in its ancestors, nearest
first, and last in the table of methods for maps. How many links to ancestors are
followed is limited. Lists and strings have members by position; all other members
come from the table of methods for the kind of value.
-/

namespace MiniScript

/-- A member, and the map it was found in if it is a map's own or inherited. -/
structure Member where
  value : Value
  owner : Option MapRef

namespace Heap

/-- Looks in a map and in at most `limit` ancestors. -/
def lookupInChain (heap : Heap) (key : Value) (whole : Nat) :
    Nat → MapRef → Except Fault (Option Member)
  | limit, map =>
      match heap.get? map key with
      | some value => .ok (some ⟨value, some map⟩)
      | none =>
          match heap.isaParent? map with
          | none => .ok none
          | some parent =>
              match limit with
              | 0 => .error (.isaChainTooDeep whole)
              | limit + 1 => lookupInChain heap key whole limit parent

/-- Whether `ancestor` is met when at most `limit` links are followed from `current` on. -/
def reaches (heap : Heap) (ancestor : MapRef) (whole : Nat) :
    Nat → Option MapRef → Except Fault Bool
  | _, none => .ok false
  | limit, some parent =>
      if parent = ancestor then .ok true
      else
        match limit with
        | 0 => .error (.isaChainTooDeep whole)
        | limit + 1 => reaches heap ancestor whole limit (heap.isaParent? parent)

end Heap

namespace World

variable {σ : Type}

/-- A method that all values of one kind have. -/
def coreMember (world : World σ) (kind : Kind) (key : Value) : Except Fault Member :=
  match (world.core.table? kind).bind fun table => world.heap.get? table key with
  | some value => .ok ⟨value, none⟩
  | none => .error (.keyNotFound (world.heap.display key))

/-- The member of a value. -/
def member (world : World σ) (subject key : Value) : Except Fault Member :=
  match subject with
  | .null => .error (.cannotIndexNull (world.heap.repr key))
  | .map map => do
      match ← world.heap.lookupInChain key world.limits.maxIsaDepth
          world.limits.maxIsaDepth map with
      | some found => return found
      | none => world.coreMember .map key
  | .list list =>
      match key with
      | .number index => do
          let position ← Sequence.position index (world.heap.items list).size
          return ⟨(world.heap.items list)[position]?.getD .null, none⟩
      | key => world.coreMember .list key
  | .text text =>
      match key with
      | .number index => do
          let chars := text.toList
          let position ← Sequence.position index chars.length
          return ⟨.text (String.ofList (chars[position]?.toList)), none⟩
      | key => world.coreMember .text key
  | other => world.coreMember other.kind key

/-- Whether a value is of the kind that `proto` is the table of, or has it as an ancestor. -/
def isa (world : World σ) (value proto : Value) : Except Fault Bool :=
  match proto with
  | .map proto =>
      if world.core.table? value.kind = some proto then .ok true
      else
        match value with
        | .map map =>
            world.heap.reaches proto world.limits.maxIsaDepth world.limits.maxIsaDepth
              (world.heap.isaParent? map)
        | _ => .ok false
  | proto => .ok (value.isNull && proto.isNull)

/-- The result of a binary operator. -/
def binary (world : World σ) (op : BinaryOp) (left right : Value) : Except Fault Draft :=
  match op with
  | .eq => .ok (.truth (world.heap.equal left right))
  | .ne => .ok (.truth (!world.heap.equal left right))
  | .isa => (world.isa left right).map .truth
  | op => Operator.combine world.heap world.limits op left right

end World

end MiniScript
