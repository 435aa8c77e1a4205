import MiniScript.Heap.Shape

/-!
# Equality of values

Lists are equal item by item, maps entry by entry in any order, and functions
when they bind one definition to one scope. Containers more than sixteen deep
are equal only if they are the same container. Keys are compared afresh, from
depth zero, so the steps of a comparison are counted separately: running out of
them is an answer of its own.
-/

namespace MiniScript

namespace Heap

/-- Whether all pairs are equal; stops at the first that is not. -/
def allEqual (equal : Value → Value → Option Bool) : List Value → List Value → Option Bool
  | left :: lefts, right :: rights =>
      match equal left right with
      | some true => allEqual equal lefts rights
      | other => other
  | _, _ => some true

/-- The first entry filed under `shape` whose key is equal to `key`. -/
def searchEntry (equal : Value → Value → Option Bool) (key : Value) (shape : UInt64) :
    List Entry → Option (Option Entry)
  | [] => some none
  | entry :: rest =>
      if key.isContainer && entry.shape != shape then searchEntry equal key shape rest
      else
        match equal key entry.key with
        | some true => some (some entry)
        | some false => searchEntry equal key shape rest
        | none => none

/-- The entry of `key`. The only entry of a map is compared whatever shape it is filed under. -/
def findEntry (equal : Value → Value → Option Bool) (key : Value) (shape : UInt64) :
    List Entry → Option (Option Entry)
  | [entry] => (equal key entry.key).map fun same => if same then some entry else none
  | entries => searchEntry equal key shape entries

/-- Whether each of the entries has an equal one among `others`. -/
def allFound (equalKeys equalValues : Value → Value → Option Bool) (shapeOf : Value → UInt64)
    (others : List Entry) : List Entry → Option Bool
  | [] => some true
  | entry :: rest =>
      match findEntry equalKeys entry.key (shapeOf entry.key) others with
      | none => none
      | some none => some false
      | some (some other) =>
          match equalValues entry.value other.value with
          | some true => allFound equalKeys equalValues shapeOf others rest
          | answer => answer

/-- Equality at `depth`, with comparisons nested at most `fuel` deep; `none` beyond that. The map
`busy`, which is being changed, equals no other. -/
def equalWithin (heap : Heap) (busy : Option MapRef) : Nat → Nat → Value → Value → Option Bool
  | 0, _, _, _ => none
  | fuel + 1, depth, left, right =>
      match left, right with
      | .list leftRef, .list rightRef =>
          if leftRef = rightRef then some true
          else if structureDepth ≤ depth then some false
          else if (heap.items leftRef).size != (heap.items rightRef).size then some false
          else
            allEqual (heap.equalWithin busy fuel (depth + 1)) (heap.items leftRef).toList
              (heap.items rightRef).toList
      | .map leftRef, .map rightRef =>
          if leftRef = rightRef then some true
          else if structureDepth ≤ depth then some false
          else if busy = some leftRef || busy = some rightRef then some false
          else if (heap.entries leftRef).length != (heap.entries rightRef).length then some false
          else
            allFound (heap.equalWithin busy fuel 0) (heap.equalWithin busy fuel (depth + 1))
              (heap.keyShape busy) (heap.entries rightRef) (heap.entries leftRef)
      | left, right => some (left.sameScalar right)

/-- More nested comparisons than there can be when no key of a map leads back to that map. -/
def equalityFuel (heap : Heap) : Nat :=
  (structureDepth + 2) * (heap.maps.size + 1)

/-- Equality while the map `busy` is being changed. -/
def equalDuring (heap : Heap) (busy : Option MapRef) (left right : Value) : Bool :=
  (heap.equalWithin busy heap.equalityFuel 0 left right).getD false

/-- Structural equality. -/
def equal (heap : Heap) (left right : Value) : Bool :=
  heap.equalDuring none left right

theorem equalWithin_scalar (heap : Heap) (busy : Option MapRef) (fuel depth : Nat)
    {left right : Value} (scalar : left.isContainer = false) :
    heap.equalWithin busy (fuel + 1) depth left right = some (left.sameScalar right) := by
  cases left <;> cases right <;> simp_all [equalWithin, Value.isContainer, Value.sameScalar]

theorem exists_equalityFuel (heap : Heap) : ∃ fuel, heap.equalityFuel = fuel + 1 :=
  ⟨(structureDepth + 2) * heap.maps.size + (structureDepth + 1), rfl⟩

theorem equalDuring_scalar (heap : Heap) (busy : Option MapRef) {left right : Value}
    (scalar : left.isContainer = false) :
    heap.equalDuring busy left right = left.sameScalar right := by
  obtain ⟨fuel, is⟩ := heap.exists_equalityFuel
  rw [equalDuring, is, equalWithin_scalar _ _ _ _ scalar, Option.getD_some]

end Heap

end MiniScript
