import MiniScript.Function.Signature
import MiniScript.Heap.Draft

/-!
# Values to be made

A description from which a value can be made any number of times. Each time its
lists, maps and functions are new ones.
-/

namespace MiniScript

/-- The native that answers null, which every host that follows a script has. -/
def Fixture.nothingId : Nat := 0

inductive Recipe where
  /-- Null, a number or a text. -/
  | plain (value : Value)
  | list (items : List Recipe)
  /-- A map in which the pairs are stored one after the other. -/
  | map (pairs : List (Recipe × Recipe))
  /-- A native that answers null. -/
  | native (signature : Signature)
deriving Inhabited

namespace Recipe

mutual

/-- Makes the value, and the heap that holds it. -/
def build : Recipe → Heap → Value × Heap
  | .plain value, heap => (value, heap)
  | .list items, heap =>
      let (values, heap) := buildItems items heap
      let draft := Draft.list values.toArray
      (draft.valueIn heap, draft.addTo heap)
  | .map pairs, heap =>
      let (values, heap) := buildPairs pairs heap
      let draft := Draft.map { entries := heap.withEntries [] values }
      (draft.valueIn heap, draft.addTo heap)
  | .native signature, heap =>
      let (ref, heap) := heap.newFunction
        { name := some signature.name, params := signature.params, body := .host Fixture.nothingId }
      (.function ⟨ref, none⟩, heap)

def buildItems : List Recipe → Heap → List Value × Heap
  | [], heap => ([], heap)
  | item :: rest, heap =>
      let (value, heap) := item.build heap
      let (values, heap) := buildItems rest heap
      (value :: values, heap)

def buildPairs : List (Recipe × Recipe) → Heap → List (Value × Value) × Heap
  | [], heap => ([], heap)
  | (key, value) :: rest, heap =>
      let (key, heap) := key.build heap
      let (value, heap) := value.build heap
      let (pairs, heap) := buildPairs rest heap
      ((key, value) :: pairs, heap)

end

end Recipe

end MiniScript
