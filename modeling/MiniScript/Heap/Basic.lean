import MiniScript.Function.Basic

/-!
# The heap

Lists, maps, scopes and function definitions, each kind in an array of its own
and named by its index. Nothing is ever removed, so a reference stays good.
-/

namespace MiniScript

/-- A key and its value. A container used as a key is filed under the shape it had when it was
stored; for other keys the shape has no meaning. -/
structure Entry where
  key : Value
  shape : UInt64
  value : Value
deriving Inhabited

/-- A write to `key` is announced to the host under a number. -/
structure Interceptor where
  key : Value
  shape : UInt64
  id : Nat
deriving Inhabited

/-- A map: entries in the order of their first insertion, and the interceptors of writes. -/
structure MapObject where
  entries : List Entry := []
  interceptors : List Interceptor := []
deriving Inhabited

/-- A lexical scope; its variables live in a map that scripts can reach. -/
structure Scope where
  vars : MapRef
  parent : Option ScopeRef
deriving Inhabited, DecidableEq, Repr

structure Heap where
  lists : Array (Array Value) := #[]
  maps : Array MapObject := #[]
  scopes : Array Scope := #[]
  functions : Array Definition := #[]
deriving Inhabited

namespace Heap

def items (heap : Heap) (ref : ListRef) : Array Value :=
  heap.lists[ref.index]?.getD #[]

def mapAt (heap : Heap) (ref : MapRef) : MapObject :=
  heap.maps[ref.index]?.getD {}

def entries (heap : Heap) (ref : MapRef) : List Entry :=
  (heap.mapAt ref).entries

def scopeAt (heap : Heap) (ref : ScopeRef) : Scope :=
  heap.scopes[ref.index]?.getD ⟨⟨0⟩, none⟩

def definition (heap : Heap) (ref : FunctionRef) : Definition :=
  heap.functions[ref.index]?.getD default

def newList (heap : Heap) (items : Array Value) : ListRef × Heap :=
  (⟨heap.lists.size⟩, { heap with lists := heap.lists.push items })

def newMap (heap : Heap) (map : MapObject) : MapRef × Heap :=
  (⟨heap.maps.size⟩, { heap with maps := heap.maps.push map })

def newFunction (heap : Heap) (definition : Definition) : FunctionRef × Heap :=
  (⟨heap.functions.size⟩, { heap with functions := heap.functions.push definition })

def modifyItems (heap : Heap) (ref : ListRef) (change : Array Value → Array Value) : Heap :=
  { heap with lists := heap.lists.modify ref.index change }

def modifyMap (heap : Heap) (ref : MapRef) (change : MapObject → MapObject) : Heap :=
  { heap with maps := heap.maps.modify ref.index change }

theorem mapAt_newMap (heap : Heap) (map : MapObject) :
    (heap.newMap map).2.mapAt (heap.newMap map).1 = map := by
  simp [newMap, mapAt]

theorem mapAt_newMap_of_lt (heap : Heap) (map : MapObject) (ref : MapRef)
    (known : ref.index < heap.maps.size) : (heap.newMap map).2.mapAt ref = heap.mapAt ref := by
  simp [newMap, mapAt, Array.getElem?_push_lt known, known]

theorem mapAt_modifyMap_of_ne (heap : Heap) (ref other : MapRef) (change : MapObject → MapObject)
    (apart : other ≠ ref) : (heap.modifyMap ref change).mapAt other = heap.mapAt other := by
  have index : ref.index ≠ other.index := fun same => apart (by
    cases ref; cases other; simp_all)
  simp [modifyMap, mapAt, Array.getElem?_modify, index]

end Heap

/-- Whether a value counts as true: not null, zero or empty. -/
def Heap.isTruthy (heap : Heap) : Value → Bool
  | .null => false
  | .number value => value != 0.0
  | .text value => !value.isEmpty
  | .list ref => !(heap.items ref).isEmpty
  | .map ref => !(heap.entries ref).isEmpty
  | .function _ => true

end MiniScript
