import MiniScript.Heap.Map

/-!
# Values that are not in the heap yet

What an operation produces: a value that is there already, or the contents of a
new list or map. Drafting reads the heap; placing the draft changes it.
-/

namespace MiniScript

inductive Draft where
  | plain (value : Value)
  | list (items : Array Value)
  | map (object : MapObject)
deriving Inhabited

namespace Draft

def text (chars : List Char) : Draft :=
  .plain (.text (String.ofList chars))

def number (value : Float) : Draft :=
  .plain (.number value)

def truth (condition : Bool) : Draft :=
  .plain (Value.truth condition)

/-- The value that the draft will be in that heap. -/
def valueIn (draft : Draft) (heap : Heap) : Value :=
  match draft with
  | .plain value => value
  | .list _ => .list ⟨heap.lists.size⟩
  | .map _ => .map ⟨heap.maps.size⟩

/-- The heap with the draft placed in it. -/
def addTo (draft : Draft) (heap : Heap) : Heap :=
  match draft with
  | .plain _ => heap
  | .list items => { heap with lists := heap.lists.push items }
  | .map object => { heap with maps := heap.maps.push object }

theorem items_addTo (items : Array Value) (heap : Heap) :
    ((Draft.list items).addTo heap).items ⟨heap.lists.size⟩ = items := by
  simp [addTo, Heap.items]

theorem mapAt_addTo (object : MapObject) (heap : Heap) :
    ((Draft.map object).addTo heap).mapAt ⟨heap.maps.size⟩ = object := by
  simp [addTo, Heap.mapAt]

end Draft

/-- A map with text keys alone, stored in order. -/
def MapObject.ofNames (pairs : List (String × Value)) : MapObject where
  entries := pairs.foldl
    (fun entries (name, value) =>
      Heap.storeEntry (fun entry => Value.sameScalar (.text name) entry.key) (.text name) 0 value
        entries)
    []

/-- The entries with all the pairs stored one after the other. -/
def Heap.withEntries (heap : Heap) (entries : List Entry) (pairs : List (Value × Value)) :
    List Entry :=
  pairs.foldl (fun entries pair => heap.withEntry none entries pair.1 pair.2) entries

namespace Heap

/-- The scope that the next new scope will be. -/
def nextScope (heap : Heap) : ScopeRef :=
  ⟨heap.scopes.size⟩

/-- Adds a scope inside `parent` with the given variables. -/
def addScope (heap : Heap) (parent : Option ScopeRef) (vars : MapObject) : Heap :=
  let place : MapRef := ⟨heap.maps.size⟩
  { heap with maps := heap.maps.push vars, scopes := heap.scopes.push ⟨place, parent⟩ }

end Heap

end MiniScript
