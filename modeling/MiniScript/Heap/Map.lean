import MiniScript.Heap.Equality

/-!
# Maps

Reading, storing and removing by key. A store under a key that is there already
replaces the value and keeps the place; a new key goes to the end; a removal
keeps the order of the rest.
-/

namespace MiniScript

namespace Heap

/-- Equality that answers false where the comparison has no end. -/
def decideEqual (heap : Heap) (busy : Option MapRef) (left right : Value) : Option Bool :=
  some (heap.equalDuring busy left right)

/-- The entry of `key` in a map. -/
def entry? (heap : Heap) (map : MapRef) (key : Value) : Option Entry :=
  (findEntry (heap.decideEqual none) key (heap.keyShape none key) (heap.entries map)).join

def get? (heap : Heap) (map : MapRef) (key : Value) : Option Value :=
  (heap.entry? map key).map (·.value)

def getNamed? (heap : Heap) (map : MapRef) (name : String) : Option Value :=
  heap.get? map (.text name)

def contains (heap : Heap) (map : MapRef) (key : Value) : Bool :=
  (heap.entry? map key).isSome

/-- Whether an entry is filed under `shape` with an equal key. -/
def entryMatches (equal : Value → Value → Bool) (key : Value) (shape : UInt64) (entry : Entry) :
    Bool :=
  (!key.isContainer || entry.shape == shape) && equal key entry.key

/-- Puts `value` into the first matching entry, or appends an entry. -/
def storeEntry (isMatch : Entry → Bool) (key : Value) (shape : UInt64) (value : Value) :
    List Entry → List Entry
  | [] => [⟨key, shape, value⟩]
  | entry :: rest =>
      if isMatch entry then { entry with value } :: rest
      else entry :: storeEntry isMatch key shape value rest

/-- The entries with `value` stored under `key`, while the map `busy` is being changed. -/
def withEntry (heap : Heap) (busy : Option MapRef) (entries : List Entry) (key value : Value) :
    List Entry :=
  let shape := heap.keyShape busy key
  storeEntry (entryMatches (heap.equalDuring busy) key shape) key shape value entries

/-- Stores without announcing the write. -/
def insert (heap : Heap) (map : MapRef) (key value : Value) : Heap :=
  let entries := heap.withEntry (some map) (heap.entries map) key value
  heap.modifyMap map fun object => { object with entries }

/-- The value that a store under `key` would replace. -/
def replaced? (heap : Heap) (map : MapRef) (key : Value) : Option Value :=
  let shape := heap.keyShape (some map) key
  ((heap.entries map).find? (entryMatches (heap.equalDuring (some map)) key shape)).map (·.value)

def insertNamed (heap : Heap) (map : MapRef) (name : String) (value : Value) : Heap :=
  heap.insert map (.text name) value

/-- Which entry a removal of `key` takes out. -/
def removalTest (heap : Heap) (map : MapRef) (key : Value) : Entry → Bool :=
  match heap.entries map with
  | [_] => fun entry => heap.equalDuring (some map) key entry.key
  | _ => entryMatches (heap.equalDuring (some map)) key (heap.keyShape (some map) key)

/-- The value that a removal of `key` takes out. -/
def removed? (heap : Heap) (map : MapRef) (key : Value) : Option Value :=
  ((heap.entries map).find? (heap.removalTest map key)).map (·.value)

def remove (heap : Heap) (map : MapRef) (key : Value) : Heap :=
  let entries := (heap.entries map).eraseP (heap.removalTest map key)
  heap.modifyMap map fun object => { object with entries }

/-- The parent of a map, if it is a map. -/
def isaParent? (heap : Heap) (map : MapRef) : Option MapRef :=
  match heap.getNamed? map isaName with
  | some (.map parent) => some parent
  | _ => none

/-- The interceptor of writes to `key`. -/
def interceptor? (heap : Heap) (map : MapRef) (key : Value) : Option Nat :=
  let shape := heap.keyShape none key
  ((heap.mapAt map).interceptors.find? fun interceptor =>
    (!key.isContainer || interceptor.shape == shape) && heap.equal key interceptor.key).map (·.id)

/-- Announces writes to `key` under `id`, in place of an earlier interceptor of the key. -/
def setInterceptor (heap : Heap) (map : MapRef) (key : Value) (id : Nat) : Heap :=
  let shape := heap.keyShape (some map) key
  let isMatch := fun (interceptor : Interceptor) =>
    (!key.isContainer || interceptor.shape == shape) &&
      heap.equalDuring (some map) key interceptor.key
  let interceptors :=
    if (heap.mapAt map).interceptors.any isMatch then
      (heap.mapAt map).interceptors.map fun interceptor =>
        if isMatch interceptor then { interceptor with id } else interceptor
    else (heap.mapAt map).interceptors ++ [⟨key, shape, id⟩]
  heap.modifyMap map fun object => { object with interceptors }

/-- A new map with the given keys and values, stored in order. -/
def newMapOf (heap : Heap) (pairs : List (Value × Value)) : MapRef × Heap :=
  let (map, heap) := heap.newMap {}
  (map, pairs.foldl (fun heap pair => heap.insert map pair.1 pair.2) heap)

def vars (heap : Heap) (scope : ScopeRef) : MapRef :=
  (heap.scopeAt scope).vars

def getLocal? (heap : Heap) (scope : ScopeRef) (name : String) : Option Value :=
  heap.getNamed? (heap.vars scope) name

/-- Assigns without announcing the write. -/
def setLocal (heap : Heap) (scope : ScopeRef) (name : String) (value : Value) : Heap :=
  heap.insertNamed (heap.vars scope) name value

/-- Looks at the scope and at most `fuel` scopes around it. -/
def lookupWithin (heap : Heap) (name : String) : Nat → ScopeRef → Option Value
  | 0, scope => heap.getLocal? scope name
  | fuel + 1, scope =>
      match heap.getLocal? scope name with
      | some value => some value
      | none =>
          match (heap.scopeAt scope).parent with
          | some parent => lookupWithin heap name fuel parent
          | none => none

/-- The variable in the nearest scope that has it. -/
def lookup? (heap : Heap) (scope : ScopeRef) (name : String) : Option Value :=
  heap.lookupWithin name heap.scopes.size scope

theorem lookupWithin_of_getLocal? {heap : Heap} {name : String} {scope : ScopeRef} {value : Value}
    (found : heap.getLocal? scope name = some value) (fuel : Nat) :
    heap.lookupWithin name fuel scope = some value := by
  cases fuel <;> simp [lookupWithin, found]

end Heap

end MiniScript
