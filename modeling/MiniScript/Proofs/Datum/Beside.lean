import MiniScript.Proofs.Datum.Building

/-!
# Two heaps side by side

Values of two interpreters are compared in a heap that has the contents of both: the
lists and maps of the second stand behind those of the first, and the values of the
second refer to them there. Both still show what they have shown.
-/

namespace MiniScript

/-- The value with its list or map that many places further on. -/
def Value.moved (lists maps : Nat) : Value → Value
  | .list ref => .list ⟨lists + ref.index⟩
  | .map ref => .map ⟨maps + ref.index⟩
  | value => value

namespace Heap

/-- A value of a heap that is put behind this one. -/
def adopt (heap : Heap) (value : Value) : Value :=
  value.moved heap.lists.size heap.maps.size

def adoptEntry (heap : Heap) (entry : Entry) : Entry :=
  { entry with key := heap.adopt entry.key, value := heap.adopt entry.value }

/-- The heap with the lists and maps of another behind its own. -/
def beside (heap other : Heap) : Heap :=
  { heap with
    lists := heap.lists ++ other.lists.map fun items => items.map heap.adopt
    maps := heap.maps ++ other.maps.map fun object =>
      { entries := object.entries.map heap.adoptEntry } }

variable (heap other : Heap)

theorem preserves_beside (base : Nat) : heap.Preserves base (heap.beside other) where
  lists _ inside := Array.getElem?_append_left inside
  maps _ inside _ := Array.getElem?_append_left inside
  scopes := rfl

theorem items_beside (ref : ListRef) :
    (heap.beside other).items ⟨heap.lists.size + ref.index⟩ = (other.items ref).map heap.adopt := by
  rw [items, beside, Array.getElem?_append_right (Nat.le_add_right _ _), Nat.add_sub_cancel_left,
    Array.getElem?_map, items]
  cases other.lists[ref.index]? with
  | none => exact Array.map_empty.symm
  | some items => rfl

theorem entries_beside (ref : MapRef) :
    (heap.beside other).entries ⟨heap.maps.size + ref.index⟩ =
      (other.entries ref).map heap.adoptEntry := by
  rw [entries, mapAt, beside, Array.getElem?_append_right (Nat.le_add_right _ _),
    Nat.add_sub_cancel_left, Array.getElem?_map, entries, mapAt]
  cases other.maps[ref.index]? with
  | none => rfl
  | some object => rfl

variable {heap other} {filing : Entry → Prop} {limit : Nat} {datum : Datum} {value : Value}

/-- A value looks as it did before, and its entries meet what can be said of an entry whose key
still looks the same. -/
theorem Unfolds.beside {filing' : Entry → Prop} (plain : datum.Plain limit)
    (unfolds : other.Unfolds filing value datum)
    (filed : ∀ {limit : Nat} {datum : Datum} {entry : Entry}, datum.Plain limit → filing entry →
      other.Unfolds filing entry.key datum →
      (heap.beside other).Unfolds filing' (heap.adopt entry.key) datum →
        filing' (heap.adoptEntry entry)) :
    (heap.beside other).Unfolds filing' (heap.adopt value) datum := by
  induction plain generalizing value with
  | null =>
      cases unfolds
      exact .null
  | integer =>
      cases unfolds with
      | integer known => exact .integer known
  | text =>
      cases unfolds
      exact .text _
  | list _ ih =>
      cases unfolds with
      | list unfolds =>
          refine .list ?_
          rw [items_beside, Array.toList_map, List.forall₂_map_left_iff]
          exact forall₂_imp_of_mem unfolds fun item member _ => ih item member
  | map _ plain _ keys values =>
      cases unfolds with
      | map unfolds =>
          refine .map ?_
          rw [entries_beside, List.forall₂_map_left_iff]
          refine forall₂_imp_of_mem unfolds fun pair member entry parts => ?_
          have key := keys pair member parts.key
          exact ⟨filed (plain pair member) parts.filed parts.key key, key,
            values pair member parts.value⟩

/-- Keys that can be found by their shapes still can. -/
theorem Stores.beside (plain : datum.Plain limit) (stores : other.Stores value datum) :
    (heap.beside other).Stores (heap.adopt value) datum :=
  Unfolds.beside plain stores fun plain filed key there =>
    filed.trans (keyShape_of_unfolds plain key there)

/-- A value of the other heap is equal to one of this heap that looks the same. -/
theorem equal_beside (plain : datum.Plain structureDepth) {base : Nat} {copy : Value}
    (unfolds : other.Unfolds filing value datum) (keeps : heap.Keeps base copy datum) :
    (heap.beside other).equal (heap.adopt value) copy = true := by
  have shows : (heap.beside other).Shows (heap.adopt value) datum :=
    unfolds.beside plain fun _ _ _ _ => trivial
  exact equal_of_same plain shows (keeps _ (preserves_beside heap other base))

/-- It is equal to a value of the other heap whose keys can be found. -/
theorem beside_equal (plain : datum.Plain structureDepth) {base : Nat} {copy : Value}
    (stores : other.Stores value datum) (keeps : heap.Keeps base copy datum) :
    (heap.beside other).equal copy (heap.adopt value) = true :=
  equal_of_same plain (keeps _ (preserves_beside heap other base)) (Stores.beside plain stores)

end Heap

end MiniScript
