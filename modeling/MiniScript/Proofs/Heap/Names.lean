import Mathlib.Data.List.Induction
import MiniScript.Heap.Draft
import MiniScript.Heap.Map

/-!
# Names in maps and scopes

A name is a text, so looking it up in a map compares it with the keys alone, whatever
else is in the heap. In a map that is made from names the last value of a name counts.
A new scope has its own names; all others mean what they mean in the scope around it.
-/

namespace MiniScript

namespace MapObject

/-- The value under a name. -/
def named? (object : MapObject) (name : String) : Option Value :=
  (object.entries.find? fun entry => Value.sameScalar (.text name) entry.key).map (·.value)

end MapObject

namespace Heap

/-- A search for a key that is no container finds the first entry with an equal key. -/
theorem findEntry_scalar (test : Value → Value → Bool) {key : Value} (shape : UInt64)
    (scalar : key.isContainer = false) (entries : List Entry) :
    findEntry (fun left right => some (test left right)) key shape entries =
      some (entries.find? fun entry => test key entry.key) := by
  have search (entries : List Entry) :
      searchEntry (fun left right => some (test left right)) key shape entries =
        some (entries.find? fun entry => test key entry.key) := by
    induction entries with
    | nil => rfl
    | cons entry rest ih =>
        rw [searchEntry, scalar, Bool.false_and, if_neg Bool.false_ne_true, List.find?_cons]
        cases test key entry.key with
        | true => rfl
        | false => exact ih
  unfold findEntry
  split
  · rename_i entry
    rw [Option.map_some, List.find?_singleton]
  · exact search entries

theorem getNamed?_eq (heap : Heap) (map : MapRef) (name : String) :
    heap.getNamed? map name = (heap.mapAt map).named? name := by
  have test : heap.decideEqual none =
      fun left right => some (heap.equalDuring none left right) := rfl
  have same : (fun entry : Entry => heap.equalDuring none (.text name) entry.key) =
      fun entry => Value.sameScalar (.text name) entry.key :=
    funext fun entry => heap.equalDuring_scalar none rfl
  rw [getNamed?, get?, entry?, test, findEntry_scalar _ _ rfl, same]
  rfl

/-- A store under a name compares it with the keys alone. -/
theorem withEntry_text (heap : Heap) (busy : Option MapRef) (entries : List Entry) (name : String)
    (value : Value) : heap.withEntry busy entries (.text name) value =
      storeEntry (fun entry => Value.sameScalar (.text name) entry.key) (.text name) 0 value
        entries := by
  have test (entry : Entry) : heap.equalDuring busy (.text name) entry.key =
      Value.sameScalar (.text name) entry.key := heap.equalDuring_scalar busy rfl
  rw [← funext test]
  rfl

end Heap

namespace MapObject

theorem key_of_sameScalar {name : String} {key : Value}
    (same : Value.sameScalar (.text name) key = true) : key = .text name := by
  cases key with
  | text other => rw [(Value.sameScalar_text name other).mp same]
  | _ => cases same

/-- After a store under a name, that name has the value and all others are as before. -/
theorem find?_storeEntry (wanted name : String) (value : Value) (entries : List Entry) :
    ((Heap.storeEntry (fun entry => Value.sameScalar (.text name) entry.key) (.text name) 0 value
        entries).find? fun entry => Value.sameScalar (.text wanted) entry.key).map (·.value) =
      if wanted = name then some value
      else (entries.find? fun entry => Value.sameScalar (.text wanted) entry.key).map
        (·.value) := by
  induction entries with
  | nil =>
      rw [Heap.storeEntry, List.find?_singleton]
      by_cases same : wanted = name
      · rw [if_pos ((Value.sameScalar_text wanted name).mpr same), if_pos same, Option.map_some]
      · rw [if_neg (mt (Value.sameScalar_text wanted name).mp same), if_neg same]
        rfl
  | cons entry rest ih =>
      unfold Heap.storeEntry
      split
      · rename_i isName
        have key := key_of_sameScalar isName
        rw [List.find?_cons, List.find?_cons, key]
        by_cases same : wanted = name
        · rw [(Value.sameScalar_text wanted name).mpr same, if_pos same, Option.map_some]
        · rw [eq_false_of_ne_true (mt (Value.sameScalar_text wanted name).mp same),
            if_neg same]
      · rename_i isOther
        rw [List.find?_cons, List.find?_cons]
        cases isWanted : Value.sameScalar (.text wanted) entry.key with
        | true =>
            have apart : wanted ≠ name := by
              rintro rfl
              exact isOther isWanted
            rw [if_neg apart]
        | false => exact ih

/-- In a map that is made from names the last value counts. -/
theorem named?_ofNames_concat (pairs : List (String × Value)) (name : String) (value : Value)
    (wanted : String) :
    (ofNames (pairs ++ [(name, value)])).named? wanted =
      if wanted = name then some value else (ofNames pairs).named? wanted := by
  rw [named?, ofNames, List.foldl_append]
  exact find?_storeEntry wanted name value _

theorem named?_ofNames_of_not_mem {pairs : List (String × Value)} {wanted : String}
    (absent : wanted ∉ pairs.map (·.1)) : (ofNames pairs).named? wanted = none := by
  induction pairs using List.reverseRecOn with
  | nil => rfl
  | append_singleton pairs pair ih =>
      obtain ⟨name, value⟩ := pair
      rw [List.map_append, List.mem_append, not_or] at absent
      have apart : wanted ≠ name := fun same => absent.2 (same ▸ List.mem_singleton.mpr rfl)
      rw [named?_ofNames_concat, if_neg apart]
      exact ih absent.1

end MapObject

namespace Heap

section

variable {heap : Heap} {map : MapRef}

theorem mapAt_modifyMap (inside : map.index < heap.maps.size) (change : MapObject → MapObject) :
    (heap.modifyMap map change).mapAt map = change (heap.mapAt map) := by
  simp [modifyMap, mapAt, Array.getElem_modify_self, inside]

/-- A name has the value that was stored under it last. -/
theorem getNamed?_insertNamed (inside : map.index < heap.maps.size) (name : String)
    (value : Value) : (heap.insertNamed map name value).getNamed? map name = some value := by
  rw [getNamed?_eq, insertNamed, insert, mapAt_modifyMap inside, MapObject.named?]
  dsimp only
  rw [withEntry_text, MapObject.find?_storeEntry, if_pos rfl]

end

/-- The variables of every scope, and the scope around it, are in the heap. -/
structure ScopesKnown (heap : Heap) : Prop where
  vars : ∀ {index : Nat} {scope : Scope}, heap.scopes[index]? = some scope →
    scope.vars.index < heap.maps.size
  parent : ∀ {index : Nat} {scope : Scope} {parent : ScopeRef}, heap.scopes[index]? = some scope →
    scope.parent = some parent → parent.index < heap.scopes.size

section

variable (heap : Heap) (parent : ScopeRef) (vars : MapObject)

theorem scopeAt_addScope_new :
    (heap.addScope (some parent) vars).scopeAt heap.nextScope =
      ⟨⟨heap.maps.size⟩, some parent⟩ := by
  simp [addScope, scopeAt, nextScope]

/-- A new scope has its own names. -/
theorem getLocal?_addScope_new (name : String) :
    (heap.addScope (some parent) vars).getLocal? heap.nextScope name = vars.named? name := by
  have place : (heap.addScope (some parent) vars).mapAt ⟨heap.maps.size⟩ = vars := by
    simp [addScope, mapAt]
  rw [getLocal?, Heap.vars, scopeAt_addScope_new, getNamed?_eq, place]

variable {heap} {parent}

theorem scopeAt_addScope_of_lt (inner : Option ScopeRef) {scope : ScopeRef}
    (there : scope.index < heap.scopes.size) :
    (heap.addScope inner vars).scopeAt scope = heap.scopeAt scope := by
  rw [scopeAt, addScope, Array.getElem?_push_lt there, scopeAt, Array.getElem?_eq_getElem there]

theorem getLocal?_addScope_of_lt (known : heap.ScopesKnown) (inner : Option ScopeRef)
    {scope : ScopeRef} (there : scope.index < heap.scopes.size) (name : String) :
    (heap.addScope inner vars).getLocal? scope name = heap.getLocal? scope name := by
  have place : heap.scopes[scope.index]? = some (heap.scopeAt scope) := by
    rw [scopeAt, Array.getElem?_eq_getElem there, Option.getD_some]
  have kept : (heap.addScope inner vars).mapAt (heap.scopeAt scope).vars =
      heap.mapAt (heap.scopeAt scope).vars :=
    heap.mapAt_newMap_of_lt vars _ (known.vars place)
  rw [getLocal?, getLocal?, Heap.vars, Heap.vars, scopeAt_addScope_of_lt vars inner there,
    getNamed?_eq, getNamed?_eq, kept]

/-- In the scopes that were there, names mean what they meant. -/
theorem lookupWithin_addScope (known : heap.ScopesKnown) (inner : Option ScopeRef) (name : String)
    {scope : ScopeRef} (there : scope.index < heap.scopes.size) (fuel : Nat) :
    (heap.addScope inner vars).lookupWithin name fuel scope =
      heap.lookupWithin name fuel scope := by
  induction fuel generalizing scope with
  | zero => exact getLocal?_addScope_of_lt vars known inner there name
  | succ fuel ih =>
      have place : heap.scopes[scope.index]? = some (heap.scopeAt scope) := by
        rw [scopeAt, Array.getElem?_eq_getElem there, Option.getD_some]
      rw [lookupWithin, lookupWithin, getLocal?_addScope_of_lt vars known inner there,
        scopeAt_addScope_of_lt vars inner there]
      split
      · rfl
      · split
        · rename_i around
          exact ih (known.parent place around)
        · rfl

/-- All other names mean what they mean in the scope around it. -/
theorem lookup?_addScope_other (known : heap.ScopesKnown) {name : String}
    (there : parent.index < heap.scopes.size) (unnamed : vars.named? name = none) :
    (heap.addScope (some parent) vars).lookup? heap.nextScope name = heap.lookup? parent name := by
  have count : (heap.addScope (some parent) vars).scopes.size = heap.scopes.size + 1 :=
    Array.size_push _
  rw [lookup?, count, lookupWithin, getLocal?_addScope_new, unnamed]
  dsimp only
  rw [scopeAt_addScope_new]
  exact lookupWithin_addScope vars known _ name there _

end

end Heap

end MiniScript
