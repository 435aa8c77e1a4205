import MiniScript.Operator.Member
import MiniScript.Proofs.Compiler.Literals
import MiniScript.Proofs.Heap.Equivalence
import MiniScript.Proofs.Heap.Filing

/-!
# The maps with the variables of scopes

The variables of a scope are in an ordinary map of the heap. In a secluded heap no
value leads to such a map: not the items of lists, not the keys and values of maps, nor
what stands in code. Each scope then has variables of its own that nothing but its own
frame reaches. A heap stays secluded when admitted values alone are put into it.
-/

namespace MiniScript

/-- No instruction pushes the variables of a scope. -/
def Code.NamesNoScope (code : Code) : Prop :=
  ∀ instr ∈ code.instrs, instr.op ≠ .pushScope

instance (code : Code) : Decidable code.NamesNoScope :=
  inferInstanceAs (Decidable (∀ instr ∈ code.instrs, instr.op ≠ .pushScope))

/-- The code of a script pushes no variables. -/
def Body.NamesNoScope : Body → Prop
  | .script code => code.NamesNoScope
  | .builtin _ => True
  | .importer => True
  | .host _ => True

instance : (body : Body) → Decidable body.NamesNoScope
  | .script code => inferInstanceAs (Decidable code.NamesNoScope)
  | .builtin _ => .isTrue trivial
  | .importer => .isTrue trivial
  | .host _ => .isTrue trivial

/-- Code that gives no access to a map: it pushes no variables, and its constants are literals. -/
structure Code.IsDiscreet (code : Code) : Prop where
  unscoped : code.NamesNoScope
  constants : ∀ instr ∈ code.instrs, instr.isLiteral = true

namespace Heap

/-- The variables of a scope, in the order of their first assignment. -/
def bindings (heap : Heap) (scope : ScopeRef) : List Entry :=
  heap.entries (heap.vars scope)

def HasScope (heap : Heap) (scope : ScopeRef) : Prop :=
  scope.index < heap.scopes.size

/-- A map in the heap that holds the variables of no scope. -/
structure Ordinary (heap : Heap) (map : MapRef) : Prop where
  known : map.index < heap.maps.size
  apart : ∀ scope, heap.HasScope scope → heap.vars scope ≠ map

/-- Maps have to be ordinary, and the scopes of functions have to be there. -/
def Admits (heap : Heap) : Value → Prop
  | .map map => heap.Ordinary map
  | .function closure => ∀ scope, closure.outer = some scope → heap.HasScope scope
  | _ => True

/-- Both the key and the value are admitted. -/
structure AdmitsEntry (heap : Heap) (entry : Entry) : Prop where
  key : heap.Admits entry.key
  value : heap.Admits entry.value

/-- The defaults are admitted, and so is the code. -/
structure AdmitsDefinition (heap : Heap) (definition : Definition) : Prop where
  defaults : ∀ param ∈ definition.params, heap.Admits param.default
  code : ∀ code, definition.body = .script code → code.IsDiscreet

/-- Each scope has variables of its own, and lies inside an older one. -/
structure Layered (heap : Heap) : Prop where
  vars : ∀ scope, heap.HasScope scope → (heap.vars scope).index < heap.maps.size
  alone : ∀ scope other, heap.HasScope scope → heap.HasScope other →
    heap.vars scope = heap.vars other → scope = other
  parent : ∀ scope parent, heap.HasScope scope → (heap.scopeAt scope).parent = some parent →
    parent.index < scope.index

/-- Nothing in the heap leads to the variables of a scope. -/
structure Secluded (heap : Heap) : Prop where
  layered : heap.Layered
  items : ∀ list, ∀ item ∈ heap.items list, heap.Admits item
  entries : ∀ map, ∀ entry ∈ heap.entries map, heap.AdmitsEntry entry
  definitions : ∀ definition ∈ heap.functions, heap.AdmitsDefinition definition

/-- Maps and scopes may have been added. Of the scopes that were there, at most `writer` has other
variables than before. -/
structure Confines (writer : Option ScopeRef) (before after : Heap) : Prop where
  maps : before.maps.size ≤ after.maps.size
  scopes : before.scopes.size ≤ after.scopes.size
  scopeAt : ∀ scope, before.HasScope scope → after.scopeAt scope = before.scopeAt scope
  fresh : ∀ scope, after.HasScope scope → ¬ before.HasScope scope →
    before.maps.size ≤ (after.vars scope).index
  bindings : ∀ scope, before.HasScope scope → writer ≠ some scope →
    after.bindings scope = before.bindings scope

/-- A map that `writer` may change: an ordinary one, or the map with its variables. -/
inductive Writable (heap : Heap) (writer : Option ScopeRef) (map : MapRef) : Prop where
  | ordinary (ordinary : heap.Ordinary map)
  | own {scope : ScopeRef} (current : writer = some scope) (has : heap.HasScope scope)
      (vars : heap.vars scope = map)

section

variable {heap before middle after : Heap} {writer : Option ScopeRef} {scope : ScopeRef}
variable {map : MapRef}

namespace Confines

theorem hasScope (confines : Confines writer before after) (has : before.HasScope scope) :
    after.HasScope scope :=
  Nat.lt_of_lt_of_le has confines.scopes

theorem vars (confines : Confines writer before after) (has : before.HasScope scope) :
    after.vars scope = before.vars scope :=
  congrArg Scope.vars (confines.scopeAt scope has)

theorem trans (first : Confines writer before middle) (second : Confines writer middle after) :
    Confines writer before after where
  maps := Nat.le_trans first.maps second.maps
  scopes := Nat.le_trans first.scopes second.scopes
  scopeAt scope has :=
    (second.scopeAt scope (first.hasScope has)).trans (first.scopeAt scope has)
  fresh scope has unknown := by
    by_cases between : middle.HasScope scope
    · rw [second.vars between]
      exact first.fresh scope between unknown
    · exact Nat.le_trans first.maps (second.fresh scope has between)
  bindings scope has other :=
    (second.bindings scope (first.hasScope has) other).trans (first.bindings scope has other)

theorem widen (confines : Confines none before after) (writer : Option ScopeRef) :
    Confines writer before after :=
  { confines with bindings := fun scope has _ => confines.bindings scope has nofun }

/-- The scopes are the same, and the maps with their variables. -/
theorem ofScopes (maps : before.maps.size ≤ after.maps.size)
    (scopes : after.scopes = before.scopes)
    (entries : ∀ scope, before.HasScope scope → writer ≠ some scope →
      after.entries (before.vars scope) = before.entries (before.vars scope)) :
    Confines writer before after := by
  have place (scope : ScopeRef) : after.scopeAt scope = before.scopeAt scope := by
    rw [Heap.scopeAt, Heap.scopeAt, scopes]
  refine ⟨maps, Nat.le_of_eq (by rw [scopes]), fun scope _ => place scope, ?_, ?_⟩
  · intro scope has unknown
    rw [HasScope, scopes] at has
    exact absurd has unknown
  · intro scope has other
    rw [Heap.bindings, Heap.vars, place]
    exact entries scope has other

/-- Neither maps nor scopes have changed. -/
theorem ofMaps (maps : after.maps = before.maps) (scopes : after.scopes = before.scopes) :
    Confines writer before after := by
  refine ofScopes (Nat.le_of_eq (by rw [maps])) scopes fun scope _ _ => ?_
  rw [Heap.entries, Heap.entries, mapAt, mapAt, maps]

theorem refl (heap : Heap) : Confines writer heap heap :=
  ofMaps rfl rfl

end Confines

theorem Ordinary.later (ordinary : before.Ordinary map) (confines : Confines writer before after) :
    after.Ordinary map := by
  refine ⟨Nat.lt_of_lt_of_le ordinary.known confines.maps, fun scope has same => ?_⟩
  by_cases known : before.HasScope scope
  · rw [confines.vars known] at same
    exact ordinary.apart scope known same
  · have beyond := confines.fresh scope has known
    rw [same] at beyond
    exact absurd ordinary.known (Nat.not_lt_of_le beyond)

theorem Writable.later (writable : before.Writable writer map)
    (confines : Confines none before after) : after.Writable writer map := by
  cases writable with
  | ordinary ordinary => exact .ordinary (ordinary.later confines)
  | own current has vars =>
      exact .own current (confines.hasScope has) ((confines.vars has).trans vars)

theorem Admits.later {value : Value} (admits : before.Admits value)
    (confines : Confines writer before after) : after.Admits value := by
  cases value with
  | map map => exact Ordinary.later admits confines
  | function closure => exact fun scope outer => confines.hasScope (admits scope outer)
  | _ => trivial

theorem AdmitsEntry.later {entry : Entry} (admits : before.AdmitsEntry entry)
    (confines : Confines writer before after) : after.AdmitsEntry entry :=
  ⟨admits.key.later confines, admits.value.later confines⟩

theorem AdmitsDefinition.later {definition : Definition}
    (admits : before.AdmitsDefinition definition) (confines : Confines writer before after) :
    after.AdmitsDefinition definition :=
  ⟨fun param member => (admits.defaults param member).later confines, admits.code⟩

theorem Admits.ofLiteral {value : Value} (literal : value.isLiteral = true) :
    heap.Admits value := by
  cases value with
  | map | function => cases literal
  | _ => trivial

theorem Layered.ofScopes (layered : before.Layered) (maps : before.maps.size ≤ after.maps.size)
    (scopes : after.scopes = before.scopes) : after.Layered := by
  have place (scope : ScopeRef) : after.scopeAt scope = before.scopeAt scope := by
    rw [Heap.scopeAt, Heap.scopeAt, scopes]
  have vars (scope : ScopeRef) : after.vars scope = before.vars scope :=
    congrArg Scope.vars (place scope)
  have known {scope : ScopeRef} (has : after.HasScope scope) : before.HasScope scope := by
    rwa [HasScope, scopes] at has
  refine ⟨fun scope has => ?_, fun scope other has also same => ?_,
    fun scope parent has inside => ?_⟩
  · rw [vars]
    exact Nat.lt_of_lt_of_le (layered.vars scope (known has)) maps
  · rw [vars, vars] at same
    exact layered.alone scope other (known has) (known also) same
  · rw [place] at inside
    exact layered.parent scope parent (known has) inside

end

/-! ## Changes of the heap -/

section

variable {heap : Heap} {writer : Option ScopeRef} {scope : ScopeRef} {map : MapRef}

theorem mem_entries_modifyMap {change : MapObject → MapObject} {other : MapRef} {entry : Entry}
    (member : entry ∈ (heap.modifyMap map change).entries other) :
    entry ∈ heap.entries other ∨ entry ∈ (change (heap.mapAt map)).entries := by
  by_cases same : other = map
  · subst same
    by_cases known : other.index < heap.maps.size
    · rw [entries_modifyMap known] at member
      exact .inr member
    · rw [Heap.entries, mapAt, modifyMap, Array.getElem?_modify, if_pos rfl,
        Array.getElem?_eq_none (Nat.le_of_not_lt known)] at member
      cases member
  · rw [entries_modifyMap_of_ne heap change same] at member
    exact .inl member

theorem mem_entries_push {object : MapObject} {after : Heap}
    (pushed : after.maps = heap.maps.push object) {entry : Entry}
    (member : entry ∈ after.entries map) : entry ∈ heap.entries map ∨ entry ∈ object.entries := by
  rw [Heap.entries, mapAt, pushed, Array.getElem?_push] at member
  split at member
  · exact .inr member
  · exact .inl member

theorem mem_items_push {items : Array Value} {after : Heap}
    (pushed : after.lists = heap.lists.push items) {list : ListRef} {item : Value}
    (member : item ∈ after.items list) : item ∈ heap.items list ∨ item ∈ items := by
  rw [Heap.items, pushed, Array.getElem?_push] at member
  split at member
  · exact .inr member
  · exact .inl member

theorem mem_items_modifyItems {change : Array Value → Array Value} {list other : ListRef}
    {item : Value} (member : item ∈ (heap.modifyItems list change).items other) :
    item ∈ heap.items other ∨ item ∈ change (heap.items list) := by
  rw [Heap.items, modifyItems, Array.getElem?_modify] at member
  split at member
  · rename_i same
    cases found : heap.lists[other.index]? with
    | none =>
        rw [found] at member
        cases Array.not_mem_empty _ member
    | some items =>
        rw [found] at member
        refine .inr ?_
        rw [Heap.items, same, found]
        exact member
  · exact .inl member

/-- The variables of scopes are elsewhere. -/
theorem Confines.ofOrdinary (ordinary : heap.Ordinary map) (change : MapObject → MapObject) :
    Confines writer heap (heap.modifyMap map change) :=
  .ofScopes (Nat.le_of_eq Array.size_modify.symm) rfl fun scope has _ =>
    heap.entries_modifyMap_of_ne change (ordinary.apart scope has)

/-- No other scope has these variables. -/
theorem Confines.ofVars (layered : heap.Layered) (has : heap.HasScope scope)
    (change : MapObject → MapObject) :
    Confines (some scope) heap (heap.modifyMap (heap.vars scope) change) :=
  .ofScopes (Nat.le_of_eq Array.size_modify.symm) rfl fun other also differs =>
    heap.entries_modifyMap_of_ne change fun same =>
      differs (congrArg some (layered.alone other scope also has same).symm)

theorem Writable.confines (writable : heap.Writable writer map) (layered : heap.Layered)
    (change : MapObject → MapObject) : Confines writer heap (heap.modifyMap map change) := by
  cases writable with
  | ordinary ordinary => exact .ofOrdinary ordinary change
  | own current has vars =>
      subst current
      subst vars
      exact .ofVars layered has change

theorem entries_push_of_lt {object : MapObject} {after : Heap}
    (pushed : after.maps = heap.maps.push object) (known : map.index < heap.maps.size) :
    after.entries map = heap.entries map := by
  rw [Heap.entries, mapAt, pushed, Array.getElem?_push_lt known, Heap.entries, mapAt,
    Array.getElem?_eq_getElem known]

theorem Confines.addTo (layered : heap.Layered) (draft : Draft) :
    Confines writer heap (draft.addTo heap) := by
  cases draft with
  | plain value => exact .refl heap
  | list items => exact .ofMaps rfl rfl
  | map object =>
      refine .ofScopes ?_ rfl fun scope has _ => entries_push_of_lt rfl (layered.vars scope has)
      exact Nat.le_of_lt (Nat.lt_of_lt_of_eq (Nat.lt_succ_self _) (Array.size_push _).symm)

section

variable (parent : Option ScopeRef) (vars : MapObject)

theorem hasScope_addScope (heap : Heap) :
    (heap.addScope parent vars).HasScope scope ↔ heap.HasScope scope ∨ scope = heap.nextScope := by
  obtain ⟨index⟩ := scope
  simp only [HasScope, addScope, nextScope, Array.size_push, ScopeRef.mk.injEq]
  omega

theorem scopeAt_nextScope (heap : Heap) :
    (heap.addScope parent vars).scopeAt heap.nextScope = ⟨⟨heap.maps.size⟩, parent⟩ := by
  simp only [scopeAt, addScope, nextScope, Array.getElem?_push_size, Option.getD_some]

theorem not_hasScope_nextScope (heap : Heap) : ¬ heap.HasScope heap.nextScope :=
  Nat.lt_irrefl _

theorem Confines.addScope (layered : heap.Layered) :
    Confines writer heap (heap.addScope parent vars) where
  maps := by simp only [Heap.addScope, Array.size_push, Nat.le_succ]
  scopes := by simp only [Heap.addScope, Array.size_push, Nat.le_succ]
  scopeAt scope has := scopeAt_addScope_of_lt vars parent has
  fresh scope has unknown := by
    obtain rfl := ((hasScope_addScope parent vars heap).mp has).resolve_left unknown
    rw [Heap.vars, scopeAt_nextScope]
  bindings scope has _ := by
    rw [Heap.bindings, Heap.vars, scopeAt_addScope_of_lt vars parent has]
    exact entries_push_of_lt rfl (layered.vars scope has)

theorem Layered.addScope (layered : heap.Layered)
    (inside : ∀ outer, parent = some outer → heap.HasScope outer) :
    (heap.addScope parent vars).Layered := by
  have confines : Confines none heap (heap.addScope parent vars) := .addScope parent vars layered
  have size : (heap.addScope parent vars).maps.size = heap.maps.size + 1 := Array.size_push _
  have fresh : (heap.addScope parent vars).vars heap.nextScope = ⟨heap.maps.size⟩ :=
    congrArg Scope.vars (scopeAt_nextScope parent vars heap)
  have differs {scope : ScopeRef} (has : heap.HasScope scope) :
      (heap.addScope parent vars).vars scope ≠ ⟨heap.maps.size⟩ := by
    rw [confines.vars has]
    intro same
    exact absurd (layered.vars scope has) (by rw [same]; exact Nat.lt_irrefl _)
  refine ⟨fun scope has => ?_, fun scope other has also same => ?_,
    fun scope outer has around => ?_⟩
  · rcases (hasScope_addScope parent vars heap).mp has with old | rfl
    · rw [confines.vars old, size]
      exact Nat.lt_succ_of_lt (layered.vars scope old)
    · rw [fresh, size]
      exact Nat.lt_succ_self _
  · rcases (hasScope_addScope parent vars heap).mp has with old | rfl
    · rcases (hasScope_addScope parent vars heap).mp also with older | rfl
      · rw [confines.vars old, confines.vars older] at same
        exact layered.alone scope other old older same
      · exact absurd (same.trans fresh) (differs old)
    · rcases (hasScope_addScope parent vars heap).mp also with older | rfl
      · exact absurd (same.symm.trans fresh) (differs older)
      · rfl
  · rcases (hasScope_addScope parent vars heap).mp has with old | rfl
    · rw [confines.scopeAt scope old] at around
      exact layered.parent scope outer old around
    · rw [scopeAt_nextScope] at around
      exact inside outer around

end

/-! ## What stays secluded -/

namespace Secluded

variable (secluded : heap.Secluded)

include secluded

/-- Nothing but maps, scopes and lists as they have to be has been added. -/
theorem later {after : Heap} (confines : Confines writer heap after) (layered : after.Layered)
    (items : ∀ list, ∀ item ∈ after.items list, item ∈ heap.items list ∨ after.Admits item)
    (entries : ∀ map, ∀ entry ∈ after.entries map,
      entry ∈ heap.entries map ∨ after.AdmitsEntry entry)
    (definitions : ∀ definition ∈ after.functions,
      definition ∈ heap.functions ∨ after.AdmitsDefinition definition) : after.Secluded where
  layered := layered
  items list item member :=
    (items list item member).elim (fun old => (secluded.items list item old).later confines) id
  entries map entry member :=
    (entries map entry member).elim (fun old => (secluded.entries map entry old).later confines) id
  definitions definition member :=
    (definitions definition member).elim
      (fun old => (secluded.definitions definition old).later confines) id

/-- A list has other items. -/
theorem modifyItems {list : ListRef} {change : Array Value → Array Value}
    (admitted : ∀ item ∈ change (heap.items list), heap.Admits item) :
    (heap.modifyItems list change).Secluded := by
  have confines : Confines none heap (heap.modifyItems list change) := .ofMaps rfl rfl
  refine secluded.later confines (secluded.layered.ofScopes (Nat.le_refl _) rfl) ?_
    (fun map entry => .inl) (fun definition => .inl)
  exact fun other item member => (mem_items_modifyItems member).imp_right fun new =>
    (admitted item new).later confines

/-- A map has other entries. -/
theorem modifyMap {change : MapObject → MapObject}
    (confines : Confines writer heap (heap.modifyMap map change))
    (admitted : ∀ entry ∈ (change (heap.mapAt map)).entries, heap.AdmitsEntry entry) :
    (heap.modifyMap map change).Secluded := by
  have size : heap.maps.size ≤ (heap.modifyMap map change).maps.size :=
    Nat.le_of_eq Array.size_modify.symm
  refine secluded.later confines (secluded.layered.ofScopes size rfl) (fun list item => .inl) ?_
    (fun definition => .inl)
  exact fun other entry member => (mem_entries_modifyMap member).imp_right fun new =>
    (admitted entry new).later confines

/-- There are other functions. -/
theorem withFunctions {functions : Array Definition}
    (admitted : ∀ definition ∈ functions,
      definition ∈ heap.functions ∨ heap.AdmitsDefinition definition) :
    ({ heap with functions } : Heap).Secluded := by
  have confines : Confines none heap { heap with functions } := .ofMaps rfl rfl
  refine secluded.later confines (secluded.layered.ofScopes (Nat.le_refl _) rfl)
    (fun list item => .inl) (fun map entry => .inl) ?_
  exact fun definition member =>
    (admitted definition member).imp_right fun new => new.later confines

theorem addScope {parent : Option ScopeRef} {vars : MapObject}
    (inside : ∀ outer, parent = some outer → heap.HasScope outer)
    (admitted : ∀ entry ∈ vars.entries, heap.AdmitsEntry entry) :
    (heap.addScope parent vars).Secluded := by
  have confines : Confines none heap (heap.addScope parent vars) :=
    .addScope parent vars secluded.layered
  refine secluded.later confines (secluded.layered.addScope parent vars inside)
    (fun list item => .inl) ?_ (fun definition => .inl)
  exact fun map entry member => (mem_entries_push rfl member).imp_right fun new =>
    (admitted entry new).later confines

end Secluded

/-! ## Contents of maps -/

theorem AdmitsEntry.storeEntry {isMatch : Entry → Bool} {key value : Value} {shape : UInt64}
    {entries : List Entry} (admitted : ∀ entry ∈ entries, heap.AdmitsEntry entry)
    (keyed : heap.Admits key) (valued : heap.Admits value) :
    ∀ entry ∈ storeEntry isMatch key shape value entries, heap.AdmitsEntry entry := by
  induction entries with
  | nil => exact List.forall_mem_singleton.mpr ⟨keyed, valued⟩
  | cons first rest ih =>
      obtain ⟨head, tail⟩ := List.forall_mem_cons.mp admitted
      unfold Heap.storeEntry
      split
      · exact List.forall_mem_cons.mpr ⟨⟨head.key, valued⟩, tail⟩
      · exact List.forall_mem_cons.mpr ⟨head, ih tail⟩

theorem AdmitsEntry.withEntries {pairs : List (Value × Value)} {entries : List Entry}
    (admitted : ∀ entry ∈ entries, heap.AdmitsEntry entry)
    (added : ∀ pair ∈ pairs, heap.Admits pair.1 ∧ heap.Admits pair.2) :
    ∀ entry ∈ heap.withEntries entries pairs, heap.AdmitsEntry entry := by
  induction pairs generalizing entries with
  | nil => exact admitted
  | cons pair pairs ih =>
      obtain ⟨⟨key, value⟩, rest⟩ := List.forall_mem_cons.mp added
      exact ih (AdmitsEntry.storeEntry admitted key value) rest

theorem AdmitsEntry.ofNames {pairs : List (String × Value)}
    (admitted : ∀ pair ∈ pairs, heap.Admits pair.2) :
    ∀ entry ∈ (MapObject.ofNames pairs).entries, heap.AdmitsEntry entry := by
  -- The entries are put together from the first pair on, so the induction adds the last one.
  induction pairs using List.reverseRecOn with
  | nil => exact fun entry member => nomatch member
  | append_singleton pairs pair ih =>
      obtain ⟨front, last⟩ := List.forall_mem_append.mp admitted
      rw [MapObject.ofNames, List.foldl_concat]
      exact AdmitsEntry.storeEntry (ih front) trivial (last pair List.mem_cons_self)

namespace Secluded

variable (secluded : heap.Secluded)

include secluded

theorem insert {key value : Value} (writable : heap.Writable writer map)
    (keyed : heap.Admits key) (valued : heap.Admits value) :
    (heap.insert map key value).Secluded :=
  secluded.modifyMap (writable.confines secluded.layered _)
    (AdmitsEntry.storeEntry (secluded.entries map) keyed valued)

theorem remove (ordinary : heap.Ordinary map) (key : Value) :
    (heap.remove map key).Secluded := by
  have confines : Confines none heap (heap.remove map key) := .ofOrdinary ordinary _
  exact secluded.modifyMap confines fun entry member =>
    secluded.entries map entry (List.mem_of_mem_eraseP member)

/-! ## Values that are found -/

theorem get? {key value : Value} (found : heap.get? map key = some value) :
    heap.Admits value := by
  obtain ⟨entry, search, rfl⟩ := Option.map_eq_some_iff.mp found
  exact (secluded.entries map entry (entry?_sound search).1).value

theorem isaParent? {parent : MapRef} (isParent : heap.isaParent? map = some parent) :
    heap.Ordinary parent := by
  unfold Heap.isaParent? at isParent
  split at isParent
  · rename_i found
    cases isParent
    exact secluded.get? found
  · cases isParent

theorem lookupWithin {name : String} {value : Value} {fuel : Nat}
    (found : heap.lookupWithin name fuel scope = some value) : heap.Admits value := by
  induction fuel generalizing scope with
  | zero => exact secluded.get? found
  | succ fuel ih =>
      unfold Heap.lookupWithin at found
      split at found
      · rename_i here
        cases found
        exact secluded.get? here
      · split at found
        · exact ih found
        · cases found

theorem lookup? {name : String} {value : Value} (found : heap.lookup? scope name = some value) :
    heap.Admits value :=
  secluded.lookupWithin found

theorem definition (ref : FunctionRef) : heap.AdmitsDefinition (heap.definition ref) := by
  unfold Heap.definition
  cases found : heap.functions[ref.index]? with
  | none => exact ⟨fun param member => (nomatch member), nofun⟩
  | some definition => exact secluded.definitions definition (Array.mem_of_getElem? found)

/-- The maps in which a member is looked for start with the map itself. -/
theorem lookupInChain {key : Value} {whole limit : Nat} {member : Member}
    (found : heap.lookupInChain key whole limit map = .ok (some member)) :
    heap.Admits member.value := by
  induction limit generalizing map with
  | zero =>
      unfold Heap.lookupInChain at found
      split at found
      · rename_i held
        cases found
        exact secluded.get? held
      · split at found
        · cases found
        · cases found
  | succ limit ih =>
      unfold Heap.lookupInChain at found
      split at found
      · rename_i held
        cases found
        exact secluded.get? held
      · split at found
        · cases found
        · exact ih found

end Secluded

end

end Heap

namespace Draft

/-- The value, or what the new list or map will hold, is admitted. -/
def Admitted (heap : Heap) : Draft → Prop
  | .plain value => heap.Admits value
  | .list items => ∀ item ∈ items, heap.Admits item
  | .map object => ∀ entry ∈ object.entries, heap.AdmitsEntry entry

section

variable {heap after : Heap} {writer : Option ScopeRef} {draft : Draft}

theorem Admitted.later (admitted : draft.Admitted heap) (confines : heap.Confines writer after) :
    draft.Admitted after := by
  cases draft with
  | plain value => exact Heap.Admits.later admitted confines
  | list items => exact fun item member => (admitted item member).later confines
  | map object => exact fun entry member => (admitted entry member).later confines

theorem Admitted.addTo (admitted : draft.Admitted heap) (secluded : heap.Secluded) :
    (draft.addTo heap).Secluded := by
  have confines : Heap.Confines none heap (draft.addTo heap) := .addTo secluded.layered draft
  cases draft with
  | plain value => exact secluded
  | list items =>
      refine secluded.later confines (secluded.layered.ofScopes (Nat.le_refl _) rfl) ?_
        (fun map entry => .inl) (fun definition => .inl)
      exact fun list item member => (Heap.mem_items_push rfl member).imp_right fun new =>
        (admitted item new).later confines
  | map object =>
      refine secluded.later confines (secluded.layered.ofScopes confines.maps rfl)
        (fun list item => .inl) ?_ (fun definition => .inl)
      exact fun map entry member => (Heap.mem_entries_push rfl member).imp_right fun new =>
        (admitted entry new).later confines

theorem Admitted.valueIn (admitted : draft.Admitted heap) (secluded : heap.Secluded) :
    (draft.addTo heap).Admits (draft.valueIn heap) := by
  cases draft with
  | plain value => exact admitted
  | list items => trivial
  | map object =>
      refine ⟨Nat.lt_of_lt_of_eq (Nat.lt_succ_self _) (Array.size_push _).symm, ?_⟩
      intro scope has same
      have known := secluded.layered.vars scope has
      have place : heap.vars scope = ⟨heap.maps.size⟩ := same
      rw [place] at known
      exact Nat.lt_irrefl _ known

end

end Draft

end MiniScript
