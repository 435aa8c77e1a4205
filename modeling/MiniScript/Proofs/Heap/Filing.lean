import MiniScript.Proofs.Heap.Comparison
import MiniScript.Proofs.Heap.Names
import MiniScript.Proofs.Number.Order

/-!
# Entries that are found again

A map finds an entry by its key: it looks for an equal key, and containers under their
shape. Both depend on what is inside of the key, and on nothing else. So as long as
nothing inside of a key changes, its entry is found where it has been filed, unless an
earlier entry answers to the same key. The keys that a script stores one after the
other are others than those before them; only NaN is not found, because it is not even
equal to itself.
-/

namespace MiniScript

/-- A key that is not equal to itself. -/
def Value.isNaN : Value → Bool
  | .number value => Number.isNaN value
  | _ => false

theorem Value.isContainer_of_isNaN {key : Value} (nan : key.isNaN = true) :
    key.isContainer = false := by
  cases key with
  | number => rfl
  | _ => cases nan

namespace Heap

variable {heap before after : Heap} {busy : Option MapRef} {map : MapRef}
variable {value left right key inner : Value} {entry : Entry}

theorem equalDuring_self (heap : Heap) (busy : Option MapRef) (value : Value) :
    heap.equalDuring busy value value = !value.isNaN := by
  obtain ⟨fuel, is⟩ := heap.exists_equalityFuel
  rw [equalDuring, is]
  cases value with
  | number number => exact Number.beq_self number
  | list list => rw [equalWithin, if_pos rfl]; rfl
  | map map => rw [equalWithin, if_pos rfl]; rfl
  | null => rfl
  | text text => exact beq_self_eq_true text
  | function closure => exact beq_self_eq_true closure

/-! ## Values inside of which nothing has changed -/

/-- Inside of the value, the second heap is as the first one. -/
structure Undisturbed (before after : Heap) (value : Value) : Prop where
  items : ∀ list, before.Includes value (.list list) → after.items list = before.items list
  entries : ∀ map, before.Includes value (.map map) → after.entries map = before.entries map

namespace Undisturbed

theorem inside (same : before.Undisturbed after value) (within : before.Includes value inner) :
    before.Undisturbed after inner :=
  ⟨fun list deeper => same.items list (within.trans deeper),
    fun map deeper => same.entries map (within.trans deeper)⟩

theorem part_iff (same : before.Undisturbed after value) :
    after.Part value inner ↔ before.Part value inner := by
  constructor
  · intro isPart
    cases isPart with
    | item member => exact .item (same.items _ .refl ▸ member)
    | key member => exact .key (same.entries _ .refl ▸ member)
    | value member => exact .value (same.entries _ .refl ▸ member)
  · intro isPart
    cases isPart with
    | item member => exact .item ((same.items _ .refl).symm ▸ member)
    | key member => exact .key ((same.entries _ .refl).symm ▸ member)
    | value member => exact .value ((same.entries _ .refl).symm ▸ member)

theorem includes_iff (same : before.Undisturbed after value) :
    after.Includes value inner ↔ before.Includes value inner := by
  constructor
  · intro within
    induction within with
    | refl => exact .refl
    | tail _ isPart ih => exact ih.tail ((same.inside ih).part_iff.mp isPart)
  · intro within
    induction within with
    | refl => exact .refl
    | tail within isPart ih => exact ih.tail ((same.inside within).part_iff.mpr isPart)

/-- Changes of one map are not seen by values that do not lead to it. -/
theorem ofApart (lists : after.lists = before.lists)
    (others : ∀ other, other ≠ map → after.entries other = before.entries other)
    (apart : ¬ before.Includes value (.map map)) : before.Undisturbed after value where
  items list _ := by rw [Heap.items, Heap.items, lists]
  entries other within := others other fun same => apart (same ▸ within)

/-- There is nothing inside of a scalar that could change. -/
theorem ofScalar (scalar : value.isContainer = false) : before.Undisturbed after value where
  items list within := by
    rw [← eq_of_includes_scalar scalar within] at scalar
    cases scalar
  entries map within := by
    rw [← eq_of_includes_scalar scalar within] at scalar
    cases scalar

section

variable (same : before.Undisturbed after value)
  (free : ∀ map, busy = some map → ¬ before.Includes value (.map map))

include same free

theorem shapeWithin_zero :
    before.shapeWithin busy 0 value = after.shapeWithin none 0 value := by
  cases value with
  | list list =>
      exact congrArg (fun items => Shape.mix (Shape.kindTag .list) (Array.size items).toUInt64)
        (same.items list .refl).symm
  | map map =>
      have idle : ¬ busy = some map := fun is => free map is .refl
      rw [shapeWithin_map_zero, same.entries map .refl]
      exact if_neg idle
  | _ => rfl

/-- A map that is being changed does not matter if it is not inside. -/
theorem shapeWithin (remaining : Nat) :
    before.shapeWithin busy remaining value = after.shapeWithin none remaining value := by
  induction remaining generalizing value with
  | zero => exact same.shapeWithin_zero free
  | succ remaining ih =>
      have part (inner : Value) (isPart : before.Part value inner) :
          before.shapeWithin busy remaining inner = after.shapeWithin none remaining inner := by
        have within : before.Includes value inner := .single isPart
        exact ih (same.inside within) fun map is deeper => free map is (within.trans deeper)
      cases value with
      | list list =>
          have items : (before.items list).toList.map (before.shapeWithin busy remaining) =
              (before.items list).toList.map (after.shapeWithin none remaining) :=
            List.map_congr_left fun item member => part item (.item member)
          rw [shapeWithin_list, shapeWithin_list, same.shapeWithin_zero free,
            same.items list .refl, items]
      | map map =>
          have opens (heap : Heap) (busy : Option MapRef) (idle : ¬ busy = some map) :
              heap.shapeWithin busy (remaining + 1) (.map map) =
                Shape.mix (Shape.mix (Shape.kindTag .map) (heap.entries map).length.toUInt64)
                  ((heap.entries map).foldl
                    (fun sum entry => sum + Shape.mix (heap.shapeWithin busy remaining entry.key)
                      (heap.shapeWithin busy remaining entry.value)) 0) := if_neg idle
          rw [opens before busy fun is => free map is .refl, opens after none nofun,
            same.entries map .refl]
          refine congrArg _ (List.foldl_ext _ _ _ fun sum entry member => ?_)
          rw [part entry.key (.key member), part entry.value (.value member)]
      | _ => rfl

theorem keyShape : before.keyShape busy value = after.keyShape none value := by
  rw [Heap.keyShape, Heap.keyShape, shape, shape, same.shapeWithin free]

end

end Undisturbed

theorem allEqual_congr {equal other : Value → Value → Option Bool} {lefts rights : List Value}
    (each : ∀ left ∈ lefts, ∀ right ∈ rights, equal left right = other left right) :
    allEqual equal lefts rights = allEqual other lefts rights := by
  induction lefts generalizing rights with
  | nil => cases rights <;> rfl
  | cons left lefts ih =>
      cases rights with
      | nil => rfl
      | cons right rights =>
          rw [allEqual, allEqual, each left List.mem_cons_self right List.mem_cons_self,
            ih fun left inside right within =>
              each left (List.mem_cons_of_mem _ inside) right (List.mem_cons_of_mem _ within)]

theorem findEntry_congr {equal other : Value → Value → Option Bool} {shape : UInt64}
    {entries : List Entry} (each : ∀ entry ∈ entries, equal key entry.key = other key entry.key) :
    findEntry equal key shape entries = findEntry other key shape entries := by
  have search : searchEntry equal key shape entries = searchEntry other key shape entries := by
    induction entries with
    | nil => rfl
    | cons entry entries ih =>
        rw [List.forall_mem_cons] at each
        rw [searchEntry, searchEntry, each.1, ih each.2]
  unfold findEntry
  split
  · rw [each _ List.mem_cons_self]
  · exact search

theorem mem_of_searchEntry {equal : Value → Value → Option Bool} {shape : UInt64}
    {entries : List Entry} (search : searchEntry equal key shape entries = some (some entry)) :
    entry ∈ entries := by
  induction entries with
  | nil => cases search
  | cons other entries ih =>
      rw [searchEntry] at search
      split at search
      · exact List.mem_cons_of_mem _ (ih search)
      · split at search
        · cases search
          exact List.mem_cons_self
        · exact List.mem_cons_of_mem _ (ih search)
        · cases search

theorem mem_of_findEntry {equal : Value → Value → Option Bool} {shape : UInt64}
    {entries : List Entry} (search : findEntry equal key shape entries = some (some entry)) :
    entry ∈ entries := by
  unfold findEntry at search
  split at search
  · obtain ⟨same, _, is⟩ := Option.map_eq_some_iff.mp search
    split at is
    · cases is
      exact List.mem_cons_self
    · cases is
  · exact mem_of_searchEntry search

theorem allFound_congr {equalKeys otherKeys equalValues otherValues : Value → Value → Option Bool}
    {shapeOf otherShape : Value → UInt64} {others entries : List Entry}
    (shapes : ∀ entry ∈ entries, shapeOf entry.key = otherShape entry.key)
    (keys : ∀ entry ∈ entries, ∀ other ∈ others,
      equalKeys entry.key other.key = otherKeys entry.key other.key)
    (values : ∀ entry ∈ entries, ∀ other ∈ others,
      equalValues entry.value other.value = otherValues entry.value other.value) :
    allFound equalKeys equalValues shapeOf others entries =
      allFound otherKeys otherValues otherShape others entries := by
  induction entries with
  | nil => rfl
  | cons entry entries ih =>
      rw [List.forall_mem_cons] at shapes keys values
      have rest := ih shapes.2 keys.2 values.2
      rw [allFound, allFound, shapes.1, findEntry_congr keys.1]
      cases search : findEntry otherKeys entry.key (otherShape entry.key) others with
      | none => rfl
      | some hit =>
          cases hit with
          | none => rfl
          | some other =>
              dsimp only
              rw [values.1 other (mem_of_findEntry search), rest]

/-- A comparison looks at nothing but what is inside of the two values. -/
theorem Undisturbed.equalWithin (first : before.Undisturbed after left)
    (second : before.Undisturbed after right)
    (free : ∀ map, busy = some map →
      ¬ before.Includes left (.map map) ∧ ¬ before.Includes right (.map map))
    (fuel depth : Nat) :
    before.equalWithin busy fuel depth left right =
      after.equalWithin none fuel depth left right := by
  induction fuel generalizing depth left right with
  | zero => rfl
  | succ fuel ih =>
      have part (depth : Nat) (inner other : Value) (isPart : before.Part left inner)
          (alsoPart : before.Part right other) :
          before.equalWithin busy fuel depth inner other =
            after.equalWithin none fuel depth inner other := by
        have within : before.Includes left inner := .single isPart
        have inside : before.Includes right other := .single alsoPart
        exact ih (first.inside within) (second.inside inside)
          (fun map is => ⟨fun deeper => (free map is).1 (within.trans deeper),
            fun deeper => (free map is).2 (inside.trans deeper)⟩) depth
      cases left with
      | list leftRef =>
          cases right with
          | list rightRef =>
              simp only [Heap.equalWithin, first.items leftRef .refl, second.items rightRef .refl]
              rw [allEqual_congr fun item member other within =>
                part (depth + 1) item other (.item member) (.item within)]
          | _ => rfl
      | map leftRef =>
          cases right with
          | map rightRef =>
              have idle :
                  (decide (busy = some leftRef) || decide (busy = some rightRef)) = false := by
                rw [Bool.or_eq_false_iff, decide_eq_false_iff_not, decide_eq_false_iff_not]
                exact ⟨fun is => (free leftRef is).1 .refl, fun is => (free rightRef is).2 .refl⟩
              simp only [Heap.equalWithin, idle, first.entries leftRef .refl,
                second.entries rightRef .refl, reduceCtorEq, decide_false, Bool.or_false]
              rw [allFound_congr]
              · intro entry member
                have within : before.Includes (.map leftRef) entry.key := .single (.key member)
                exact (first.inside within).keyShape fun map is deeper =>
                  (free map is).1 (within.trans deeper)
              · exact fun entry member other within =>
                  part 0 entry.key other.key (.key member) (.key within)
              · exact fun entry member other within =>
                  part (depth + 1) entry.value other.value (.value member) (.value within)
          | _ => rfl
      | _ => simp only [Heap.equalWithin]

/-- An answer stays the same if the heap does not lose anything. -/
theorem Undisturbed.answer (first : before.Undisturbed after left)
    (second : before.Undisturbed after right) (grows : before.maps.size ≤ after.maps.size)
    {same : Bool} (answer : before.equalWithin none before.equalityFuel 0 left right = some same) :
    after.equalWithin none after.equalityFuel 0 left right = some same := by
  rw [first.equalWithin second (by rintro _ ⟨⟩)] at answer
  have more : before.equalityFuel ≤ after.equalityFuel :=
    Nat.mul_le_mul_left _ (Nat.succ_le_succ grows)
  exact sharper_equalWithin more 0 _ _ _ answer

theorem Undisturbed.refl (heap : Heap) (value : Value) : heap.Undisturbed heap value :=
  ⟨fun _ _ => rfl, fun _ _ => rfl⟩

/-! ## Entries in order -/

/-- A search for the key goes past the entry. -/
def PassesOver (heap : Heap) (key : Value) (shape : UInt64) (entry : Entry) : Prop :=
  key.isContainer = true ∧ entry.shape ≠ shape ∨
    heap.equalWithin none heap.equalityFuel 0 key entry.key = some false

/-- Every entry is filed under the shape that its key has, and a search for its key goes past all
entries before it. -/
structure InOrder (heap : Heap) (entries : List Entry) : Prop where
  filed : ∀ entry ∈ entries, heap.Filed entry
  apart : entries.Pairwise fun earlier later => heap.PassesOver later.key later.shape earlier

/-- The comparisons that a store under the key makes come to an end. -/
def Decides (heap : Heap) (busy : Option MapRef) (entries : List Entry) (key : Value) : Prop :=
  searchEntry (heap.equalWithin busy heap.equalityFuel 0) key (heap.keyShape busy key) entries ≠
    none

/-- What a store makes of the entries: the key is new, or it is equal to one that is there. -/
inductive Stored (heap : Heap) (key value : Value) (shape : UInt64) (entries : List Entry) :
    List Entry → Prop
  | new (apart : ∀ entry ∈ entries, heap.PassesOver key shape entry) :
      Stored heap key value shape entries (entries ++ [⟨key, shape, value⟩])
  | replaces {front back : List Entry} {entry : Entry} (split : entries = front ++ entry :: back)
      (apart : ∀ entry ∈ front, heap.PassesOver key shape entry)
      (filed : key.isContainer = true → entry.shape = shape)
      (same : heap.equalWithin none heap.equalityFuel 0 key entry.key = some true) :
      Stored heap key value shape entries (front ++ { entry with value } :: back)

variable {entries others : List Entry}

theorem Stored.behind {shape : UInt64} (passes : heap.PassesOver key shape entry)
    (stored : heap.Stored key value shape entries others) :
    heap.Stored key value shape (entry :: entries) (entry :: others) := by
  cases stored with
  | new apart => exact .new (List.forall_mem_cons.mpr ⟨passes, apart⟩)
  | replaces split apart filed same =>
      exact .replaces (congrArg (entry :: ·) split) (List.forall_mem_cons.mpr ⟨passes, apart⟩)
        filed same

theorem storeEntry_stored {shape : UInt64}
    (idle : ∀ entry ∈ entries, heap.equalWithin busy heap.equalityFuel 0 key entry.key =
      heap.equalWithin none heap.equalityFuel 0 key entry.key)
    (decides : searchEntry (heap.equalWithin busy heap.equalityFuel 0) key shape entries ≠ none) :
    heap.Stored key value shape entries
      (storeEntry (entryMatches (heap.equalDuring busy) key shape) key shape value entries) := by
  induction entries with
  | nil => exact .new nofun
  | cons entry rest ih =>
      rw [List.forall_mem_cons] at idle
      rw [searchEntry] at decides
      split at decides
      · rename_i elsewhere
        rw [Bool.and_eq_true, bne_iff_ne] at elsewhere
        have misses : entryMatches (heap.equalDuring busy) key shape entry = false := by
          rw [entryMatches, elsewhere.1, beq_eq_false_iff_ne.mpr elsewhere.2]
          rfl
        rw [storeEntry, misses, if_neg Bool.false_ne_true]
        exact (ih idle.2 decides).behind (.inl elsewhere)
      · rename_i here
        rw [Bool.and_eq_true, bne_iff_ne, not_and, not_not] at here
        cases answer : heap.equalWithin busy heap.equalityFuel 0 key entry.key with
        | none =>
            rw [answer] at decides
            exact absurd rfl decides
        | some same =>
            have equal : heap.equalDuring busy key entry.key = same := by
              rw [equalDuring, answer, Option.getD_some]
            have idly := idle.1.symm.trans answer
            cases same with
            | false =>
                have misses : entryMatches (heap.equalDuring busy) key shape entry = false := by
                  rw [entryMatches, equal, Bool.and_false]
                rw [answer] at decides
                rw [storeEntry, misses, if_neg Bool.false_ne_true]
                exact (ih idle.2 decides).behind (.inr idly)
            | true =>
                have hit : entryMatches (heap.equalDuring busy) key shape entry = true := by
                  rw [entryMatches, equal, Bool.and_true, Bool.or_eq_true, Bool.not_eq_true',
                    beq_iff_eq]
                  exact (Bool.eq_false_or_eq_true key.isContainer).symm.imp_right here
                have split : entry :: rest = [] ++ entry :: rest := rfl
                rw [storeEntry, if_pos hit]
                exact .replaces split nofun here idly

/-- A map that is being changed does not matter to a store if no key leads to it. -/
theorem withEntry_stored (decides : heap.Decides busy entries key)
    (free : ∀ map, busy = some map → ¬ heap.Includes key (.map map) ∧
      ∀ entry ∈ entries, ¬ heap.Includes entry.key (.map map)) (value : Value) :
    heap.Stored key value (heap.keyShape none key) entries
      (heap.withEntry busy entries key value) := by
  have shape : heap.keyShape busy key = heap.keyShape none key :=
    (Undisturbed.refl heap key).keyShape fun map is => (free map is).1
  rw [Decides, shape] at decides
  rw [withEntry, shape]
  exact storeEntry_stored (fun entry member =>
    (Undisturbed.refl heap key).equalWithin (.refl heap entry.key)
      (fun map is => ⟨(free map is).1, (free map is).2 entry member⟩) _ _) decides

/-- A store adds no key but its own. -/
theorem key_of_mem_storeEntry {isMatch : Entry → Bool} {shape : UInt64}
    (member : entry ∈ storeEntry isMatch key shape value entries) :
    entry.key = key ∨ ∃ old ∈ entries, old.key = entry.key := by
  induction entries with
  | nil => exact .inl (congrArg Entry.key (List.mem_singleton.mp member))
  | cons other rest ih =>
      rw [storeEntry] at member
      split at member
      · rcases List.mem_cons.mp member with rfl | later
        · exact .inr ⟨other, List.mem_cons_self, rfl⟩
        · exact .inr ⟨entry, List.mem_cons_of_mem _ later, rfl⟩
      · rcases List.mem_cons.mp member with rfl | later
        · exact .inr ⟨entry, List.mem_cons_self, rfl⟩
        · rcases ih later with own | ⟨old, within, same⟩
          · exact .inl own
          · exact .inr ⟨old, List.mem_cons_of_mem _ within, same⟩

theorem key_of_mem_withEntries {pairs : List (Value × Value)}
    (member : entry ∈ heap.withEntries entries pairs) :
    (∃ pair ∈ pairs, entry.key = pair.1) ∨ ∃ old ∈ entries, old.key = entry.key := by
  induction pairs generalizing entries with
  | nil => exact .inr ⟨entry, member, rfl⟩
  | cons pair pairs ih =>
      rcases ih member with ⟨other, within, same⟩ | ⟨old, within, same⟩
      · exact .inl ⟨other, List.mem_cons_of_mem _ within, same⟩
      · rcases key_of_mem_storeEntry within with own | before
        · exact .inl ⟨pair, List.mem_cons_self, same ▸ own⟩
        · exact .inr (same ▸ before)

theorem decides_scalar (scalar : key.isContainer = false) (busy : Option MapRef)
    (entries : List Entry) : heap.Decides busy entries key := by
  obtain ⟨fuel, is⟩ := heap.exists_equalityFuel
  unfold Decides
  induction entries with
  | nil => exact Option.some_ne_none _
  | cons entry rest ih =>
      rw [searchEntry, scalar, Bool.false_and, if_neg Bool.false_ne_true, is,
        equalWithin_scalar _ _ _ _ scalar, ← is]
      cases key.sameScalar entry.key with
      | true => exact Option.some_ne_none _
      | false => exact ih

namespace InOrder

theorem nil (heap : Heap) : heap.InOrder [] :=
  ⟨nofun, .nil⟩

theorem sublist (inOrder : heap.InOrder entries) (sub : others.Sublist entries) :
    heap.InOrder others :=
  ⟨fun entry member => inOrder.filed entry (sub.subset member), inOrder.apart.sublist sub⟩

/-- Entries stay in order as long as nothing inside of their keys changes. -/
theorem later (inOrder : before.InOrder entries) (grows : before.maps.size ≤ after.maps.size)
    (same : ∀ entry ∈ entries, before.Undisturbed after entry.key) : after.InOrder entries where
  filed entry member :=
    (inOrder.filed entry member).trans ((same entry member).keyShape (by rintro _ ⟨⟩))
  apart := inOrder.apart.imp_of_mem fun member within passes =>
    passes.imp_right ((same _ within).answer (same _ member) grows)

/-- Nothing but the keys and their shapes matters. -/
theorem congr (inOrder : heap.InOrder entries)
    (same : others.map (fun entry => (entry.key, entry.shape)) =
      entries.map fun entry => (entry.key, entry.shape)) : heap.InOrder others where
  filed entry member := by
    have there : (entry.key, entry.shape) ∈ others.map fun entry => (entry.key, entry.shape) :=
      List.mem_map_of_mem member
    rw [same] at there
    obtain ⟨old, within, is⟩ := List.mem_map.mp there
    obtain ⟨key, shape⟩ := Prod.mk.inj is
    rw [Filed, ← key, ← shape]
    exact inOrder.filed old within
  apart := by
    let passes (earlier later : Value × UInt64) : Prop :=
      heap.PassesOver later.1 later.2 ⟨earlier.1, earlier.2, .null⟩
    have apart : (entries.map fun entry => (entry.key, entry.shape)).Pairwise passes :=
      List.pairwise_map.mpr inOrder.apart
    rw [← same] at apart
    exact List.pairwise_map.mp apart

theorem stored (inOrder : heap.InOrder entries)
    (stored : heap.Stored key value (heap.keyShape none key) entries others) :
    heap.InOrder others := by
  cases stored with
  | new apart =>
      refine ⟨fun entry member => ?_, List.pairwise_append.mpr ⟨inOrder.apart, ?_, ?_⟩⟩
      · rcases List.mem_append.mp member with old | new
        · exact inOrder.filed entry old
        · rw [List.mem_singleton.mp new]
          rfl
      · exact List.pairwise_singleton _ _
      · intro earlier member later last
        rw [List.mem_singleton.mp last]
        exact apart earlier member
  | replaces split =>
      refine inOrder.congr ?_
      rw [split, List.map_append, List.map_append, List.map_cons, List.map_cons]

end InOrder

/-! ## Maps that are built by stores -/

/-- The pairs can be stored one after the other behind the entries. -/
def DecidesAll (heap : Heap) (entries : List Entry) (pairs : List (Value × Value)) : Prop :=
  ∀ front pair back, pairs = front ++ pair :: back →
    heap.Decides none (heap.withEntries entries front) pair.1

theorem InOrder.withEntries {pairs : List (Value × Value)} (inOrder : heap.InOrder entries)
    (decides : heap.DecidesAll entries pairs) : heap.InOrder (heap.withEntries entries pairs) := by
  induction pairs generalizing entries with
  | nil => exact inOrder
  | cons pair pairs ih =>
      have stored := withEntry_stored (decides [] pair pairs rfl) (by rintro _ ⟨⟩) pair.2
      exact ih (inOrder.stored stored) fun front other back split =>
        decides (pair :: front) other back (congrArg (pair :: ·) split)

/-- The entries of the map are in order, and its keys do not lead back to it. -/
structure Orderly (heap : Heap) (map : MapRef) : Prop where
  known : map.index < heap.maps.size
  inOrder : heap.InOrder (heap.entries map)
  apart : ∀ entry ∈ heap.entries map, ¬ heap.Includes entry.key (.map map)

/-- Nothing is lost, and neither the map nor anything inside of its keys is changed. -/
structure Spares (map : MapRef) (before after : Heap) : Prop where
  grows : before.maps.size ≤ after.maps.size
  entries : after.entries map = before.entries map
  keys : ∀ entry ∈ before.entries map, before.Undisturbed after entry.key

theorem Orderly.spared (orderly : before.Orderly map) (spares : before.Spares map after) :
    after.Orderly map where
  known := Nat.lt_of_lt_of_le orderly.known spares.grows
  inOrder := by
    rw [spares.entries]
    exact orderly.inOrder.later spares.grows spares.keys
  apart entry member within := by
    rw [spares.entries] at member
    exact orderly.apart entry member ((spares.keys entry member).includes_iff.mp within)

/-- The map gets other entries, and all other maps and lists stay as they are. -/
theorem Orderly.ofChange (before : Heap) (lists : after.lists = before.lists)
    (others : ∀ other, other ≠ map → after.entries other = before.entries other)
    (grows : before.maps.size ≤ after.maps.size) (known : map.index < after.maps.size)
    (now : after.entries map = entries) (inOrder : before.InOrder entries)
    (apart : ∀ entry ∈ entries, ¬ before.Includes entry.key (.map map)) : after.Orderly map := by
  subst now
  have same (entry : Entry) (member : entry ∈ after.entries map) :
      before.Undisturbed after entry.key := .ofApart lists others (apart entry member)
  exact ⟨known, inOrder.later grows same, fun entry member within =>
    apart entry member ((same entry member).includes_iff.mp within)⟩

/-- A map that a script has built without changing keys that are in it: a new map, which no key
leads to, with pairs stored one after the other, be it for a literal, for names and their values, or
behind the entries of another map; after stores under keys that do not lead to it, as those would be
changed by the store itself; after removals; and whatever happens in between, as long as it leaves
the map and its keys alone. All stores have come to an end. -/
inductive Built : MapRef → Heap → Prop
  | literal {heap : Heap} {pairs : List (Value × Value)} {object : MapObject}
      (entries : object.entries = heap.withEntries [] pairs) (decides : heap.DecidesAll [] pairs)
      (fresh : ∀ entry ∈ object.entries, ¬ heap.Includes entry.key (.map ⟨heap.maps.size⟩)) :
      Built ⟨heap.maps.size⟩ ((Draft.map object).addTo heap)
  | sum {heap : Heap} {left : MapRef} {pairs : List (Value × Value)} {object : MapObject}
      (built : Built left heap)
      (entries : object.entries = heap.withEntries (heap.entries left) pairs)
      (decides : heap.DecidesAll (heap.entries left) pairs)
      (fresh : ∀ entry ∈ object.entries, ¬ heap.Includes entry.key (.map ⟨heap.maps.size⟩)) :
      Built ⟨heap.maps.size⟩ ((Draft.map object).addTo heap)
  | store {heap : Heap} {map : MapRef} {key : Value} (built : Built map heap)
      (apart : ¬ heap.Includes key (.map map))
      (decides : heap.Decides (some map) (heap.entries map) key) (value : Value) :
      Built map (heap.insert map key value)
  | remove {heap : Heap} {map : MapRef} (built : Built map heap) (key : Value) :
      Built map (heap.remove map key)
  | meanwhile {map : MapRef} {before after : Heap} (built : Built map before)
      (spares : before.Spares map after) : Built map after

theorem entries_modifyMap (inside : map.index < heap.maps.size)
    (change : MapObject → MapObject) :
    (heap.modifyMap map change).entries map = (change (heap.mapAt map)).entries :=
  congrArg MapObject.entries (mapAt_modifyMap inside change)

theorem entries_modifyMap_of_ne (heap : Heap) {map other : MapRef}
    (change : MapObject → MapObject) (differs : other ≠ map) :
    (heap.modifyMap map change).entries other = heap.entries other :=
  congrArg MapObject.entries (mapAt_modifyMap_of_ne heap map other change differs)

theorem orderly_modifyMap {change : MapObject → MapObject} (known : map.index < heap.maps.size)
    (inOrder : heap.InOrder (change (heap.mapAt map)).entries)
    (apart : ∀ entry ∈ (change (heap.mapAt map)).entries, ¬ heap.Includes entry.key (.map map)) :
    (heap.modifyMap map change).Orderly map := by
  have size : (heap.modifyMap map change).maps.size = heap.maps.size := Array.size_modify
  exact Orderly.ofChange heap rfl (fun _ => heap.entries_modifyMap_of_ne change) size.ge
    (size ▸ known) (entries_modifyMap known change) inOrder apart

theorem orderly_addTo {object : MapObject} (inOrder : heap.InOrder object.entries)
    (fresh : ∀ entry ∈ object.entries, ¬ heap.Includes entry.key (.map ⟨heap.maps.size⟩)) :
    ((Draft.map object).addTo heap).Orderly ⟨heap.maps.size⟩ := by
  have size : ((Draft.map object).addTo heap).maps.size = heap.maps.size + 1 := Array.size_push _
  refine Orderly.ofChange heap rfl (fun other differs => ?_)
    ((Nat.le_succ _).trans size.ge) (Nat.lt_of_lt_of_eq (Nat.lt_succ_self _) size.symm)
    (congrArg MapObject.entries (Draft.mapAt_addTo object heap)) inOrder fresh
  have elsewhere : other.index ≠ heap.maps.size := fun same => differs (congrArg MapRef.mk same)
  simp only [Heap.entries, mapAt, Draft.addTo, Array.getElem?_push, if_neg elsewhere]

/-- A store puts the entries in a form that searches can rely on. -/
theorem Orderly.stored (orderly : heap.Orderly map) (apart : ¬ heap.Includes key (.map map))
    (decides : heap.Decides (some map) (heap.entries map) key) (value : Value) :
    heap.Stored key value (heap.keyShape none key) (heap.entries map)
      ((heap.insert map key value).entries map) := by
  rw [insert, entries_modifyMap orderly.known]
  exact withEntry_stored decides (by rintro _ ⟨⟩; exact ⟨apart, orderly.apart⟩) value

theorem Orderly.store (orderly : heap.Orderly map) (apart : ¬ heap.Includes key (.map map))
    (decides : heap.Decides (some map) (heap.entries map) key) (value : Value) :
    (heap.insert map key value).Orderly map := by
  have stored := orderly.stored apart decides value
  rw [insert, entries_modifyMap orderly.known] at stored
  refine orderly_modifyMap orderly.known (orderly.inOrder.stored stored) fun entry member => ?_
  rcases key_of_mem_storeEntry member with same | ⟨old, within, same⟩
  · exact same ▸ apart
  · exact same ▸ orderly.apart old within

theorem Built.orderly (built : Built map heap) : heap.Orderly map := by
  induction built with
  | literal entries decides fresh =>
      refine orderly_addTo ?_ fresh
      rw [entries]
      exact (InOrder.nil _).withEntries decides
  | sum _ entries decides fresh ih =>
      refine orderly_addTo ?_ fresh
      rw [entries]
      exact ih.inOrder.withEntries decides
  | store _ apart decides value ih => exact ih.store apart decides value
  | @remove heap map _ key ih =>
      have fewer : ((heap.entries map).eraseP (heap.removalTest map key)).Sublist
          (heap.entries map) := List.eraseP_sublist
      exact orderly_modifyMap ih.known (ih.inOrder.sublist fewer) fun entry member =>
        ih.apart entry (fewer.subset member)
  | meanwhile _ spares ih => exact ih.spared spares

/-- The maps that are made from names: the variables of scopes, the records of loops, and new maps
with a parent. -/
theorem Built.ofNames (heap : Heap) (pairs : List (String × Value)) :
    Built ⟨heap.maps.size⟩ ((Draft.map (.ofNames pairs)).addTo heap) := by
  let texts := pairs.map fun pair => (Value.text pair.1, pair.2)
  have entries : (MapObject.ofNames pairs).entries = heap.withEntries [] texts := by
    simp only [MapObject.ofNames, Heap.withEntries, texts, List.foldl_map, withEntry_text]
  have isText (pair : Value × Value) (member : pair ∈ texts) : pair.1.isContainer = false := by
    obtain ⟨_, _, rfl⟩ := List.mem_map.mp member
    rfl
  refine .literal entries (fun front pair back split => ?_) fun entry member within => ?_
  · exact decides_scalar (isText pair (split ▸ List.mem_append_right _ List.mem_cons_self)) _ _
  · rw [entries] at member
    obtain ⟨pair, member, same⟩ | ⟨old, none, _⟩ := key_of_mem_withEntries member
    · have scalar := same ▸ isText pair member
      rw [← eq_of_includes_scalar scalar within] at scalar
      cases scalar
    · cases none

/-! ## What is found -/

/-- NaN is not equal to anything. -/
theorem equalDuring_of_isNaN (nan : key.isNaN = true) (busy : Option MapRef) (other : Value) :
    heap.equalDuring busy key other = false := by
  rw [equalDuring_scalar _ _ (Value.isContainer_of_isNaN nan)]
  cases key with
  | number number =>
      cases other with
      | number other =>
          refine eq_false_of_ne_true fun same => ?_
          have self := (Number.beq_self number).symm.trans
            (Number.beq_trans same (Number.beq_symm same))
          rw [show Number.isNaN number = true from nan] at self
          cases self
      | _ => rfl
  | _ => cases nan

theorem PassesOver.decides {shape : UInt64} (passes : heap.PassesOver key shape entry) :
    heap.decideEqual none key entry.key = some false ∨
      key.isContainer = true ∧ entry.shape ≠ shape := by
  rcases passes with elsewhere | answer
  · exact .inr elsewhere
  · rw [decideEqual, equalDuring, answer]
    exact .inl rfl

namespace Orderly

/-- Each key is found with its value, NaN alone is not found. -/
theorem get? (orderly : heap.Orderly map) (member : entry ∈ heap.entries map) :
    heap.get? map entry.key = if entry.key.isNaN then none else some entry.value := by
  rw [Heap.get?, entry?]
  cases nan : entry.key.isNaN with
  | true =>
      have scalar := Value.isContainer_of_isNaN nan
      have misses : ((heap.entries map).find? fun other =>
          heap.equalDuring none entry.key other.key) = none :=
        List.find?_eq_none.mpr fun other _ same =>
          absurd ((equalDuring_of_isNaN nan none other.key).symm.trans same) Bool.false_ne_true
      have search : findEntry (heap.decideEqual none) entry.key (heap.keyShape none entry.key)
          (heap.entries map) = some none :=
        (findEntry_scalar _ _ scalar _).trans (congrArg some misses)
      rw [search]
      rfl
  | false =>
      obtain ⟨front, back, split⟩ := List.append_of_mem member
      have filed := orderly.inOrder.filed entry member
      have apart := orderly.inOrder.apart
      rw [split, List.pairwise_append] at apart
      have found : findEntry (heap.decideEqual none) entry.key (heap.keyShape none entry.key)
          (heap.entries map) = some (some entry) := by
        rw [split, ← filed]
        refine findEntry_of_first (fun other before => ?_) (fun _ => rfl) ?_
        · exact (apart.2.2 other before entry List.mem_cons_self).decides
        · rw [decideEqual, equalDuring_self, nan, Bool.not_false]
      rw [found]
      rfl

/-- The value that has been stored last under a key is found under it. -/
theorem get?_insert (orderly : heap.Orderly map) (apart : ¬ heap.Includes key (.map map))
    (decides : heap.Decides (some map) (heap.entries map) key) (number : key.isNaN = false)
    (value : Value) : (heap.insert map key value).get? map key = some value := by
  have now := orderly.store apart decides value
  have stored := orderly.stored apart decides value
  generalize after : heap.insert map key value = later at now stored ⊢
  generalize all : later.entries map = entries at stored
  cases stored with
  | new =>
      have member : (⟨key, heap.keyShape none key, value⟩ : Entry) ∈ later.entries map :=
        all ▸ List.mem_append_right _ (List.mem_singleton_self _)
      rw [now.get? member, number]
      rfl
  | @replaces front back hit split passes filed same =>
      subst after
      have untouched (inner : Value) (free : ¬ heap.Includes inner (.map map)) :
          heap.Undisturbed (heap.insert map key value) inner :=
        .ofApart rfl (fun _ => heap.entries_modifyMap_of_ne _) free
      have grows : heap.maps.size ≤ (heap.insert map key value).maps.size := Array.size_modify.ge
      have old (entry : Entry) (member : entry ∈ front ∨ entry = hit) :
          heap.Undisturbed (heap.insert map key value) entry.key := by
        refine untouched _ (orderly.apart entry (split ▸ ?_))
        rcases member with before | rfl
        · exact List.mem_append_left _ before
        · exact List.mem_append_right _ List.mem_cons_self
      have own := untouched key apart
      have shape : heap.keyShape none key = (heap.insert map key value).keyShape none key :=
        own.keyShape (by rintro _ ⟨⟩)
      have found : findEntry ((heap.insert map key value).decideEqual none) key
          ((heap.insert map key value).keyShape none key)
          ((heap.insert map key value).entries map) = some (some { hit with value }) := by
        rw [all, ← shape]
        refine findEntry_of_first (fun entry before => ?_) filed ?_
        · have still : (heap.insert map key value).PassesOver key (heap.keyShape none key) entry :=
            (passes entry before).imp_right (own.answer (old entry (.inl before)) grows)
          exact still.decides
        · rw [decideEqual, equalDuring, own.answer (old hit (.inr rfl)) grows same]
          rfl
      rw [Heap.get?, entry?, found]
      rfl

/-- The first key is removed, unless it is NaN. -/
theorem entries_remove (orderly : heap.Orderly map) (first : heap.entries map = entry :: others) :
    (heap.remove map entry.key).entries map =
      if entry.key.isNaN then entry :: others else others := by
  have changed : (heap.remove map entry.key).entries map =
      (entry :: others).eraseP (heap.removalTest map entry.key) := by
    rw [remove, entries_modifyMap orderly.known]
    dsimp only
    rw [first]
  have member : entry ∈ heap.entries map := first ▸ List.mem_cons_self
  have apart := orderly.apart entry member
  have filed : entry.shape = heap.keyShape (some map) entry.key :=
    (orderly.inOrder.filed entry member).trans ((Undisturbed.refl heap entry.key).keyShape
      (by rintro _ ⟨⟩; exact apart)).symm
  -- The shape counts if there is another entry; it is the right one.
  have test (other : Entry) (same : other.shape = entry.shape ∨ entry.key.isNaN = true) :
      heap.removalTest map entry.key other = heap.equalDuring (some map) entry.key other.key := by
    rw [removalTest, first]
    cases others with
    | nil => rfl
    | cons =>
        dsimp only
        rw [entryMatches, ← filed]
        rcases same with same | nan
        · rw [same, beq_self_eq_true, Bool.or_true, Bool.true_and]
        · rw [equalDuring_of_isNaN nan, Bool.and_false]
  rw [changed]
  cases nan : entry.key.isNaN with
  | true =>
      refine List.eraseP_of_forall_not fun other _ hit => ?_
      rw [test other (.inr nan), equalDuring_of_isNaN nan] at hit
      cases hit
  | false =>
      refine List.eraseP_cons_of_pos ?_
      rw [test entry (.inl rfl), equalDuring_self, nan]
      rfl

end Orderly

end Heap

end MiniScript
