import Mathlib.Data.Finset.Card
import Mathlib.Logic.Relation
import MiniScript.Heap.Draft
import MiniScript.Proofs.Datum.Equality

/-!
# Comparisons that end

A comparison gives up on items and values that are too deep, so lists and maps that
hold themselves do no harm. The keys of a map are compared from depth zero again: each
container that is a key may take the comparison as deep as the first one. It ends if
no map leads back to itself through a key, and otherwise it may have no end.
-/

namespace MiniScript

namespace Heap

/-- The items of a list, and the keys and values of a map. -/
inductive Part (heap : Heap) : Value → Value → Prop
  | item {list : ListRef} {item : Value} (member : item ∈ (heap.items list).toList) :
      Part heap (.list list) item
  | key {map : MapRef} {entry : Entry} (member : entry ∈ heap.entries map) :
      Part heap (.map map) entry.key
  | value {map : MapRef} {entry : Entry} (member : entry ∈ heap.entries map) :
      Part heap (.map map) entry.value

/-- The second value is the first one or somewhere inside of it. -/
abbrev Includes (heap : Heap) : Value → Value → Prop :=
  Relation.ReflTransGen heap.Part

/-- No map inside of a value leads back to itself through one of its keys. -/
def KeysEnd (heap : Heap) (value : Value) : Prop :=
  ∀ map entry, heap.Includes value (.map map) → entry ∈ heap.entries map →
    ¬ heap.Includes entry.key (.map map)

/-- Containers are keys of maps inside of a value, and again of maps inside of these, at most so
often. -/
def KeysNest (heap : Heap) : Nat → Value → Prop
  | 0, value => ∀ map entry, heap.Includes value (.map map) → entry ∈ heap.entries map →
      entry.key.isContainer = false
  | nesting + 1, value => ∀ map entry, heap.Includes value (.map map) →
      entry ∈ heap.entries map → entry.key.isContainer = false ∨ heap.KeysNest nesting entry.key

variable {heap : Heap} {left right value : Value} {busy : Option MapRef}

theorem KeysNest.part {nesting : Nat} {part : Value} (nests : heap.KeysNest nesting value)
    (isPart : heap.Part value part) : heap.KeysNest nesting part := by
  cases nesting with
  | zero => exact fun map entry inside => nests map entry (.head isPart inside)
  | succ nesting => exact fun map entry inside => nests map entry (.head isPart inside)

theorem KeysNest.key {nesting : Nat} {map : MapRef} {entry : Entry}
    (nests : heap.KeysNest nesting (.map map)) (member : entry ∈ heap.entries map) :
    entry.key.isContainer = false ∨
      ∃ fewer, nesting = fewer + 1 ∧ heap.KeysNest fewer entry.key := by
  cases nesting with
  | zero => exact .inl (nests map entry .refl member)
  | succ fewer => exact (nests map entry .refl member).imp_right fun nests => ⟨fewer, rfl, nests⟩

theorem KeysNest.keys {nesting : Nat} {leftRef rightRef : MapRef} {entry other : Entry}
    (nests : heap.KeysNest nesting (.map leftRef) ∨ heap.KeysNest nesting (.map rightRef))
    (inside : entry ∈ heap.entries leftRef) (within : other ∈ heap.entries rightRef) :
    (entry.key.isContainer = false ∨ other.key.isContainer = false) ∨
      ∃ fewer, nesting = fewer + 1 ∧
        (heap.KeysNest fewer entry.key ∨ heap.KeysNest fewer other.key) := by
  rcases nests with nests | nests
  · rcases nests.key inside with scalar | ⟨fewer, is, nests⟩
    · exact .inl (.inl scalar)
    · exact .inr ⟨fewer, is, .inl nests⟩
  · rcases nests.key within with scalar | ⟨fewer, is, nests⟩
    · exact .inl (.inr scalar)
    · exact .inr ⟨fewer, is, .inr nests⟩

theorem eq_of_includes_scalar {inner : Value} (scalar : value.isContainer = false)
    (inside : heap.Includes value inner) : inner = value := by
  rcases Relation.ReflTransGen.cases_head inside with same | ⟨part, isPart, _⟩
  · exact same.symm
  · cases isPart <;> cases scalar

/-! ## A bound for the keys -/

theorem index_lt_of_entry {map : MapRef} {entry : Entry} (member : entry ∈ heap.entries map) :
    map.index < heap.maps.size := by
  refine Nat.lt_of_not_le fun beyond => ?_
  rw [entries, mapAt, Array.getElem?_eq_none beyond] at member
  cases member

open Classical in
/-- The maps inside of a value. -/
noncomputable def mapsInside (heap : Heap) (value : Value) : Finset Nat :=
  {index ∈ Finset.range heap.maps.size | heap.Includes value (.map ⟨index⟩)}

theorem mem_mapsInside {index : Nat} :
    index ∈ heap.mapsInside value ↔
      index < heap.maps.size ∧ heap.Includes value (.map ⟨index⟩) := by
  classical
  rw [mapsInside, Finset.mem_filter, Finset.mem_range]

theorem card_mapsInside_le : (heap.mapsInside value).card ≤ heap.maps.size := by
  have known : heap.mapsInside value ⊆ Finset.range heap.maps.size :=
    fun _ inside => Finset.mem_range.mpr (mem_mapsInside.mp inside).1
  exact (Finset.card_le_card known).trans (Finset.card_range _).le

/-- There are fewer maps inside of a key than inside of a value with a map that has the key. -/
theorem card_mapsInside_key_lt (ends : heap.KeysEnd value) {map : MapRef} {entry : Entry}
    (inside : heap.Includes value (.map map)) (member : entry ∈ heap.entries map) :
    (heap.mapsInside entry.key).card < (heap.mapsInside value).card := by
  have isInside : map.index ∈ heap.mapsInside value :=
    mem_mapsInside.mpr ⟨index_lt_of_entry member, inside⟩
  refine Finset.card_lt_card (Finset.ssubset_iff_of_subset ?_ |>.mpr ⟨map.index, isInside, ?_⟩)
  · intro index there
    obtain ⟨known, within⟩ := mem_mapsInside.mp there
    exact mem_mapsInside.mpr ⟨known, (inside.tail (.key member)).trans within⟩
  · intro back
    exact ends map entry inside member (mem_mapsInside.mp back).2

theorem KeysEnd.nest (ends : heap.KeysEnd value) {nesting : Nat}
    (few : (heap.mapsInside value).card ≤ nesting) : heap.KeysNest nesting value := by
  induction nesting generalizing value with
  | zero =>
      intro map entry inside member
      exact absurd (card_mapsInside_key_lt ends inside member) (by omega)
  | succ nesting ih =>
      intro map entry inside member
      have fewer := card_mapsInside_key_lt ends inside member
      refine .inr (ih (fun other key within => ?_) (by omega))
      exact ends other key ((inside.tail (.key member)).trans within)

/-- Keys that are nested so often and no more do not lead back. -/
theorem KeysNest.ends {nesting : Nat} (nests : heap.KeysNest nesting value) :
    heap.KeysEnd value := by
  induction nesting generalizing value with
  | zero =>
      intro map entry inside member back
      have scalar := nests map entry inside member
      rw [← eq_of_includes_scalar scalar back] at scalar
      cases scalar
  | succ nesting ih =>
      intro map entry inside member back
      rcases nests map entry inside member with scalar | nests
      · rw [← eq_of_includes_scalar scalar back] at scalar
        cases scalar
      · exact ih nests map entry back member back

/-! ## Comparisons with an answer -/

theorem allEqual_isSome {equal : Value → Value → Option Bool} {lefts rights : List Value}
    (each : ∀ left ∈ lefts, ∀ right ∈ rights, (equal left right).isSome = true) :
    (allEqual equal lefts rights).isSome = true := by
  induction lefts generalizing rights with
  | nil => cases rights <;> rfl
  | cons left lefts ih =>
      cases rights with
      | nil => rfl
      | cons right rights =>
          obtain ⟨answer, here⟩ := Option.isSome_iff_exists.mp
            (each left List.mem_cons_self right List.mem_cons_self)
          rw [allEqual, here]
          cases answer with
          | false => rfl
          | true =>
              exact ih fun left inside right within =>
                each left (List.mem_cons_of_mem _ inside) right (List.mem_cons_of_mem _ within)

theorem allFound_isSome {equalKeys equalValues : Value → Value → Option Bool}
    {shapeOf : Value → UInt64} {others entries : List Entry}
    (keys : ∀ entry ∈ entries, ∀ other ∈ others, (equalKeys entry.key other.key).isSome = true)
    (values : ∀ entry ∈ entries, ∀ other ∈ others,
      (equalValues entry.value other.value).isSome = true) :
    (allFound equalKeys equalValues shapeOf others entries).isSome = true := by
  induction entries with
  | nil => rfl
  | cons entry entries ih =>
      rw [List.forall_mem_cons] at keys values
      obtain ⟨found, search, sound⟩ :=
        @findEntry_answers equalKeys entry.key (shapeOf entry.key) others keys.1
      rw [allFound, search]
      cases found with
      | none => rfl
      | some other =>
          obtain ⟨answer, here⟩ := Option.isSome_iff_exists.mp
            (values.1 other (sound other rfl).1)
          dsimp only
          rw [here]
          cases answer with
          | false => rfl
          | true => exact ih keys.2 values.2

theorem equalWithin_isSome_of_scalar {fuel depth : Nat}
    (scalar : left.isContainer = false ∨ right.isContainer = false) :
    (heap.equalWithin busy (fuel + 1) depth left right).isSome = true := by
  cases left <;> cases right <;> simp_all [equalWithin, Value.isContainer]

/-- A comparison has its answer at once, or it opens two lists or two maps. -/
theorem equalWithin_cases (heap : Heap) (busy : Option MapRef) (depth : Nat) (left right : Value) :
    (∃ answer, ∀ fuel, heap.equalWithin busy (fuel + 1) depth left right = some answer) ∨
      depth < structureDepth ∧
        ((∃ leftRef rightRef, left = .list leftRef ∧ right = .list rightRef ∧
            ∀ fuel, heap.equalWithin busy (fuel + 1) depth left right =
              allEqual (heap.equalWithin busy fuel (depth + 1)) (heap.items leftRef).toList
                (heap.items rightRef).toList) ∨
          ∃ leftRef rightRef, left = .map leftRef ∧ right = .map rightRef ∧
            ∀ fuel, heap.equalWithin busy (fuel + 1) depth left right =
              allFound (heap.equalWithin busy fuel 0) (heap.equalWithin busy fuel (depth + 1))
                (heap.keyShape busy) (heap.entries rightRef) (heap.entries leftRef)) := by
  cases left with
  | list leftRef =>
      cases right with
      | list rightRef =>
          simp only [equalWithin]
          split
          · exact .inl ⟨true, fun _ => rfl⟩
          · split
            · exact .inl ⟨false, fun _ => rfl⟩
            · rename_i above
              split
              · exact .inl ⟨false, fun _ => rfl⟩
              · exact .inr ⟨Nat.lt_of_not_le above, .inl ⟨_, _, rfl, rfl, fun _ => rfl⟩⟩
      | _ => exact .inl ⟨_, fun _ => rfl⟩
  | map leftRef =>
      cases right with
      | map rightRef =>
          simp only [equalWithin]
          split
          · exact .inl ⟨true, fun _ => rfl⟩
          · split
            · exact .inl ⟨false, fun _ => rfl⟩
            · rename_i above
              split
              · exact .inl ⟨false, fun _ => rfl⟩
              · split
                · exact .inl ⟨false, fun _ => rfl⟩
                · exact .inr ⟨Nat.lt_of_not_le above, .inr ⟨_, _, rfl, rfl, fun _ => rfl⟩⟩
      | _ => exact .inl ⟨_, fun _ => rfl⟩
  | _ => exact .inl ⟨_, fun _ => equalWithin_scalar heap busy _ depth rfl⟩

/-- A comparison takes seventeen steps for a value, and as many again for each nested key. -/
theorem equalWithin_isSome {nesting fuel depth : Nat} (shallow : depth ≤ structureDepth)
    (enough : (structureDepth + 1) * (nesting + 1) ≤ fuel + depth)
    (nests : heap.KeysNest nesting left ∨ heap.KeysNest nesting right) :
    (heap.equalWithin busy fuel depth left right).isSome = true := by
  induction fuel generalizing nesting depth left right with
  | zero =>
      rw [Nat.mul_add] at enough
      omega
  | succ fuel ih =>
      obtain ⟨answer, here⟩ |
          ⟨above, ⟨leftRef, rightRef, rfl, rfl, opens⟩ | ⟨leftRef, rightRef, rfl, rfl, opens⟩⟩ :=
        equalWithin_cases heap busy depth left right
      · rw [here]
        rfl
      · rw [opens]
        refine allEqual_isSome fun left inside right within => ?_
        exact ih above (by omega) (nests.imp (·.part (.item inside)) (·.part (.item within)))
      · rw [opens]
        refine allFound_isSome (fun entry inside other within => ?_)
          fun entry inside other within => ?_
        · -- A key is compared from depth zero, and there is one nested key less.
          rw [Nat.mul_add] at enough
          rcases KeysNest.keys nests inside within with scalar | ⟨fewer, rfl, deeper⟩
          · obtain ⟨fuel, rfl⟩ := Nat.exists_eq_add_of_le' (show 1 ≤ fuel by omega)
            exact equalWithin_isSome_of_scalar scalar
          · have remain : (structureDepth + 1) * (fewer + 1) ≤ fuel + 0 := by omega
            exact ih (Nat.zero_le _) remain deeper
        · exact ih above (by omega) (nests.imp (·.part (.value inside)) (·.part (.value within)))

theorem exists_answer {nesting fuel : Nat}
    (nests : heap.KeysNest nesting left ∨ heap.KeysNest nesting right)
    (enough : (structureDepth + 1) * (nesting + 1) ≤ fuel) :
    ∃ answer, heap.equalWithin busy fuel 0 left right = some answer :=
  Option.isSome_iff_exists.mp (equalWithin_isSome (Nat.zero_le _) enough nests)

/-! ## Answers that stay -/

/-- Every answer of the first comparison is one of the second. -/
def Sharper (equal other : Value → Value → Option Bool) : Prop :=
  ∀ left right answer, other left right = some answer → equal left right = some answer

variable {equal other : Value → Value → Option Bool}

theorem Sharper.allEqual (sharper : Sharper equal other) {lefts rights : List Value}
    {answer : Bool} (found : Heap.allEqual other lefts rights = some answer) :
    Heap.allEqual equal lefts rights = some answer := by
  induction lefts generalizing rights with
  | nil => cases rights <;> exact found
  | cons left lefts ih =>
      cases rights with
      | nil => exact found
      | cons right rights =>
          rw [Heap.allEqual] at found ⊢
          cases here : other left right with
          | none =>
              rw [here] at found
              cases found
          | some same =>
              rw [here] at found
              rw [sharper _ _ _ here]
              cases same with
              | false => exact found
              | true => exact ih found

theorem Sharper.searchEntry (sharper : Sharper equal other) {key : Value} {shape : UInt64}
    {entries : List Entry} {found : Option Entry}
    (search : Heap.searchEntry other key shape entries = some found) :
    Heap.searchEntry equal key shape entries = some found := by
  induction entries with
  | nil => exact search
  | cons entry entries ih =>
      rw [Heap.searchEntry] at search ⊢
      split at search
      · rename_i skips
        rw [if_pos skips]
        exact ih search
      · rename_i tries
        rw [if_neg tries]
        cases here : other key entry.key with
        | none =>
            rw [here] at search
            cases search
        | some same =>
            rw [here] at search
            rw [sharper _ _ _ here]
            cases same with
            | false => exact ih search
            | true => exact search

theorem Sharper.findEntry (sharper : Sharper equal other) {key : Value} {shape : UInt64}
    {entries : List Entry} {found : Option Entry}
    (search : Heap.findEntry other key shape entries = some found) :
    Heap.findEntry equal key shape entries = some found := by
  unfold Heap.findEntry at search ⊢
  split at search
  · obtain ⟨same, here, is⟩ := Option.map_eq_some_iff.mp search
    rw [sharper _ _ _ here, Option.map_some, is]
  · exact sharper.searchEntry search

theorem Sharper.allFound {equalValues otherValues : Value → Value → Option Bool}
    (sharperKeys : Sharper equal other) (sharperValues : Sharper equalValues otherValues)
    {shapeOf : Value → UInt64} {others entries : List Entry} {answer : Bool}
    (found : Heap.allFound other otherValues shapeOf others entries = some answer) :
    Heap.allFound equal equalValues shapeOf others entries = some answer := by
  induction entries with
  | nil => exact found
  | cons entry entries ih =>
      rw [Heap.allFound] at found ⊢
      cases search : Heap.findEntry other entry.key (shapeOf entry.key) others with
      | none =>
          rw [search] at found
          cases found
      | some hit =>
          rw [search] at found
          rw [sharperKeys.findEntry search]
          cases hit with
          | none => exact found
          | some hit =>
              dsimp only at found ⊢
              cases here : otherValues entry.value hit.value with
              | none =>
                  rw [here] at found
                  cases found
              | some same =>
                  rw [here] at found
                  rw [sharperValues _ _ _ here]
                  cases same with
                  | false => exact found
                  | true => exact ih found

/-- More steps do not change an answer. -/
theorem sharper_equalWithin {fuel more : Nat} (le : fuel ≤ more) (depth : Nat) :
    Sharper (heap.equalWithin busy more depth) (heap.equalWithin busy fuel depth) := by
  induction fuel generalizing more depth with
  | zero => exact nofun
  | succ fuel ih =>
      obtain ⟨more, rfl⟩ := Nat.exists_eq_add_of_le' (Nat.le_trans (Nat.succ_pos fuel) le)
      have le : fuel ≤ more := Nat.le_of_succ_le_succ le
      intro left right answer found
      obtain ⟨known, here⟩ | ⟨_, ⟨_, _, rfl, rfl, opens⟩ | ⟨_, _, rfl, rfl, opens⟩⟩ :=
        equalWithin_cases heap busy depth left right
      · rw [here] at found ⊢
        exact found
      · rw [opens] at found ⊢
        exact (ih le (depth + 1)).allEqual found
      · rw [opens] at found ⊢
        exact (ih le 0).allFound (ih le (depth + 1)) found

/-- A comparison ends where no map of one of the values leads back to itself through a key, however
lists and maps hold themselves in other ways. It opens at most sixteen nested containers, and as
many again for each of the nested keys. -/
theorem comparison_ends (ends : heap.KeysEnd left ∨ heap.KeysEnd right) (busy : Option MapRef) :
    (∀ fuel, heap.equalityFuel ≤ fuel →
      heap.equalWithin busy fuel 0 left right = some (heap.equalDuring busy left right)) ∧
    ∀ nesting, heap.KeysNest nesting left ∨ heap.KeysNest nesting right →
      ∀ fuel, (structureDepth + 1) * (nesting + 1) ≤ fuel →
        heap.equalWithin busy fuel 0 left right = some (heap.equalDuring busy left right) := by
  have nests : heap.KeysNest heap.maps.size left ∨ heap.KeysNest heap.maps.size right :=
    ends.imp (·.nest card_mapsInside_le) (·.nest card_mapsInside_le)
  have whole : (structureDepth + 1) * (heap.maps.size + 1) ≤ heap.equalityFuel :=
    Nat.mul_le_mul_right _ (Nat.le_succ _)
  obtain ⟨answer, found⟩ : ∃ answer,
      heap.equalWithin busy heap.equalityFuel 0 left right = some answer :=
    exists_answer nests whole
  have agreed : heap.equalDuring busy left right = answer := by
    rw [equalDuring, found, Option.getD_some]
  rw [agreed]
  refine ⟨fun fuel enough => sharper_equalWithin enough 0 _ _ _ found, ?_⟩
  intro nesting nests fuel enough
  obtain ⟨early, here⟩ : ∃ answer, heap.equalWithin busy fuel 0 left right = some answer :=
    exists_answer nests enough
  have one := sharper_equalWithin (Nat.le_max_left fuel heap.equalityFuel) 0 _ _ _ here
  have two := sharper_equalWithin (Nat.le_max_right fuel heap.equalityFuel) 0 _ _ _ found
  rw [here, Option.some.inj (one.symm.trans two)]

/-- Two lists that hold themselves, with maps that hold themselves as values. -/
theorem cyclic_comparison_ends :
    let object (place : Nat) : MapObject := .ofNames [("self", .map ⟨place⟩)]
    let heap : Heap :=
      { lists := #[#[.map ⟨0⟩, .list ⟨0⟩], #[.map ⟨1⟩, .list ⟨1⟩]], maps := #[object 0, object 1] }
    heap.Part (.list ⟨0⟩) (.list ⟨0⟩) ∧ heap.KeysEnd (.list ⟨0⟩) ∧
      ∀ fuel, 17 ≤ fuel → heap.equalWithin none fuel 0 (.list ⟨0⟩) (.list ⟨1⟩) =
        some (heap.equal (.list ⟨0⟩) (.list ⟨1⟩)) := by
  intro object heap
  have nests : heap.KeysNest 0 (.list ⟨0⟩) := by
    rintro ⟨index⟩ entry _ member
    match index, member with
    | 0, member => rw [List.mem_singleton.mp member]; rfl
    | 1, member => rw [List.mem_singleton.mp member]; rfl
  refine ⟨.item (List.mem_cons_of_mem _ List.mem_cons_self), nests.ends, ?_⟩
  exact (comparison_ends (.inl nests.ends) none).2 0 (.inl nests)

/-- Two maps that are keys of themselves are compared without an end, and maps that are nested as
keys are compared more than sixteen deep. -/
theorem keys_are_compared_without_limit :
    (let empty : Heap := { maps := #[{}, {}] }
      let heap := (empty.insert ⟨0⟩ (.map ⟨0⟩) .null).insert ⟨1⟩ (.map ⟨1⟩) .null
      ∀ fuel, heap.equalWithin none fuel 0 (.map ⟨0⟩) (.map ⟨1⟩) = none) ∧
    let level (below : Nat) : MapObject := { entries := [⟨.map ⟨below⟩, 0, .null⟩] }
    let heap : Heap := { maps := #[({} : MapObject), {}] ++ (List.range 36).map level }
    heap.equalWithin none 18 0 (.map ⟨36⟩) (.map ⟨37⟩) = none ∧
      heap.equal (.map ⟨36⟩) (.map ⟨37⟩) = true := by
  refine ⟨?_, ?_⟩
  · intro empty heap fuel
    induction fuel with
    | zero => rfl
    | succ fuel ih =>
        obtain ⟨first, one⟩ : ∃ shape, heap.entries ⟨0⟩ = [⟨.map ⟨0⟩, shape, .null⟩] := ⟨_, rfl⟩
        obtain ⟨second, two⟩ : ∃ shape, heap.entries ⟨1⟩ = [⟨.map ⟨1⟩, shape, .null⟩] := ⟨_, rfl⟩
        simp [equalWithin, one, two, allFound, findEntry, ih, structureDepth]
  · decide +kernel

end Heap

end MiniScript
