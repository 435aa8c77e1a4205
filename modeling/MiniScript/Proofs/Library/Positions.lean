import Mathlib.Data.List.Basic
import MiniScript.Library.Install
import MiniScript.Proofs.Machine.Split
import MiniScript.Proofs.Operator.Slices

/-!
# Positions in lists and texts

A list is read and stored into by position, asked whether it has a position, and asked to remove
one. The instructions that read and store find the position for themselves, and so do the
built-in functions, but they accept the same numbers and mean the same item by them.
-/

namespace MiniScript

variable {σ : Type}

theorem Value.truth_injective : Function.Injective Value.truth := by
  have apart : Value.truth true ≠ Value.truth false := by
    intro same
    have bits := congrArg Float.toBits (Value.number.inj same)
    exact absurd bits (by decide)
  intro first second same
  cases first <;> cases second <;>
    first | rfl | exact absurd same apart | exact absurd same.symm apart

/-- A built-in function answers a call at once. -/
def World.Answers (world : World σ) (builtin : Builtin) (call : Invocation) (value : Value)
    (after : World σ) : Prop :=
  Library.routine builtin call world = (.ok ⟨.ready value, false⟩, after)

section

variable {world after other : World σ} {builtin : Builtin} {call : Invocation} {value again : Value}

theorem World.Answers.unique (first : world.Answers builtin call value after)
    (second : world.Answers builtin call again other) : value = again ∧ after = other := by
  cases first.symm.trans second
  exact ⟨rfl, rfl⟩

/-- It answers if it decides on an effect that does. -/
theorem World.answers_iff : world.Answers builtin call value after ↔
    ∃ effect, Library.effect world builtin call = .ok effect ∧
      Library.apply effect world = (⟨.ready value, false⟩, after) := by
  rw [World.Answers, Library.routine_eq]
  cases Library.effect world builtin call with
  | error fault => exact iff_of_false nofun nofun
  | ok effect =>
      show (Except.ok (Library.apply effect world).1, (Library.apply effect world).2) = _ ↔ _
      generalize applied : Library.apply effect world = answered
      obtain ⟨reply, left⟩ := answered
      constructor
      · rintro ⟨⟩
        exact ⟨effect, rfl, applied⟩
      · rintro ⟨_, ⟨⟩, again⟩
        cases applied.symm.trans again
        rfl

end

/-- The two worlds differ in the items of one list alone, which are `items` in the second. -/
structure World.Relists (world after : World σ) (list : ListRef) (items : List Value) : Prop where
  here : (after.heap.items list).toList = items
  elsewhere : ∃ change, after = world.modifyHeap fun heap => heap.modifyItems list change

namespace Machine

/-- The outcome of reading an index, for a machine that holds what is read and the key. -/
def readIndex (machine : Machine) (host : Host σ) (position : Nat) (world : World σ)
    (subject key : Value) : Outcome σ :=
  { machine with stack := key :: subject :: machine.stack }.execute host position
    { op := .loadIndex } world

/-- The outcome of a store at an index, for a machine that holds what is stored into, the key and
the value. -/
def writeIndex (machine : Machine) (host : Host σ) (position : Nat) (world : World σ)
    (subject key value : Value) : Outcome σ :=
  { machine with stack := value :: key :: subject :: machine.stack }.execute host position
    { op := .assignIndex } world

/-- An outcome without an error. -/
def Outcome.Succeeds (outcome : Outcome σ) : Prop :=
  ∃ next after, outcome = (.ok next, after)

end Machine

namespace Heap

variable {heap : Heap} {list : ListRef} {change : Array Value → Array Value}

theorem items_modifyItems (placed : list.index < heap.lists.size) :
    (heap.modifyItems list change).items list = change (heap.items list) := by
  simp [modifyItems, items, placed, Array.getElem_modify_self]

/-- A list with an item is there. -/
theorem placed_of_items (some : 0 < (heap.items list).size) : list.index < heap.lists.size := by
  by_contra beyond
  rw [items, Array.getElem?_eq_none (Nat.le_of_not_lt beyond)] at some
  exact absurd some (Nat.lt_irrefl 0)

end Heap

namespace Sequence

variable {number : Float} {length place : Nat}

/-- The item at the position that a number names, and what stands before and behind it. -/
theorem parts_of_position {items : Array Value}
    (found : position number items.size = .ok place) :
    ∃ (front : List Value) (item : Value) (back : List Value),
      items.toList = front ++ item :: back ∧ front.length = place := by
  have inside : place < items.toList.length := position_lt found
  refine ⟨items.toList.take place, items.toList[place], items.toList.drop (place + 1), ?_, ?_⟩
  · rw [List.getElem_cons_drop, List.take_append_drop]
  · exact List.length_take_of_le (Nat.le_of_lt inside)

end Sequence

namespace Library

variable {number : Float} {length place : Nat}

/-- The built-in functions find the position that reading and storing find. -/
theorem keyPosition?_eq_some_iff :
    keyPosition? (.number number) length = some place ↔
      Sequence.position number length = .ok place := by
  rw [Sequence.position_eq_ok_iff]
  show (if 0 ≤ Sequence.wrap (Number.toWhole number) length &&
      Sequence.wrap (Number.toWhole number) length < length then
      some (Sequence.wrap (Number.toWhole number) length).toNat else none) = some place ↔ _
  generalize Sequence.wrap (Number.toWhole number) length = wrapped
  simp only [Bool.and_eq_true, decide_eq_true_eq]
  split
  · rw [Option.some.injEq]
    omega
  · exact iff_of_false nofun fun inside => by omega

theorem keyPosition?_of_position (found : Sequence.position number length = .ok place) :
    keyPosition? (.number number) length = some place :=
  keyPosition?_eq_some_iff.mpr found

/-- Where they find none, reading and storing fail. -/
theorem keyPosition?_of_error {fault : Fault}
    (refused : Sequence.position number length = .error fault) :
    keyPosition? (.number number) length = none := by
  refine Option.eq_none_iff_forall_ne_some.mpr fun place found => ?_
  cases refused.symm.trans (keyPosition?_eq_some_iff.mp found)

/-- They find a position exactly if reading and storing do. -/
theorem isSome_keyPosition? :
    (keyPosition? (.number number) length).isSome ↔
      ∃ place, Sequence.position number length = .ok place := by
  simp only [Option.isSome_iff_exists, keyPosition?_eq_some_iff]

end Library

namespace World

variable {world after : World σ} {subject : Value} {elements : List Value} {list : ListRef}
variable {number : Float} {place : Nat} {definition : Definition} {scope : ScopeRef}

/-- Where a number finds a position, the element there can be read. -/
theorem member_of_position (sequence : world.heap.elements? subject = some elements)
    (found : Sequence.position number elements.length = .ok place) :
    ∃ item, elements[place]? = some item ∧
      world.member subject (.number number) = .ok ⟨item, none⟩ := by
  have inside : place < elements.length := Sequence.position_lt found
  refine ⟨elements[place], List.getElem?_eq_getElem inside, ?_⟩
  cases subject with
  | list list =>
      obtain rfl := Option.some.inj sequence
      rw [Array.length_toList] at found inside
      rw [member, found, Array.getElem_toList]
      exact congrArg (fun item => Except.ok (Member.mk item none))
        (congrArg (Option.getD · .null) (Array.getElem?_eq_getElem inside))
  | text text =>
      obtain rfl := Option.some.inj sequence
      rw [Heap.length_characters, ← String.length_toList] at found inside
      rw [member, found]
      have char : text.toList[place]?.toList = [text.toList[place]] := by
        rw [List.getElem?_eq_getElem inside, Option.toList_some]
      have item : (Library.characters text).toList[place] =
          .text (String.ofList [text.toList[place]]) := List.getElem_map _
      rw [item, ← char]
      rfl
  | _ => cases sequence

/-- Lists and texts have members exactly where the number finds a position. -/
theorem member_iff (sequence : world.heap.elements? subject = some elements) :
    (∃ member, world.member subject (.number number) = .ok member) ↔
      ∃ place, Sequence.position number elements.length = .ok place := by
  cases found : Sequence.position number elements.length with
  | ok place =>
      obtain ⟨item, -, read⟩ := member_of_position sequence found
      exact iff_of_true ⟨_, read⟩ ⟨place, rfl⟩
  | error fault =>
      refine iff_of_false ?_ nofun
      rintro ⟨result, read⟩
      have refused := found
      cases subject with
      | list list =>
          obtain rfl := Option.some.inj sequence
          rw [Array.length_toList] at refused
          rw [member, refused] at read
          cases read
      | text text =>
          obtain rfl := Option.some.inj sequence
          rw [Heap.length_characters, ← String.length_toList] at refused
          rw [member, refused] at read
          cases read
      | _ => cases sequence

/-- A removal answers where the number finds a position, and takes out the item there. -/
theorem answers_remove_iff {value : Value} :
    world.Answers .remove ⟨definition, [.list list, .number number], scope⟩ value after ↔
      ∃ place, Sequence.position number (world.heap.items list).size = .ok place ∧
        value = .null ∧ after = world.modifyHeap fun heap =>
          heap.modifyItems list fun items => items.eraseIdxIfInBounds place := by
  rw [answers_iff]
  cases found : Sequence.position number (world.heap.items list).size with
  | error fault =>
      refine iff_of_false ?_ nofun
      rintro ⟨effect, accepted, -⟩
      simp only [Library.effect, Library.remove, Invocation.arg, List.getElem?_cons_zero,
        List.getElem?_cons_succ, Option.getD_some, Library.keyPosition?_of_error found] at accepted
      cases accepted
  | ok place =>
      have effect : Library.effect world .remove
          ⟨definition, [.list list, .number number], scope⟩ =
          .ok { change := fun heap => heap.modifyItems list fun items =>
            items.eraseIdxIfInBounds place } := by
        simp only [Library.effect, Library.remove, Invocation.arg, List.getElem?_cons_zero,
          List.getElem?_cons_succ, Option.getD_some, Library.keyPosition?_of_position found]
      constructor
      · rintro ⟨_, accepted, answered⟩
        cases effect.symm.trans accepted
        cases answered
        exact ⟨place, rfl, rfl, rfl⟩
      · rintro ⟨_, same, rfl, rfl⟩
        cases same
        exact ⟨_, effect, rfl⟩

/-- The built-in function answers whether the number finds a position in the list or text. -/
theorem answers_hasIndex (definition : Definition) (scope : ScopeRef) (number : Float)
    (sequence : world.heap.elements? subject = some elements) :
    world.Answers .hasIndex ⟨definition, [subject, .number number], scope⟩
      (.truth (Library.keyPosition? (.number number) elements.length).isSome) world := by
  cases subject with
  | list list =>
      obtain rfl := Option.some.inj sequence
      rw [Array.length_toList]
      rfl
  | text text =>
      obtain rfl := Option.some.inj sequence
      rw [Heap.length_characters]
      rfl
  | _ => cases sequence

theorem answers_hasIndex_iff (definition : Definition) (scope : ScopeRef) (number : Float)
    (sequence : world.heap.elements? subject = some elements) (known : Bool) :
    world.Answers .hasIndex ⟨definition, [subject, .number number], scope⟩ (.truth known) world ↔
      (Library.keyPosition? (.number number) elements.length).isSome = known := by
  have answers := answers_hasIndex definition scope number sequence
  exact ⟨fun same => Value.truth_injective (answers.unique same).1, fun same => same ▸ answers⟩

end World

namespace Machine

variable {host : Host σ} {machine : Machine} {position place : Nat} {world : World σ}
variable {list : ListRef} {number : Float} {subject key value : Value}

theorem readIndex_of_member {member : Member} (known : world.member subject key = .ok member) :
    machine.readIndex host position world subject key =
      (.ok (machine.push member.value), world) := by
  simp only [readIndex, execute_eq, plan, pop, pop?, bind, Except.bind, known, orFault]
  rfl

/-- Reading succeeds if there is such a member. -/
theorem readIndex_succeeds_iff :
    (machine.readIndex host position world subject key).Succeeds ↔
      ∃ member, world.member subject key = .ok member := by
  cases known : world.member subject key with
  | ok member => exact iff_of_true ⟨_, _, readIndex_of_member known⟩ ⟨member, rfl⟩
  | error fault =>
      refine iff_of_false ?_ nofun
      rintro ⟨next, after, same⟩
      simp only [readIndex, execute_eq, plan, pop, pop?, bind, Except.bind, known, orFault] at same
      cases same

theorem writeIndex_list (found :
    Sequence.position number (world.heap.items list).size = .ok place) :
    machine.writeIndex host position world (.list list) (.number number) value =
      (.ok machine, world.modifyHeap fun heap =>
        heap.modifyItems list fun items => items.setIfInBounds place value) := by
  simp only [writeIndex, execute_eq, plan, pop, pop?, bind, Except.bind, planStore,
    found, orFault]
  rfl

theorem writeIndex_fails {fault : Fault} (refused :
    Sequence.position number (world.heap.items list).size = .error fault) :
    ¬ (machine.writeIndex host position world (.list list) (.number number) value).Succeeds := by
  rintro ⟨next, after, same⟩
  simp only [writeIndex, execute_eq, plan, pop, pop?, bind, Except.bind, planStore, refused,
    orFault] at same
  cases same

theorem writeIndex_succeeds_iff :
    (machine.writeIndex host position world (.list list) (.number number) value).Succeeds ↔
      ∃ place, Sequence.position number (world.heap.items list).size = .ok place := by
  cases found : Sequence.position number (world.heap.items list).size with
  | ok place => exact iff_of_true ⟨_, _, writeIndex_list found⟩ ⟨place, rfl⟩
  | error fault => exact iff_of_false (writeIndex_fails found) nofun

end Machine

section Parts

variable {items : Array Value} {front back : List Value} {item : Value}

theorem set_of_parts (parts : items.toList = front ++ item :: back) (value : Value) :
    (items.setIfInBounds front.length value).toList = front ++ value :: back := by
  rw [Array.toList_setIfInBounds, parts, List.set_append_right _ _ (Nat.le_refl _), Nat.sub_self,
    List.set_cons_zero]

theorem erase_of_parts (parts : items.toList = front ++ item :: back) :
    (items.eraseIdxIfInBounds front.length).toList = front ++ back := by
  rw [Array.toList_eraseIdxIfInBounds, parts,
    List.eraseIdx_append_of_length_le (Nat.le_refl _), Nat.sub_self, List.eraseIdx_cons_zero]

end Parts

/-- A change of the items of a list that is there. -/
theorem World.relists {list : ListRef} {items : List Value} (world : World σ)
    (change : Array Value → Array Value) (placed : list.index < world.heap.lists.size)
    (changed : (change (world.heap.items list)).toList = items) :
    world.Relists (world.modifyHeap fun heap => heap.modifyItems list change) list items :=
  ⟨(congrArg Array.toList (Heap.items_modifyItems placed)).trans changed, change, rfl⟩

namespace Machine

/-- The element where the number finds a position is the one that is read. -/
theorem readIndex_of_parts {machine : Machine} {host : Host σ} {position : Nat} {world : World σ}
    {subject item : Value} {elements front back : List Value} {number : Float}
    (sequence : world.heap.elements? subject = some elements)
    (found : Sequence.position number elements.length = .ok front.length)
    (parts : elements = front ++ item :: back) :
    machine.readIndex host position world subject (.number number) =
      (.ok (machine.push item), world) := by
  obtain ⟨read, there, known⟩ := World.member_of_position sequence found
  rw [parts, List.getElem?_append_right (Nat.le_refl _), Nat.sub_self,
    List.getElem?_cons_zero] at there
  rw [readIndex_of_member known, Option.some.inj there]

/-- `hasIndex` answers one for the numbers that can be read at, stored at and removed, and zero
for all others. What is read, replaced or removed is the same item; all other items stay as they
are, in their order, and so does the rest of the world. -/
theorem index_operations_agree (machine : Machine) (host : Host σ) (position : Nat)
    (world : World σ) (definition : Definition) (scope : ScopeRef) (list : ListRef)
    (number : Float) :
    let key : Value := .number number
    let call (subject : Value) : Invocation := ⟨definition, [subject, key], scope⟩
    let has (subject : Value) : Prop := world.Answers .hasIndex (call subject) (.truth true) world
    (∀ subject elements, world.heap.elements? subject = some elements →
      (¬ has subject → world.Answers .hasIndex (call subject) (.truth false) world) ∧
      (has subject ↔ (machine.readIndex host position world subject key).Succeeds)) ∧
    (∀ value, has (.list list) ↔
      (machine.writeIndex host position world (.list list) key value).Succeeds) ∧
    (has (.list list) ↔ ∃ answer after, world.Answers .remove (call (.list list)) answer after) ∧
    (has (.list list) →
      ∃ front item back, (world.heap.items list).toList = front ++ item :: back ∧
        machine.readIndex host position world (.list list) key =
          (.ok (machine.push item), world) ∧
        (∀ value, ∃ after,
          machine.writeIndex host position world (.list list) key value = (.ok machine, after) ∧
          world.Relists after list (front ++ value :: back) ∧
          machine.readIndex host position after (.list list) key =
            (.ok (machine.push value), after)) ∧
        ∃ after, world.Answers .remove (call (.list list)) .null after ∧
          world.Relists after list (front ++ back)) := by
  intro key call has
  have size : (world.heap.items list).toList.length = (world.heap.items list).size :=
    Array.length_toList
  have listed : has (.list list) ↔
      ∃ place, Sequence.position number (world.heap.items list).toList.length = .ok place :=
    (World.answers_hasIndex_iff definition scope number rfl true).trans
      Library.isSome_keyPosition?
  rw [size] at listed
  refine ⟨fun subject elements sequence => ?_, fun value => ?_, ?_, fun known => ?_⟩
  · have answers := World.answers_hasIndex_iff definition scope number sequence
    refine ⟨fun fails => (answers false).mpr ?_, ?_⟩
    · exact Bool.eq_false_iff.mpr fun found => fails ((answers true).mpr found)
    · exact (answers true).trans (Library.isSome_keyPosition?.trans
        ((World.member_iff sequence).symm.trans readIndex_succeeds_iff.symm))
  · exact listed.trans writeIndex_succeeds_iff.symm
  · refine listed.trans ⟨fun found => ?_, ?_⟩
    · obtain ⟨place, found⟩ := found
      exact ⟨_, _, World.answers_remove_iff.mpr ⟨place, found, rfl, rfl⟩⟩
    · rintro ⟨answer, after, removes⟩
      obtain ⟨place, found, -, -⟩ := World.answers_remove_iff.mp removes
      exact ⟨place, found⟩
  · obtain ⟨place, found⟩ := listed.mp known
    have placed := Heap.placed_of_items (Nat.zero_lt_of_lt (Sequence.position_lt found))
    obtain ⟨front, item, back, parts, rfl⟩ := Sequence.parts_of_position found
    refine ⟨front, item, back, parts,
      readIndex_of_parts rfl (size.symm ▸ found) parts, fun value => ?_, ?_⟩
    · have relists := world.relists (·.setIfInBounds front.length value) placed
        (set_of_parts parts value)
      refine ⟨_, writeIndex_list found, relists, readIndex_of_parts rfl ?_ relists.here⟩
      have long : (front ++ value :: back).length = (world.heap.items list).size := by
        rw [← size, parts, List.length_append, List.length_append, List.length_cons,
          List.length_cons]
      rw [relists.here, long, found]
    · exact ⟨_, World.answers_remove_iff.mpr ⟨_, found, rfl, rfl⟩,
        world.relists (·.eraseIdxIfInBounds front.length) placed (erase_of_parts parts)⟩

/-- Before the end by one and a half is the last of three letters. -/
theorem lettered_index_operations_agree :
    let key : Value := .number (-1.5)
    let call : Invocation := ⟨default, [.list ⟨0⟩, key], ⟨0⟩⟩
    let machine : Machine := .start {} ⟨0⟩
    World.lettered.Answers .hasIndex call (.truth true) .lettered ∧
    (machine.readIndex .silent 0 .lettered (.list ⟨0⟩) key).Succeeds ∧
    ∃ front item back, [.text "a", .text "b", .text "c"] = front ++ item :: back ∧
      machine.readIndex .silent 0 .lettered (.list ⟨0⟩) key = (.ok (machine.push item), .lettered) ∧
      ∃ after, World.lettered.Answers .remove call .null after ∧
        World.lettered.Relists after ⟨0⟩ (front ++ back) := by
  intro key call machine
  obtain ⟨reads, -, -, parts⟩ :=
    index_operations_agree machine .silent 0 World.lettered default ⟨0⟩ ⟨0⟩ (-1.5)
  have holds : World.lettered.heap.elements? (.list ⟨0⟩) =
      some [.text "a", .text "b", .text "c"] := rfl
  have has : World.lettered.Answers .hasIndex call (.truth true) .lettered :=
    (World.answers_hasIndex_iff default ⟨0⟩ (-1.5) holds true).mpr (by decide +kernel)
  obtain ⟨front, item, back, whole, read, -, after, removes, relists⟩ := parts has
  exact ⟨has, (reads (.list ⟨0⟩) _ rfl).2.mp has, front, item, back, whole, read, after, removes,
    relists⟩

end Machine

end MiniScript
