import MiniScript.Proofs.Library.Effect
import MiniScript.Library.Install

/-!
# Slices of lists and texts

Each end of a slice is a place in the sequence: a number counts elements from the front, or
from the end if it is negative, and is moved into the sequence if it lies outside. So a slice is
always a run of the elements, and two slices that meet at a place make up the whole again. The
ends are computed with whole numbers of sixty-four bits, which is enough for every sequence
whose length is such a number.
-/

namespace MiniScript

variable {σ : Type}

/-- The items of a list, or the characters of a text, each as a text. -/
def Heap.elements? (heap : Heap) : Value → Option (List Value)
  | .list list => some (heap.items list).toList
  | .text text => some (Library.characters text).toList
  | _ => none

/-- The result of an operator, put into the heap, is that value in that world. -/
def World.Produces (world : World σ) (result : Except Fault Draft) (value : Value)
    (after : World σ) : Prop :=
  ∃ draft, result = .ok draft ∧ draft.valueIn world.heap = value ∧
    world.modifyHeap draft.addTo = after

/-- A whole number of sixty-four signed bits. -/
def Number.IsWord (integer : Int) : Prop :=
  leastWhole ≤ integer ∧ integer ≤ greatestWhole

namespace Sequence

/-- How many elements stand before the place that a whole number names. It counts from the front
or, if it is negative, from the end, and does not leave the sequence. -/
def place (length : Nat) (whole : Int) : Nat :=
  if whole < 0 then length - whole.natAbs else min whole.natAbs length

/-- The place that a number names by its whole part, however great that is. A number that is not
finite names an end, and NaN the front. -/
def placeOf (length : Nat) (number : Float) : Nat :=
  match Number.decode number with
  | .nan => 0
  | .infinite negative => if negative then 0 else length
  | .finite negative mantissa exponent =>
      let whole : Int := Number.wholePart mantissa exponent
      place length (if negative then -whole else whole)

/-- Where a bound cuts a sequence. Null stands for `default`; other values are no bounds. -/
def cut? (length default : Nat) : Value → Option Nat
  | .null => some default
  | .number number => some (place length (Number.toWhole number))
  | _ => none

/-- The elements from `start` up to `stop`, which are none if the two cross. -/
structure IsRun {α : Type} (whole part : List α) (start stop : Nat) : Prop where
  ordered : start ≤ stop → ∃ front back, whole = front ++ part ++ back ∧ front.length = start ∧
    part.length = stop - start
  crossed : stop ≤ start → part = []

variable {length default found start stop : Nat} {value first last : Value}

theorem place_le (length : Nat) (whole : Int) : place length whole ≤ length := by
  unfold place
  split <;> omega

theorem cut?_le (small : default ≤ length) (known : cut? length default value = some found) :
    found ≤ length := by
  cases value with
  | null => exact Option.some.inj known ▸ small
  | number number => exact Option.some.inj known ▸ place_le length _
  | _ => cases known

/-- The place is the wrapped and clamped number. -/
theorem clamp_wrap (length : Nat) (whole : Int) :
    (Number.clampInt 0 length (wrap whole length)).toNat = place length whole := by
  unfold Number.clampInt wrap place
  split <;> omega

theorem bound_of_cut? (known : cut? length default value = some found) :
    bound length default value = .ok found := by
  cases value with
  | null => exact congrArg Except.ok (Option.some.inj known)
  | number number =>
      rw [bound, clamp_wrap]
      exact congrArg Except.ok (Option.some.inj known)
  | _ => cases known

theorem bounds_of_cut? (starts : cut? length 0 first = some start)
    (stops : cut? length length last = some stop) :
    bounds first last length = .ok (start, max start stop) := by
  rw [bounds, bound_of_cut? starts, bound_of_cut? stops]
  rfl

/-- The sum that counts a negative number from the end does not leave the sixty-four bits. -/
theorem isWord_wrap (few : (length : Int) ≤ Number.greatestWhole) {whole : Int}
    (word : Number.IsWord whole) : Number.IsWord (wrap whole length) := by
  obtain ⟨least, greatest⟩ := word
  unfold Number.IsWord wrap
  split <;> omega

theorem place_clamp (few : (length : Int) ≤ Number.greatestWhole) (whole : Int) :
    place length (Number.clampInt Number.leastWhole Number.greatestWhole whole) =
      place length whole := by
  unfold Number.clampInt place
  rw [Number.leastWhole, Number.greatestWhole] at *
  split <;> split <;> omega

/-- Cutting a number down to sixty-four bits does not move its place. -/
theorem place_toWhole (few : (length : Int) ≤ Number.greatestWhole) (number : Float) :
    place length (Number.toWhole number) = placeOf length number := by
  unfold Number.toWhole placeOf
  cases Number.decode number with
  | nan => exact Nat.zero_min length
  | infinite negative =>
      cases negative with
      | true =>
          have before : place length Number.leastWhole = length - Number.leastWhole.natAbs :=
            if_pos (by decide)
          have far : length ≤ Number.leastWhole.natAbs := by
            rw [Number.greatestWhole] at few
            rw [Number.leastWhole]
            omega
          exact before.trans (Nat.sub_eq_zero_of_le far)
      | false =>
          have after : place length Number.greatestWhole = min Number.greatestWhole.natAbs length :=
            if_neg (by decide)
          exact after.trans (Nat.min_eq_right (by omega))
  | finite negative mantissa exponent => exact place_clamp few _

theorem isRun_drop_take {α : Type} {whole : List α} (inside : max start stop ≤ whole.length) :
    IsRun whole ((whole.take (max start stop)).drop start) start stop := by
  constructor
  · intro ordered
    rw [Nat.max_eq_right ordered] at inside ⊢
    refine ⟨whole.take start, whole.drop stop, ?_, ?_, ?_⟩
    · have front : whole.take start = (whole.take stop).take start := by
        rw [List.take_take, Nat.min_eq_left ordered]
      rw [front, List.take_append_drop, List.take_append_drop]
    · rw [List.length_take]
      omega
    · rw [List.length_drop, List.length_take]
      omega
  · intro crossed
    rw [Nat.max_eq_left crossed]
    exact List.drop_eq_nil_of_le (List.length_take_le _ _)

end Sequence

namespace Operator

open Sequence

variable {world : World σ} {value first last : Value} {elements : List Value} {start stop : Nat}

theorem slice_list {heap : Heap} {list : ListRef}
    (starts : cut? (heap.items list).size 0 first = some start)
    (stops : cut? (heap.items list).size (heap.items list).size last = some stop) :
    slice heap (.list list) first last =
      .ok (.list ((heap.items list).extract start (max start stop))) := by
  rw [slice, bounds_of_cut? starts stops]
  rfl

theorem slice_text {heap : Heap} {text : String} (starts : cut? text.length 0 first = some start)
    (stops : cut? text.length text.length last = some stop) :
    slice heap (.text text) first last =
      .ok (.text ((text.toList.take (max start stop)).drop start)) := by
  rw [← String.length_toList] at starts stops
  rw [slice, bounds_of_cut? starts stops]
  rfl

end Operator

namespace Heap

variable {heap : Heap} {value : Value}

theorem items_addTo_list (heap : Heap) (items : Array Value) (list : ListRef) :
    ((Draft.list items).addTo heap).items list =
      if list.index = heap.lists.size then items else heap.items list := by
  rw [Draft.addTo, Heap.items, Array.getElem?_push, Heap.items]
  split <;> rfl

/-- Putting a draft into the heap leaves the sequences that are there alone. -/
theorem elements?_addTo (draft : Draft)
    (known : ∀ list, value = .list list → list.index < heap.lists.size) :
    (draft.addTo heap).elements? value = heap.elements? value := by
  cases value with
  | list list =>
      cases draft with
      | list items =>
          have apart : ¬ list.index = heap.lists.size := Nat.ne_of_lt (known list rfl)
          rw [elements?, items_addTo_list, if_neg apart, elements?]
      | _ => rfl
  | _ => rfl

/-- So does a slice, even one of a list that is not there: it is empty like that list. -/
theorem items_addTo_extract (heap : Heap) (list : ListRef) (start stop : Nat) :
    ((Draft.list ((heap.items list).extract start stop)).addTo heap).items list =
      heap.items list := by
  rw [items_addTo_list]
  split
  · rename_i beyond
    have none : heap.items list = #[] := by
      rw [items, Array.getElem?_eq_none (Nat.le_of_eq beyond.symm), Option.getD_none]
    rw [none, Array.extract_empty]
  · rfl

theorem characters_ofList (chars : List Char) :
    (Library.characters (String.ofList chars)).toList =
      chars.map fun char => .text (String.ofList [char]) := by
  rw [Library.characters, String.toList_ofList]

theorem length_characters (text : String) :
    (Library.characters text).toList.length = text.length := by
  rw [Library.characters, List.length_map, String.length_toList]

end Heap

theorem World.Produces.elements? {world after : World σ} {result : Except Fault Draft}
    {made value : Value} (produces : world.Produces result made after)
    (known : ∀ list, value = .list list → list.index < world.heap.lists.size) :
    after.heap.elements? value = world.heap.elements? value := by
  obtain ⟨draft, -, -, rfl⟩ := produces
  exact Heap.elements?_addTo draft known

namespace Operator

open Sequence Heap

variable {world : World σ} {value first last left right : Value} {start stop : Nat}
variable {elements lefts rights : List Value}

/-- A slice of a list or a text is one again, with a run of its elements. The whole and the world
around it stay as they are. -/
theorem slice_produces (first last : Value)
    (sequence : world.heap.elements? value = some elements)
    (starts : cut? elements.length 0 first = some start)
    (stops : cut? elements.length elements.length last = some stop) :
    ∃ part after, world.Produces (slice world.heap value first last) part after ∧
      part.kind = value.kind ∧
      after.heap.elements? part = some ((elements.take (max start stop)).drop start) ∧
      after.heap.elements? value = some elements ∧ after.limits = world.limits ∧
      ∀ list, part = .list list → list.index < after.heap.lists.size := by
  cases value with
  | list list =>
      obtain rfl := Option.some.inj sequence
      rw [Array.length_toList] at starts stops
      refine ⟨_, _, ⟨_, slice_list starts stops, rfl, rfl⟩, rfl, ?_, ?_, rfl, ?_⟩
      · refine congrArg some ?_
        rw [World.modifyHeap, items_addTo_list, if_pos rfl, Array.toList_extract,
          List.extract_eq_take_drop, List.drop_take]
      · exact congrArg (fun items => some (Array.toList items)) (items_addTo_extract _ list _ _)
      · rintro part ⟨⟩
        exact Nat.lt_of_lt_of_eq (Nat.lt_succ_self _) (Array.size_push _).symm
  | text text =>
      obtain rfl := Option.some.inj sequence
      rw [length_characters] at starts stops
      refine ⟨_, _, ⟨_, slice_text starts stops, rfl, rfl⟩, rfl, ?_, rfl, rfl, nofun⟩
      refine congrArg some ?_
      rw [characters_ofList, List.map_drop, List.map_take]
      rfl
  | _ => cases sequence

theorem add_lists {first second : ListRef}
    (few : (world.heap.items first ++ world.heap.items second).size ≤
      world.limits.maxSequenceLen) :
    world.binary .add (.list first) (.list second) =
      .ok (.list (world.heap.items first ++ world.heap.items second)) := by
  have accepted : Sequence.checkLength
      (world.heap.items first ++ world.heap.items second).size world.limits.maxSequenceLen =
      .ok () := if_neg (Nat.not_lt.mpr few)
  simp only [World.binary, combine, accepted]
  rfl

/-- Two lists or two texts are joined element by element. -/
theorem add_produces (kinds : left.kind = right.kind)
    (here : world.heap.elements? left = some lefts)
    (there : world.heap.elements? right = some rights)
    (few : (lefts ++ rights).length ≤ world.limits.maxSequenceLen) :
    ∃ joined after, world.Produces (world.binary .add left right) joined after ∧
      joined.kind = left.kind ∧ after.heap.elements? joined = some (lefts ++ rights) := by
  cases left with
  | list list =>
      cases right with
      | list other =>
          obtain rfl := Option.some.inj here
          obtain rfl := Option.some.inj there
          have size : (world.heap.items list ++ world.heap.items other).size ≤
              world.limits.maxSequenceLen := by simpa using few
          refine ⟨_, _, ⟨_, add_lists size, rfl, rfl⟩, rfl, congrArg some ?_⟩
          rw [World.modifyHeap, items_addTo_list, if_pos rfl, Array.toList_append]
      | _ => cases kinds
  | text text =>
      cases right with
      | text other =>
          obtain rfl := Option.some.inj here
          obtain rfl := Option.some.inj there
          refine ⟨_, _, ⟨_, rfl, rfl, rfl⟩, rfl, congrArg some ?_⟩
          simp [Library.characters]
      | _ => cases kinds
  | _ => cases here

/-- What is cut off before a place and what is cut off after it make up the whole. -/
theorem slices_produce_whole (sequence : world.heap.elements? value = some elements)
    (few : elements.length ≤ world.limits.maxSequenceLen) (cut : Float) :
    ∃ left middle right later whole after,
      world.Produces (slice world.heap value .null (.number cut)) left middle ∧
      middle.Produces (slice middle.heap value (.number cut) .null) right later ∧
      later.Produces (later.binary .add left right) whole after ∧
      whole.kind = value.kind ∧ after.heap.elements? whole = some elements := by
  let half := place elements.length (Number.toWhole cut)
  have inside : half ≤ elements.length := place_le _ _
  obtain ⟨left, middle, cutsLeft, leftKind, lefts, kept, limits, placed⟩ :=
    slice_produces .null (.number cut) sequence rfl rfl
  obtain ⟨right, later, cutsRight, rightKind, rights, -, limits', -⟩ :=
    slice_produces (.number cut) .null kept rfl rfl
  -- the first part is still there when the second one has been made
  have lefts := (cutsRight.elements? placed).trans lefts
  rw [Nat.max_eq_right (Nat.zero_le _), List.drop_zero] at lefts
  rw [Nat.max_eq_right inside, List.take_length] at rights
  have whole : elements.take half ++ elements.drop half = elements := List.take_append_drop _ _
  have short : (elements.take half ++ elements.drop half).length ≤ later.limits.maxSequenceLen := by
    rw [whole, limits', limits]
    exact few
  obtain ⟨joined, after, adds, kind, all⟩ :=
    add_produces (leftKind.trans rightKind.symm) lefts rights short
  exact ⟨left, middle, right, later, joined, after, cutsLeft, cutsRight, adds,
    kind.trans leftKind, whole ▸ all⟩

end Operator

namespace World

/-- Every slice of a list or a text between numbers or nulls is there, and is the run of elements
between the two places. Up to the greatest length of sixty-four bits its ends are computed
without an overflow, and cutting a great number down to such a length makes no difference. Two
slices that meet at a number add up to the whole, if it keeps to the limit. -/
theorem slices_cut_and_rejoin (world : World σ) (sequence : Value) {elements : List Value}
    (holds : world.heap.elements? sequence = some elements) :
    (∀ first last start stop, Sequence.cut? elements.length 0 first = some start →
      Sequence.cut? elements.length elements.length last = some stop →
      Sequence.bounds first last elements.length = .ok (start, max start stop) ∧
      max start stop ≤ elements.length ∧
      ∃ part after partElements,
        world.Produces (Operator.slice world.heap sequence first last) part after ∧
        part.kind = sequence.kind ∧ after.heap.elements? part = some partElements ∧
        Sequence.IsRun elements partElements start stop) ∧
    ((elements.length : Int) ≤ Number.greatestWhole → ∀ number : Float,
      Number.IsWord (Number.toWhole number) ∧
      Number.IsWord (Sequence.wrap (Number.toWhole number) elements.length) ∧
      Sequence.place elements.length (Number.toWhole number) =
        Sequence.placeOf elements.length number) ∧
    (elements.length ≤ world.limits.maxSequenceLen → ∀ number : Float,
      ∃ left middle right later whole after,
        world.Produces (Operator.slice world.heap sequence .null (.number number)) left middle ∧
        middle.Produces (Operator.slice middle.heap sequence (.number number) .null) right
          later ∧
        later.Produces (later.binary .add left right) whole after ∧
        whole.kind = sequence.kind ∧ after.heap.elements? whole = some elements) := by
  refine ⟨?_, ?_, Operator.slices_produce_whole holds⟩
  · intro first last start stop starts stops
    have inside : max start stop ≤ elements.length := Nat.max_le.mpr
      ⟨Sequence.cut?_le (Nat.zero_le _) starts, Sequence.cut?_le (Nat.le_refl _) stops⟩
    obtain ⟨part, after, produces, kind, run, -⟩ :=
      Operator.slice_produces first last holds starts stops
    exact ⟨Sequence.bounds_of_cut? starts stops, inside, part, after, _, produces, kind, run,
      Sequence.isRun_drop_take inside⟩
  · intro few number
    have word : Number.IsWord (Number.toWhole number) := Number.toWhole_bounds number
    exact ⟨word, Sequence.isWord_wrap few word, Sequence.place_toWhole few number⟩

/-- A world with a list of three texts. -/
def lettered : World Unit :=
  (World.initial {} ()).modifyHeap (Draft.list #[.text "a", .text "b", .text "c"]).addTo

/-- Before the end by one and a half, the list is cut behind its second element. -/
theorem lettered_slices_cut_and_rejoin :
    let elements : List Value := [.text "a", .text "b", .text "c"]
    (∃ part after partElements,
      lettered.Produces (Operator.slice lettered.heap (.list ⟨0⟩) (.number (-1.5)) .null) part
        after ∧
      after.heap.elements? part = some partElements ∧
      Sequence.IsRun elements partElements 2 3) ∧
    Number.IsWord (Sequence.wrap (Number.toWhole (-1.5)) 3) ∧
    ∃ left middle right later whole after,
      lettered.Produces (Operator.slice lettered.heap (.list ⟨0⟩) .null (.number (-1.5))) left
        middle ∧
      middle.Produces (Operator.slice middle.heap (.list ⟨0⟩) (.number (-1.5)) .null) right
        later ∧
      later.Produces (later.binary .add left right) whole after ∧
      after.heap.elements? whole = some elements := by
  have holds : lettered.heap.elements? (.list ⟨0⟩) =
      some [.text "a", .text "b", .text "c"] := rfl
  obtain ⟨cuts, words, rejoins⟩ := slices_cut_and_rejoin lettered (.list ⟨0⟩) holds
  have starts : Sequence.cut? 3 0 (.number (-1.5)) = some 2 := by decide +kernel
  obtain ⟨-, -, part, after, partElements, produces, -, found, run⟩ := cuts _ .null 2 3 starts rfl
  obtain ⟨-, word, -⟩ := words (by decide) (-1.5)
  obtain ⟨left, middle, right, later, whole, final, first, second, adds, -, all⟩ :=
    rejoins (by decide) (-1.5)
  exact ⟨⟨part, after, partElements, produces, found, run⟩, word,
    ⟨left, middle, right, later, whole, final, first, second, adds, all⟩⟩

end World

end MiniScript
