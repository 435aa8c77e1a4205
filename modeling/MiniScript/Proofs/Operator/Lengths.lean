import MiniScript.Proofs.Library.Effect
import MiniScript.Library.Install
import MiniScript.Proofs.Number.Order

/-!
# The limit on the length of sequences

Joining lists, repeating a list or a text and counting a range keep to the limit. Lengths that
are computed as doubles are compared with the double nearest to the limit, which is the limit
itself below `2 ^ 53`. Only adding to a text does not look at the limit: the result is the two
texts one behind the other, whatever their lengths.
-/

namespace MiniScript

/-- How many elements a list has, or characters a text. -/
def Heap.length? (heap : Heap) : Value → Option Nat
  | .list list => some (heap.items list).size
  | .text text => some text.length
  | _ => none

/-- A value that is no sequence of more than `limit` elements. -/
def Heap.Fits (heap : Heap) (limit : Nat) (value : Value) : Prop :=
  ∀ length, heap.length? value = some length → length ≤ limit

/-- A draft that fits once it is in the heap. -/
def Draft.FitsIn (draft : Draft) (heap : Heap) (limit : Nat) : Prop :=
  (draft.addTo heap).Fits limit (draft.valueIn heap)

/-- The most elements that the limit lets through: a length is compared with it as it is, or
with the double nearest to it. -/
def Limits.reach (limits : Limits) : Nat :=
  max limits.maxSequenceLen (Number.toCount (Number.ofCount limits.maxSequenceLen))

theorem Limits.reach_eq {limits : Limits}
    (small : limits.maxSequenceLen < 2 * Number.hiddenBit) :
    limits.reach = limits.maxSequenceLen := by
  rw [reach, Number.toCount_ofCount small, Nat.max_self]

namespace Draft

variable {heap : Heap} {limit : Nat}

theorem fitsIn_list {items : Array Value} (few : items.size ≤ limit) :
    (Draft.list items).FitsIn heap limit := by
  intro length known
  rw [valueIn, Heap.length?, items_addTo] at known
  exact Option.some.inj known ▸ few

theorem fitsIn_text {chars : List Char} (few : chars.length ≤ limit) :
    (Draft.text chars).FitsIn heap limit := by
  intro length known
  have same : chars.length = length := by
    simpa [text, valueIn, Heap.length?] using known
  exact same ▸ few

theorem fitsIn_number (value : Float) : (Draft.plain (.number value)).FitsIn heap limit := nofun

theorem fitsIn_map (object : MapObject) : (Draft.map object).FitsIn heap limit := nofun

end Draft

/-- A computation in two stages gives a result if both do. -/
theorem stages_of_ok {ε α β : Type} {first : Except ε α} {next : α → Except ε β} {result : β}
    (known : first >>= next = .ok result) :
    ∃ value, first = .ok value ∧ next value = .ok result := by
  cases first with
  | error fault => cases known
  | ok value => exact ⟨value, rfl, known⟩

theorem Sequence.checkLength_ok {length limit : Nat}
    (accepted : checkLength length limit = .ok ()) :
    length ≤ limit := by
  unfold checkLength at accepted
  split at accepted
  · cases accepted
  · omega

/-- A repeated sequence has no more elements than the double nearest to the limit. -/
theorem Sequence.scale_length {α : Type} {items result : List α} {factor : Float} {limit : Nat}
    (scaled : scale items factor limit = .ok result) :
    result.length ≤ Number.toCount (Number.ofCount limit) := by
  unfold scale at scaled
  split at scaled
  · cases scaled
    exact Nat.zero_le _
  · rename_i proper
    have nonempty : items ≠ [] := by
      rintro rfl
      simp at proper
    dsimp only at scaled
    split at scaled
    · cases scaled
    · rename_i below
      cases scaled
      rw [cycle_length nonempty]
      exact Number.toCount_le_toCount (Number.isNaN_ofCount limit) below

theorem Text.length_dropTail_le (tail text : List Char) :
    (dropTail tail text).length ≤ text.length := by
  unfold dropTail
  split
  · rename_i rest found
    have parts := congrArg List.length (afterLead?_eq_some_iff.mp found)
    simp only [List.length_reverse, List.length_append] at parts ⊢
    omega
  · exact Nat.le_refl _

namespace Operator

variable {heap : Heap} {limits : Limits} {op : BinaryOp} {left right : Value} {draft : Draft}

/-- What is added to a text is joined to it, without a look at the limit. -/
theorem combine_add_text (text : left.kind = .text ∨ right.kind = .text) :
    combine heap limits .add left right =
      .ok (.plain (.text (addedText heap left ++ addedText heap right))) := by
  cases left <;> cases right <;> first | rfl | (rcases text with wrong | wrong <;> cases wrong)

theorem onNumbers?_fits {first second : Float} {value : Value} {limit : Nat}
    (known : onNumbers? op first second = some value) : (Draft.plain value).FitsIn heap limit := by
  cases op <;> cases known <;> exact Draft.fitsIn_number _

/-- Of two texts, only a sum is longer than both. -/
theorem onTexts?_fits {first second : String} {value : Value} {limit : Nat} (other : op ≠ .add)
    (few : first.length ≤ limit) (known : onTexts? op first second = some value) :
    (Draft.plain value).FitsIn heap limit := by
  cases op <;> cases known
  case add => exact absurd rfl other
  case sub =>
    refine Draft.fitsIn_text (Nat.le_trans (Text.length_dropTail_le _ _) ?_)
    rwa [String.length_toList]
  all_goals exact Draft.fitsIn_number _

/-- Every result but the sum with a text keeps to the limit. -/
theorem combine_fits (fits : heap.Fits limits.maxSequenceLen left)
    (guarded : op = .add → left.kind ≠ .text ∧ right.kind ≠ .text)
    (known : combine heap limits op left right = .ok draft) : draft.FitsIn heap limits.reach := by
  unfold combine at known
  dsimp only at known
  split at known
  · -- two numbers
    split at known <;> cases known
    rename_i made
    exact onNumbers?_fits made
  · -- a number and null
    split at known
    · cases known
    · split at known <;> cases known
      rename_i made
      exact onNumbers?_fits made
  · -- two texts
    rename_i first second
    split at known <;> cases known
    rename_i made
    have few : first.length ≤ limits.maxSequenceLen := fits _ rfl
    exact onTexts?_fits (fun sum => (guarded sum).1 rfl)
      (Nat.le_trans few (Nat.le_max_left _ _)) made
  · -- a text and another value
    split at known
    · rename_i sum
      exact absurd rfl (guarded sum).1
    · split at known
      · split at known
        · obtain ⟨chars, scaled, made⟩ := stages_of_ok known
          cases made
          exact Draft.fitsIn_text
            (Nat.le_trans (Sequence.scale_length scaled) (Nat.le_max_right _ _))
        · cases known
      · cases known
  · -- another value and a text
    split at known
    · rename_i sum
      exact absurd rfl (guarded sum).2
    · cases known
  · -- two lists
    split at known
    · obtain ⟨_, short, made⟩ := stages_of_ok known
      cases made
      exact Draft.fitsIn_list (Nat.le_trans (Sequence.checkLength_ok short) (Nat.le_max_left _ _))
    · cases known
  · -- a list and a number
    split at known
    · obtain ⟨items, scaled, made⟩ := stages_of_ok known
      cases made
      refine Draft.fitsIn_list ?_
      rw [List.size_toArray]
      exact Nat.le_trans (Sequence.scale_length scaled) (Nat.le_max_right _ _)
    · cases known
  · -- two maps
    split at known <;> cases known
    exact Draft.fitsIn_map _
  · cases known

end Operator

theorem World.binary_fits {σ : Type} {world : World σ} {op : BinaryOp} {left right : Value}
    {draft : Draft} (fits : world.heap.Fits world.limits.maxSequenceLen left)
    (guarded : op = .add → left.kind ≠ .text ∧ right.kind ≠ .text)
    (known : world.binary op left right = .ok draft) :
    draft.FitsIn world.heap world.limits.reach := by
  have combined (same : world.binary op left right =
      Operator.combine world.heap world.limits op left right) :
      draft.FitsIn world.heap world.limits.reach :=
    Operator.combine_fits fits guarded (same ▸ known)
  cases op
  case eq | ne =>
    cases known
    exact Draft.fitsIn_number _
  case isa =>
    rw [binary] at known
    cases answer : world.isa left right with
    | error fault => rw [answer] at known; cases known
    | ok holds =>
        rw [answer] at known
        cases known
        exact Draft.fitsIn_number _
  all_goals exact combined rfl

/-- A range has no more numbers than the double nearest to the limit. -/
theorem Library.range_few {limits : Limits} {call : Invocation} {effect : Effect}
    (known : range limits call = .ok effect) :
    ∃ items : Array Value, effect = { answer := .list items } ∧ items.size ≤ limits.reach := by
  obtain ⟨first, _, known⟩ := stages_of_ok known
  obtain ⟨last, _, known⟩ := stages_of_ok known
  obtain ⟨step, _, known⟩ := stages_of_ok known
  split at known
  · cases known
  · dsimp only at known
    generalize (if (last - first) / step < 0.0 then 0.0
      else Number.floor ((last - first) / step) + 1.0) = count at known
    split at known
    · cases known
    · rename_i below
      cases known
      refine ⟨_, rfl, ?_⟩
      rw [Array.size_map, Array.size_range]
      exact Nat.le_trans (Number.toCount_le_toCount (Number.isNaN_ofCount _) below)
        (Nat.le_max_right _ _)

theorem Library.range_fits {σ : Type} {world after : World σ} {call : Invocation} {reply : Reply}
    (answered : routine .range call world = (.ok reply, after)) :
    ∃ value, reply.answer = .ready value ∧ after.heap.Fits world.limits.reach value := by
  rw [routine_eq] at answered
  cases known : effect world .range call with
  | error fault =>
      rw [known] at answered
      cases answered
  | ok effect =>
      rw [known] at answered
      obtain ⟨items, rfl, few⟩ := range_few known
      cases answered
      exact ⟨_, rfl, Draft.fitsIn_list few⟩

namespace World

variable {σ : Type}

/-- What operators and ranges produce keeps to the limit on sequences, which is met exactly if
it is below `2 ^ 53`. The one operator that does not look at it is a sum with a text: that is
always the two texts one behind the other. -/
theorem sequences_keep_to_limit (world : World σ) :
    (∀ op left right draft, world.heap.Fits world.limits.maxSequenceLen left →
      (op = .add → left.kind ≠ .text ∧ right.kind ≠ .text) →
      world.binary op left right = .ok draft → draft.FitsIn world.heap world.limits.reach) ∧
    (∀ left right, left.kind = .text ∨ right.kind = .text →
      world.binary .add left right = .ok (.plain (.text
        (Operator.addedText world.heap left ++ Operator.addedText world.heap right)))) ∧
    (∀ call reply after, Library.routine .range call world = (.ok reply, after) →
      ∃ value, reply.answer = .ready value ∧ after.heap.Fits world.limits.reach value) ∧
    (world.limits.maxSequenceLen < 2 * Number.hiddenBit →
      world.limits.reach = world.limits.maxSequenceLen) :=
  ⟨fun _ _ _ _ => binary_fits, fun _ _ => Operator.combine_add_text,
    fun _ _ _ => Library.range_fits, Limits.reach_eq⟩

/-- A world in which sequences have at most three elements, with a list of two. -/
def brief : World Unit :=
  (World.initial { maxSequenceLen := 3 } ()).modifyHeap
    ((Draft.list #[.null, .null]).addTo)

def brief.list : Value :=
  (Draft.list #[.null, .null]).valueIn (World.initial { maxSequenceLen := 3 } ()).heap

theorem brief_fits : brief.heap.Fits brief.limits.maxSequenceLen brief.list := by
  intro length known
  cases known
  decide

/-- A range from one to three. -/
def brief.span : Invocation where
  definition := { name := some "range", params := [], body := .builtin .range }
  args := [.number 1.0, .number 3.0]
  scope := ⟨0⟩

/-- One and a half times a list of two elements is as long as the limit lets it be, and the
range from one to three is accepted. -/
theorem brief_sequences_keep_to_limit :
    (Draft.list #[.null, .null, .null]).FitsIn brief.heap brief.limits.maxSequenceLen ∧
    brief.binary .mul brief.list (.number 1.5) = .ok (.list #[.null, .null, .null]) ∧
    ∃ reply after value, Library.routine .range brief.span brief = (.ok reply, after) ∧
      reply.answer = .ready value ∧ after.heap.Fits brief.limits.maxSequenceLen value := by
  obtain ⟨operators, _, ranges, exactly⟩ := sequences_keep_to_limit brief
  rw [exactly (by decide)] at operators ranges
  have repeated : brief.binary .mul brief.list (.number 1.5) =
      .ok (.list #[.null, .null, .null]) := rfl
  have accepted : (Library.routine .range brief.span brief).1.isOk = true := by decide +kernel
  refine ⟨operators .mul _ _ _ brief_fits (fun sum => nomatch sum) repeated, repeated, ?_⟩
  cases counted : Library.routine .range brief.span brief with | mk outcome after
  cases outcome with
  | error error =>
      rw [counted] at accepted
      cases accepted
  | ok reply =>
      obtain ⟨value, ready, fits⟩ := ranges _ _ _ counted
      exact ⟨reply, after, value, rfl, ready, fits⟩

/-- Two texts that fit have a sum that does not. -/
theorem text_sum_exceeds_limit :
    brief.heap.Fits brief.limits.maxSequenceLen (.text "ab") ∧
    brief.heap.Fits brief.limits.maxSequenceLen (.text "cd") ∧
    brief.binary .add (.text "ab") (.text "cd") = .ok (.plain (.text "abcd")) ∧
    ¬ (Draft.plain (.text "abcd")).FitsIn brief.heap brief.limits.maxSequenceLen := by
  have two (text : String) (short : text.length = 2) :
      brief.heap.Fits brief.limits.maxSequenceLen (.text text) := by
    intro length known
    cases known
    rw [short]
    decide
  refine ⟨two "ab" rfl, two "cd" rfl, rfl, fun fits => ?_⟩
  exact absurd (fits 4 rfl) (by decide)

end World

end MiniScript
