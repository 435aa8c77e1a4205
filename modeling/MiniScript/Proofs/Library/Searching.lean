import MiniScript.Proofs.Library.Positions
import MiniScript.Proofs.Number.Counting
import MiniScript.Proofs.Operator.Lengths
import MiniScript.Proofs.Text.Occurrences

/-!
# Searching in texts

The place that `indexOf` answers is the one where a slice is the text that was looked for, and
`remove` takes out that slice. Places count characters, as the bounds of slices do. Such counts
are doubles, which are exact below `2 ^ 53`, and a text as long as that is beyond any memory.
-/

namespace MiniScript

variable {σ : Type}

namespace Sequence

variable {length default position start stop : Nat} {value first last : Value}

theorem place_natCast (inside : position ≤ length) : place length position = position := by
  rw [place, if_neg (Int.not_lt.mpr (Int.natCast_nonneg position)), Int.natAbs_natCast,
    Nat.min_eq_left inside]

/-- A count that is exact as a double names the place with so many elements before it. -/
theorem cut?_ofCount (inside : position ≤ length) (short : position < 2 * Number.hiddenBit) :
    cut? length default (.number (Number.ofCount position)) = some position := by
  rw [cut?, Number.toWhole_ofCount short, place_natCast inside]

/-- Other values than null and numbers are no bounds. -/
theorem cut?_of_bound (known : bound length default value = .ok start) :
    cut? length default value = some start := by
  cases cut : cut? length default value with
  | some found =>
      cases (bound_of_cut? cut).symm.trans known
      rfl
  | none =>
      cases value with
      | null | number => cases cut
      | _ => cases known

end Sequence

namespace Operator

variable {heap : Heap} {text part : String} {first last : Value} {start stop : Nat}
variable {before middle after : List Char}

/-- The slice between two places is what stands there. -/
theorem slice_of_parts (heap : Heap) (parts : text.toList = before ++ middle ++ after)
    (starts : Sequence.cut? text.length 0 first = some start)
    (stops : Sequence.cut? text.length text.length last = some stop)
    (front : before.length = start) (size : start + middle.length = stop) :
    slice heap (.text text) first last = .ok (.plain (.text (String.ofList middle))) := by
  subst front size
  rw [slice_text starts stops, Nat.max_eq_right (Nat.le_add_right _ _), parts,
    ← List.length_append, List.take_left, List.drop_left]
  rfl

/-- What a slice is stands in the text at the place where the slice starts. -/
theorem parts_of_slice (proper : part ≠ "")
    (known : slice heap (.text text) first last = .ok (.plain (.text part))) :
    ∃ front back, text.toList = front ++ part.toList ++ back ∧
      Sequence.cut? text.length 0 first = some front.length := by
  rw [slice] at known
  obtain ⟨⟨start, stop⟩, bounds, known⟩ := stages_of_ok known
  obtain ⟨start, starts, bounds⟩ := stages_of_ok bounds
  obtain ⟨stop, stops, bounds⟩ := stages_of_ok bounds
  cases bounds
  rw [String.length_toList] at starts stops
  have inside : max start stop ≤ text.toList.length := by
    rw [String.length_toList]
    exact Nat.max_le.mpr ⟨Sequence.bound_le (Nat.zero_le _) starts,
      Sequence.bound_le (Nat.le_refl _) stops⟩
  have run := Sequence.isRun_drop_take inside
  have same : (text.toList.take (max start stop)).drop start = part.toList := by
    cases known
    exact String.toList_ofList.symm
  rw [same] at run
  -- ends that cross would make it empty
  have ordered : start ≤ stop := by
    by_contra crossed
    exact proper (String.toList_eq_nil_iff.mp (run.crossed (Nat.le_of_not_le crossed)))
  obtain ⟨front, back, parts, rfl, -⟩ := run.ordered ordered
  exact ⟨front, back, parts, Sequence.cut?_of_bound starts⟩

end Operator

namespace World

variable {world : World σ} {definition : Definition} {scope : ScopeRef} {text needle : String}
variable {before after : List Char}

/-- What does not occur has no place. -/
theorem answers_indexOf_of_none (world : World σ) (definition : Definition) (scope : ScopeRef)
    (missing : Text.cutAt? needle.toList text.toList = none) :
    world.Answers .indexOf ⟨definition, [.text text, .text needle], scope⟩ .null world := by
  refine answers_iff.mpr ⟨{}, ?_, rfl⟩
  have nowhere : Text.find? needle.toList text.toList = none := by
    rw [Text.find?_eq, missing, Option.map_none]
  simp only [Library.effect, Library.indexOf, Invocation.arg, Heap.display,
    List.getElem?_cons_zero, List.getElem?_cons_succ, Option.getD_some, nowhere]
  rfl

/-- The place of the first occurrence is the count of the characters before it. -/
theorem answers_indexOf_of_cut (world : World σ) (definition : Definition) (scope : ScopeRef)
    (cut : Text.cutAt? needle.toList text.toList = some (before, after)) :
    world.Answers .indexOf ⟨definition, [.text text, .text needle], scope⟩
      (.number (Number.ofCount before.length)) world := by
  refine answers_iff.mpr ⟨{ answer := .number (Number.ofCount before.length) }, ?_, rfl⟩
  have offset : Text.find? needle.toList text.toList = some (Text.byteSize before) := by
    rw [Text.find?_eq, cut, Option.map_some]
  have front : Text.takeBytes (Text.byteSize before) text.toList = before := by
    rw [Text.eq_of_cutAt? cut, List.append_assoc, Text.takeBytes_byteSize]
  simp only [Library.effect, Library.indexOf, Invocation.arg, Heap.display,
    List.getElem?_cons_zero, List.getElem?_cons_succ, Option.getD_some, offset, front]
  rfl

theorem answers_remove_text (world : World σ) (definition : Definition) (scope : ScopeRef)
    (text needle : String) :
    world.Answers .remove ⟨definition, [.text text, .text needle], scope⟩
      (.text (String.ofList (Library.withoutFirst needle.toList text.toList))) world :=
  rfl

end World

/-- What does not occur is not removed. -/
theorem Library.withoutFirst_of_none {needle text : List Char}
    (missing : Text.cutAt? needle text = none) : withoutFirst needle text = text := by
  rw [withoutFirst, Text.find?_eq, missing, Option.map_none]

theorem Library.withoutFirst_of_cut {needle text before after : List Char} (proper : needle ≠ [])
    (cut : Text.cutAt? needle text = some (before, after)) :
    withoutFirst needle text = before ++ after := by
  have whole : text = before ++ (needle ++ after) := by
    rw [← List.append_assoc]
    exact Text.eq_of_cutAt? cut
  have behind : Text.dropBytes (Text.byteSize before + Text.byteSize needle) text = after := by
    rw [whole, ← List.append_assoc, ← Text.byteSize_append, Text.dropBytes_byteSize]
  have front : Text.takeBytes (Text.byteSize before) text = before := by
    rw [whole, Text.takeBytes_byteSize]
  simp only [withoutFirst, Text.find?_eq, cut, Option.map_some,
    if_neg (mt List.isEmpty_iff.mp proper), front, behind]

namespace World

variable {world : World σ} {definition : Definition} {scope : ScopeRef} {text needle : String}
variable {before after : List Char} {first last : Value} {start : Nat}

/-- No slice that is the text that is looked for starts before its first occurrence. -/
theorem length_le_of_slice (proper : needle ≠ "")
    (cut : Text.cutAt? needle.toList text.toList = some (before, after))
    (starts : Sequence.cut? text.length 0 first = some start)
    (slice : Operator.slice world.heap (.text text) first last = .ok (.plain (.text needle))) :
    before.length ≤ start := by
  obtain ⟨front, back, parts, starts'⟩ := Operator.parts_of_slice proper slice
  cases starts.symm.trans starts'
  exact Text.length_le_of_cutAt? cut parts

/-- The three slices that the first occurrence cuts the text into. -/
theorem slices_of_cut (world : World σ) (short : text.length < 2 * Number.hiddenBit)
    (cut : Text.cutAt? needle.toList text.toList = some (before, after)) :
    let place : Value := .number (Number.ofCount before.length)
    let stop : Value := .number (Number.ofCount (before.length + needle.length))
    let slices (first last : Value) (part : String) : Prop :=
      Operator.slice world.heap (.text text) first last = .ok (.plain (.text part))
    before.length + needle.length ≤ text.length ∧ slices place stop needle ∧
      slices .null place (String.ofList before) ∧ slices stop .null (String.ofList after) := by
  intro place stop slices
  have parts : text.toList = before ++ needle.toList ++ after := Text.eq_of_cutAt? cut
  have long : text.length = before.length + needle.length + after.length := by
    rw [← String.length_toList, parts, List.length_append, List.length_append,
      String.length_toList]
  have starts (default : Nat) : Sequence.cut? text.length default place = some before.length :=
    Sequence.cut?_ofCount (by omega) (by omega)
  have stops (default : Nat) : Sequence.cut? text.length default stop =
      some (before.length + needle.length) :=
    Sequence.cut?_ofCount (by omega) (by omega)
  refine ⟨by omega, ?_, ?_, ?_⟩
  · have slice := Operator.slice_of_parts world.heap parts (starts _) (stops _) rfl
      (congrArg (before.length + ·) String.length_toList)
    rwa [String.ofList_toList] at slice
  · have parts : text.toList = [] ++ before ++ (needle.toList ++ after) :=
      parts.trans (List.append_assoc _ _ _)
    exact Operator.slice_of_parts world.heap parts rfl (starts _) rfl (Nat.zero_add _)
  · have parts : text.toList = before ++ needle.toList ++ after ++ [] :=
      parts.trans (List.append_nil _).symm
    refine Operator.slice_of_parts world.heap parts (stops _) rfl ?_ long.symm
    rw [List.length_append, String.length_toList]

theorem answers_len_text :
    world.Answers .len ⟨definition, [.text text], scope⟩ (.number (Number.ofCount text.length))
      world := rfl

theorem add_counts {first second : Nat} (short : first + second < 2 * Number.hiddenBit) :
    world.binary .add (.number (Number.ofCount first)) (.number (Number.ofCount second)) =
      .ok (.plain (.number (Number.ofCount (first + second)))) := by
  rw [← Number.ofCount_add short]
  rfl

/-- If `indexOf` answers null, then no slice is the text that is looked for, and removing it
changes nothing. Otherwise it answers the first place where that text occurs, and so it does if
bytes are compared and not characters, and removing leaves what stands before and behind. The
counts of the characters of a text that is shorter than `2 ^ 53` are exact as doubles. Its parts
are slices at the place and at the place plus the length, from no earlier place is a slice of that
length the text that is looked for, and null is answered exactly if no slice is that text. -/
theorem search_slice_remove_agree (world : World σ) (definition : Definition) (scope : ScopeRef)
    (text needle : String) (proper : needle ≠ "") :
    let call : Invocation := ⟨definition, [.text text, .text needle], scope⟩
    let slices (first last : Value) (part : String) : Prop :=
      Operator.slice world.heap (.text text) first last = .ok (.plain (.text part))
    (world.Answers .indexOf call .null world →
      (∀ first last, ¬ slices first last needle) ∧
      world.Answers .remove call (.text text) world) ∧
    (¬ world.Answers .indexOf call .null world → ∃ before after : String,
      text = before ++ needle ++ after ∧
      (∀ front back : ByteArray, text.toByteArray = front ++ needle.toByteArray ++ back →
        before.utf8ByteSize ≤ front.size) ∧
      (∀ first last start, Sequence.cut? text.length 0 first = some start →
        slices first last needle → before.length ≤ start) ∧
      world.Answers .indexOf call (.number (Number.ofCount before.length)) world ∧
      world.Answers .remove call (.text (before ++ after)) world ∧
      (text.length < 2 * Number.hiddenBit → ∃ size stop : Float,
        world.Answers .len ⟨definition, [.text needle], scope⟩ (.number size) world ∧
        world.binary .add (.number (Number.ofCount before.length)) (.number size) =
          .ok (.plain (.number stop)) ∧
        slices (.number (Number.ofCount before.length)) (.number stop) needle ∧
        (∀ earlier < before.length, ∀ stop,
          world.binary .add (.number (Number.ofCount earlier)) (.number size) =
            .ok (.plain (.number stop)) →
          ¬ slices (.number (Number.ofCount earlier)) (.number stop) needle) ∧
        slices .null (.number (Number.ofCount before.length)) before ∧
        slices (.number stop) .null after ∧
        world.binary .add (.text before) (.text after) =
          .ok (.plain (.text (before ++ after))))) ∧
    (text.length < 2 * Number.hiddenBit →
      (world.Answers .indexOf call .null world ↔ ∀ first last, ¬ slices first last needle)) := by
  intro call slices
  have removed := answers_remove_text world definition scope text needle
  cases cut : Text.cutAt? needle.toList text.toList with
  | none =>
      have searched := answers_indexOf_of_none world definition scope cut
      rw [Library.withoutFirst_of_none cut, String.ofList_toList] at removed
      have none : ∀ first last, ¬ slices first last needle := by
        intro first last slice
        obtain ⟨front, back, parts, -⟩ := Operator.parts_of_slice proper slice
        exact Text.cutAt?_eq_none_iff.mp cut ⟨front, back, parts.symm⟩
      exact ⟨fun _ => ⟨none, removed⟩, fun occurs => absurd searched occurs,
        fun _ => iff_of_true searched none⟩
  | some parts =>
      obtain ⟨before, after⟩ := parts
      have searched := answers_indexOf_of_cut world definition scope cut
      have needed : needle.toList ≠ [] := mt String.toList_eq_nil_iff.mp proper
      rw [Library.withoutFirst_of_cut needed cut, String.ofList_append] at removed
      have found : ¬ world.Answers .indexOf call .null world :=
        fun nothing => nomatch (nothing.unique searched).1
      have whole : text = String.ofList before ++ needle ++ String.ofList after := by
        rw [← String.toList_inj, String.toList_append, String.toList_append, String.toList_ofList,
          String.toList_ofList, Text.eq_of_cutAt? cut]
      have count : (String.ofList before).length = before.length := String.length_ofList
      have least : ∀ first last start, Sequence.cut? text.length 0 first = some start →
          slices first last needle → before.length ≤ start :=
        fun first last start => length_le_of_slice proper cut
      have bytes : ∀ front back : ByteArray,
          text.toByteArray = front ++ needle.toByteArray ++ back →
          (String.ofList before).utf8ByteSize ≤ front.size :=
        fun front back => Text.utf8ByteSize_le_of_cutAt? proper cut
      refine ⟨fun nothing => absurd nothing found, fun _ => ⟨String.ofList before,
        String.ofList after, whole, bytes, ?_, ?_, removed, fun short => ?_⟩, fun short => ?_⟩
      · rwa [count]
      · rwa [count]
      · obtain ⟨fits, middle, front, back⟩ := slices_of_cut world short cut
        rw [count]
        refine ⟨_, _, answers_len_text, add_counts (by omega), middle, ?_, front, back, rfl⟩
        intro earlier smaller stop _ equals
        have starts : Sequence.cut? text.length 0 (.number (Number.ofCount earlier)) =
            some earlier := Sequence.cut?_ofCount (by omega) (by omega)
        exact absurd (least _ _ _ starts equals) (Nat.not_le.mpr smaller)
      · obtain ⟨fits, middle, front, back⟩ := slices_of_cut world short cut
        exact iff_of_false found fun none => none _ _ middle

/-- The two texts begin alike, with a character of two bytes, but the second occurs later. -/
theorem accented_search_slice_remove_agree :
    let world : World Unit := .initial {} ()
    let call : Invocation := ⟨default, [.text "éaéaéb", .text "éaéb"], ⟨0⟩⟩
    ∃ (before after : String) (size stop : Float), "éaéaéb" = before ++ "éaéb" ++ after ∧
      world.Answers .indexOf call (.number (Number.ofCount before.length)) world ∧
      world.Answers .len ⟨default, [.text "éaéb"], ⟨0⟩⟩ (.number size) world ∧
      world.binary .add (.number (Number.ofCount before.length)) (.number size) =
        .ok (.plain (.number stop)) ∧
      Operator.slice world.heap (.text "éaéaéb") (.number (Number.ofCount before.length))
        (.number stop) = .ok (.plain (.text "éaéb")) ∧
      world.Answers .remove call (.text (before ++ after)) world := by
  intro world call
  have cut : Text.cutAt? "éaéb".toList "éaéaéb".toList = some (['é', 'a'], []) := by decide
  have searched := answers_indexOf_of_cut world default ⟨0⟩ cut
  obtain ⟨-, occurs, -⟩ :=
    search_slice_remove_agree world default ⟨0⟩ "éaéaéb" "éaéb" (by decide)
  obtain ⟨before, after, whole, -, -, answers, removes, counted⟩ :=
    occurs fun nothing => nomatch (nothing.unique searched).1
  obtain ⟨size, stop, len, sum, slice, -⟩ := counted (by decide)
  exact ⟨before, after, size, stop, whole, answers, len, sum, slice, removes⟩

end World

end MiniScript
