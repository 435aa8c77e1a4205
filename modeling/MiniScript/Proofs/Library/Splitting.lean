import MiniScript.Proofs.Heap.Comparison
import MiniScript.Proofs.Library.Positions
import MiniScript.Proofs.Text.Occurrences

/-!
# Splitting and joining

`split` cuts a text at every occurrence of the text of a delimiter, or into its characters if
that is empty, and `join` puts the pieces together again. Between the two calls the heap has one
list more, which changes no text of a value that does not refer to it.
-/

namespace MiniScript

variable {σ : Type}

namespace Heap

/-- The values whose texts the text of a value is made of: the parts of a list or a map, and the
defaults of the parameters of a function. -/
inductive Writes (heap : Heap) : Value → Value → Prop
  | part {outer inner : Value} (isPart : heap.Part outer inner) : Writes heap outer inner
  | default {closure : Closure} {param : Parameter}
      (member : param ∈ (heap.definition closure.definition).params) :
      Writes heap (.function closure) param.default

/-- Every list in the text of a value is in the heap. -/
def Grounded (heap : Heap) (value : Value) : Prop :=
  ∀ list, Relation.ReflTransGen heap.Writes value (.list list) → list.index < heap.lists.size

variable {heap : Heap} {value outer inner : Value}

theorem Grounded.written (grounded : heap.Grounded outer) (writes : heap.Writes outer inner) :
    heap.Grounded inner :=
  fun list inside => grounded list (.head writes inside)

/-- Numbers, texts and null are not made of lists. -/
theorem grounded_scalar (scalar : value.isContainer = false)
    (plain : value.kind ≠ .function) : heap.Grounded value := by
  intro list inside
  rcases Relation.ReflTransGen.cases_head inside with rfl | ⟨part, writes, -⟩
  · cases scalar
  · cases writes with
    | part isPart => cases isPart <;> cases scalar
    | default => exact absurd rfl plain

/-- One list more in the heap changes no text of what was there before. -/
theorem renderWithin_addTo (items : Array Value) (grounded : heap.Grounded value)
    (busy : Option ListRef) (fuel remaining : Nat) :
    ((Draft.list items).addTo heap).renderWithin busy fuel remaining value =
      heap.renderWithin busy fuel remaining value := by
  -- the defaults in a signature may be opened as deep as at first, so only the fuel goes down
  induction fuel generalizing value remaining with
  | zero => cases value <;> simp only [renderWithin]
  | succ fuel ih =>
      cases value with
      | list list =>
          cases remaining with
          | zero => simp only [renderWithin]
          | succ remaining =>
              have apart : ¬ list.index = heap.lists.size := Nat.ne_of_lt (grounded list .refl)
              have same := List.map_congr_left fun item
                  (member : item ∈ (heap.items list).toList) =>
                ih (grounded.written (.part (.item member))) remaining
              simp only [renderWithin, items_addTo_list, if_neg apart, same]
      | map map =>
          cases remaining with
          | zero => simp only [renderWithin]
          | succ remaining =>
              have same := List.map_congr_left fun entry (member : entry ∈ heap.entries map) =>
                congrArg₂ (· ++ ": " ++ ·)
                  (ih (grounded.written (.part (.key member))) remaining)
                  (ih (grounded.written (.part (.value member))) remaining)
              exact congrArg (fun parts => "\x7b" ++ ", ".intercalate parts ++ "\x7d") same
      | function closure =>
          have same := List.map_congr_left fun param
              (member : param ∈ (heap.definition closure.definition).params) =>
            congrArg (fun text => if param.default.isNull then param.name
              else param.name ++ "=" ++ text)
              (ih (grounded.written (.default member)) structureDepth)
          exact congrArg (fun parts => "FUNCTION(" ++ ", ".intercalate parts ++ ")") same
      | _ => simp only [renderWithin]

theorem display_addTo (items : Array Value) (grounded : heap.Grounded value) :
    ((Draft.list items).addTo heap).display value = heap.display value := by
  have same := renderWithin_addTo items grounded none heap.renderFuel structureDepth
  cases value with
  | text text => rfl
  | _ => exact same

end Heap

namespace Library

variable {delimiter text : String}

/-- The pieces are texts, and the text of each is a piece of the text. -/
theorem toList_display_splitText (heap : Heap) :
    ((splitText delimiter text).toList.map heap.display).map String.toList =
      if delimiter.isEmpty then text.toList.map fun char => [char]
      else Text.splitOn delimiter.toList text.toList := by
  unfold splitText
  split
  · simp [characters, Heap.display]
  · simp [Heap.display, Function.comp_def]

/-- The pieces, with the delimiter between them, are the text. -/
theorem intercalate_splitText (heap : Heap) :
    delimiter.intercalate ((splitText delimiter text).toList.map heap.display) = text := by
  rw [← String.toList_inj, String.toList_intercalate, toList_display_splitText]
  split
  · rename_i empty
    rw [String.isEmpty_iff.mp empty, String.toList_empty]
    exact Text.intercalate_chars _
  · exact Text.intercalate_splitWithin _ _

/-- No piece contains the delimiter. -/
theorem not_infix_of_mem_splitText (proper : delimiter ≠ "") {piece : Value}
    (member : piece ∈ splitText delimiter text) :
    ∃ part, piece = .text part ∧ ¬ delimiter.toList <:+: part.toList := by
  have full : ¬ delimiter.isEmpty := fun empty => proper (String.isEmpty_iff.mp empty)
  rw [splitText, if_neg full, List.mem_toArray, List.mem_map] at member
  obtain ⟨part, among, rfl⟩ := member
  have some : delimiter.toList ≠ [] := fun none => proper (String.toList_eq_nil_iff.mp none)
  refine ⟨_, rfl, ?_⟩
  rw [String.toList_ofList]
  exact Text.not_infix_of_mem_splitWithin some (Nat.le_refl _) among

end Library

namespace World

/-- A text that is split at the text of a value and joined with it again is the same text. If the
value has a text, no piece contains it. -/
theorem split_join (world : World σ) (definition joining : Definition) (scope : ScopeRef)
    (text : String) {delimiter : Value} (grounded : world.heap.Grounded delimiter) :
    ∃ pieces after,
      world.Answers .split ⟨definition, [.text text, delimiter], scope⟩ (.list pieces) after ∧
      after.Answers .join ⟨joining, [.list pieces, delimiter], scope⟩ (.text text) after ∧
      (world.heap.display delimiter ≠ "" → ∀ piece ∈ after.heap.items pieces, ∃ part,
        piece = .text part ∧ ¬ (world.heap.display delimiter).toList <:+: part.toList) := by
  let items := Library.splitText (world.heap.display delimiter) text
  let after := world.modifyHeap (Draft.list items).addTo
  have placed : after.heap.items ⟨world.heap.lists.size⟩ = items := Draft.items_addTo _ _
  refine ⟨⟨world.heap.lists.size⟩, after, rfl, World.answers_iff.mpr ⟨_, rfl, ?_⟩,
    fun proper piece member => ?_⟩
  · have same : after.heap.display delimiter = world.heap.display delimiter :=
      Heap.display_addTo items grounded
    have joined : (after.heap.display delimiter).intercalate
        ((after.heap.items ⟨world.heap.lists.size⟩).toList.map after.heap.display) = text := by
      rw [same, placed]
      exact Library.intercalate_splitText after.heap
    exact congrArg (fun text => (Reply.mk (.ready (.text text)) false, after)) joined
  · rw [placed] at member
    exact Library.not_infix_of_mem_splitText proper member

theorem lettered_grounded : lettered.heap.Grounded (.list ⟨0⟩) := by
  intro list inside
  rcases Relation.ReflTransGen.cases_head inside with same | ⟨letter, writes, inside⟩
  · cases same
    decide
  · cases writes with
    | part isPart =>
        cases isPart with
        | item member =>
            have scalar : ∀ item ∈ (lettered.heap.items ⟨0⟩).toList,
                item.isContainer = false ∧ item.kind ≠ .function := by decide
            obtain ⟨scalar, plain⟩ := scalar letter member
            exact Heap.grounded_scalar scalar plain list inside

/-- A list is a delimiter too: it stands for its text. -/
theorem lettered_split_join :
    let text := "x[\"a\", \"b\", \"c\"]y"
    lettered.heap.display (.list ⟨0⟩) = "[\"a\", \"b\", \"c\"]" ∧
    ∃ pieces after,
      lettered.Answers .split ⟨default, [.text text, .list ⟨0⟩], ⟨0⟩⟩ (.list pieces) after ∧
      after.Answers .join ⟨default, [.list pieces, .list ⟨0⟩], ⟨0⟩⟩ (.text text) after ∧
      ∀ piece ∈ after.heap.items pieces, ∃ part, piece = .text part ∧
        ¬ (lettered.heap.display (.list ⟨0⟩)).toList <:+: part.toList := by
  intro text
  have shown : lettered.heap.display (.list ⟨0⟩) = "[\"a\", \"b\", \"c\"]" := by decide +kernel
  obtain ⟨pieces, after, splits, joins, free⟩ :=
    split_join lettered default default ⟨0⟩ text lettered_grounded
  exact ⟨shown, pieces, after, splits, joins, free (shown ▸ by decide)⟩

end World

end MiniScript
