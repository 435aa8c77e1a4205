import Mathlib.Data.List.Infix
import MiniScript.Text.Search

/-!
# Occurrences in a text

A text is cut at the first occurrence of another, however the occurrences overlap. Cutting again
and again takes out every occurrence, and what is left can be joined again.
-/

namespace MiniScript.Text

variable {needle text before after : List Char}

theorem afterLead?_eq_none_iff : afterLead? needle text = none ↔ ¬ needle <+: text := by
  rw [Option.eq_none_iff_forall_ne_some]
  refine ⟨fun misses leads => ?_, fun leads rest found => leads ?_⟩
  · obtain ⟨rest, rfl⟩ := leads
    exact misses rest (afterLead?_eq_some_iff.mpr rfl)
  · exact ⟨rest, (afterLead?_eq_some_iff.mp found).symm⟩

/-- A text is not cut if the other does not occur in it. -/
theorem cutAt?_eq_none_iff : cutAt? needle text = none ↔ ¬ needle <:+: text := by
  induction text with
  | nil =>
      rw [List.infix_nil, ← List.prefix_nil, ← afterLead?_eq_none_iff, cutAt?]
      split <;> simp_all
  | cons char text ih =>
      rw [List.infix_cons_iff, not_or, ← afterLead?_eq_none_iff, ← ih, cutAt?]
      split <;> simp_all

/-- The cut is at the first occurrence. -/
theorem length_le_of_cutAt? (cut : cutAt? needle text = some (before, after))
    {front back : List Char} (occurs : text = front ++ needle ++ back) :
    before.length ≤ front.length := by
  induction text generalizing before after front with
  | nil =>
      have parts := congrArg List.length (eq_of_cutAt? cut)
      rw [List.length_append, List.length_append, List.length_nil] at parts
      omega
  | cons char text ih =>
      unfold cutAt? at cut
      split at cut
      · cases cut
        exact Nat.zero_le _
      · rename_i misses
        obtain ⟨⟨inner, rest⟩, found, same⟩ := Option.map_eq_some_iff.mp cut
        cases same
        cases front with
        | nil => exact absurd ⟨back, occurs.symm⟩ (afterLead?_eq_none_iff.mp misses)
        | cons first front =>
            rw [List.cons_append, List.cons_append, List.cons.injEq] at occurs
            exact Nat.succ_le_succ (ih found occurs.2)

/-- What stands before the first occurrence does not contain another. -/
theorem not_infix_of_cutAt? (proper : needle ≠ [])
    (cut : cutAt? needle text = some (before, after)) : ¬ needle <:+: before := by
  rintro ⟨front, back, rfl⟩
  have occurs : text = front ++ needle ++ (back ++ needle ++ after) := by
    rw [eq_of_cutAt? cut]
    simp only [List.append_assoc]
  have first := length_le_of_cutAt? cut occurs
  rw [List.length_append, List.length_append] at first
  have some := List.length_pos_iff.mpr proper
  omega

theorem length_after_lt (proper : needle ≠ [])
    (cut : cutAt? needle text = some (before, after)) : after.length < text.length := by
  rw [eq_of_cutAt? cut, List.length_append, List.length_append]
  have some := List.length_pos_iff.mpr proper
  omega

theorem splitWithin_ne_nil (fuel : Nat) (text : List Char) : splitWithin needle fuel text ≠ [] := by
  cases fuel with
  | zero => exact List.cons_ne_nil _ _
  | succ fuel =>
      rw [splitWithin]
      split <;> exact List.cons_ne_nil _ _

/-- The characters with nothing between them are the text. -/
theorem intercalate_chars (text : List Char) :
    List.intercalate [] (text.map fun char => [char]) = text := by
  induction text with
  | nil => exact List.intercalate_nil
  | cons char text ih =>
      cases text with
      | nil => exact List.intercalate_singleton
      | cons next text => exact List.intercalate_cons_cons.trans (congrArg (char :: ·) ih)

/-- The pieces with the delimiter between them are the text, however often it is cut. -/
theorem intercalate_splitWithin (fuel : Nat) (text : List Char) :
    needle.intercalate (splitWithin needle fuel text) = text := by
  induction fuel generalizing text with
  | zero => exact List.intercalate_singleton
  | succ fuel ih =>
      rw [splitWithin]
      split
      · exact List.intercalate_singleton
      · rename_i before after cut
        rw [List.intercalate_cons_of_ne_nil (splitWithin_ne_nil fuel after), ih, eq_of_cutAt? cut]

/-- With as many cuts as the text has characters, no delimiter is left in a piece. -/
theorem not_infix_of_mem_splitWithin (proper : needle ≠ []) {fuel : Nat}
    (enough : text.length ≤ fuel) {piece : List Char}
    (member : piece ∈ splitWithin needle fuel text) : ¬ needle <:+: piece := by
  induction fuel generalizing text with
  | zero =>
      rw [List.mem_singleton.mp member, List.eq_nil_of_length_eq_zero (Nat.le_zero.mp enough),
        List.infix_nil]
      exact proper
  | succ fuel ih =>
      rw [splitWithin] at member
      split at member
      · rename_i whole
        rw [List.mem_singleton.mp member]
        exact cutAt?_eq_none_iff.mp whole
      · rename_i before after cut
        rcases List.mem_cons.mp member with rfl | later
        · exact not_infix_of_cutAt? proper cut
        · have shorter := length_after_lt proper cut
          exact ih (by omega) later

section Bytes

variable {whole part : String} {front back : ByteArray}

/-- Where the bytes of a text that is not empty occur in those of another, the text occurs. -/
theorem exists_append_of_bytes (proper : part ≠ "")
    (occurs : whole.toByteArray = front ++ part.toByteArray ++ back) :
    ∃ before after : String, whole = before ++ part ++ after ∧ before.toByteArray = front := by
  have size : whole.utf8ByteSize = front.size + part.utf8ByteSize + back.size := by
    simpa using congrArg ByteArray.size occurs
  have some : part.utf8ByteSize ≠ 0 := mt String.utf8ByteSize_eq_zero_iff.mp proper
  let start : String.Pos.Raw := ⟨front.size⟩
  let stop : String.Pos.Raw := ⟨front.size + part.utf8ByteSize⟩
  have ordered : start ≤ stop := Nat.le_add_right _ _
  have inside : stop ≤ whole.rawEndPos := by
    rw [String.Pos.Raw.le_iff, String.byteIdx_rawEndPos, size]
    exact Nat.le_add_right _ _
  have bytes : whole.toByteArray.extract start.byteIdx stop.byteIdx = part.toByteArray := by
    have beyond : back.extract (start.byteIdx - (front ++ part.toByteArray).size)
        (stop.byteIdx - (front ++ part.toByteArray).size) = ByteArray.empty := by
      refine ByteArray.extract_eq_empty_iff.mpr ?_
      rw [ByteArray.size_append, String.size_toByteArray, Nat.sub_self]
      omega
    rw [occurs, ByteArray.extract_append, beyond, ByteArray.append_empty]
    exact ByteArray.extract_append_eq_right rfl rfl
  -- both ends of valid bytes are ends of characters
  rcases (String.Pos.Raw.isValidUTF8_extract_iff start stop ordered inside).mp
    (bytes ▸ part.isValidUTF8) with same | ⟨starts, stops⟩
  · have sizes : front.size = front.size + part.utf8ByteSize := congrArg String.Pos.Raw.byteIdx same
    omega
  · obtain ⟨before, rest, parts, start⟩ := String.Pos.Raw.isValid_iff_exists_append.mp starts
    obtain ⟨most, after, others, stop⟩ := String.Pos.Raw.isValid_iff_exists_append.mp stops
    have leads : before.toByteArray = front := by
      have same : before.toByteArray ++ rest.toByteArray =
          front ++ (part.toByteArray ++ back) := by
        rw [← String.toByteArray_append, ← parts, occurs, ByteArray.append_assoc]
      exact ByteArray.append_inj_left same (congrArg String.Pos.Raw.byteIdx start).symm
    have both : most.toByteArray = front ++ part.toByteArray := by
      have same : most.toByteArray ++ after.toByteArray = front ++ part.toByteArray ++ back := by
        rw [← String.toByteArray_append, ← others, occurs]
      refine ByteArray.append_inj_left same ?_
      rw [ByteArray.size_append]
      exact (congrArg String.Pos.Raw.byteIdx stop).symm
    refine ⟨before, after, ?_, leads⟩
    rw [others, ← String.toByteArray_inj, String.toByteArray_append, String.toByteArray_append,
      String.toByteArray_append, both, leads]

/-- The first occurrence is the first one among the bytes too. -/
theorem utf8ByteSize_le_of_cutAt? (proper : part ≠ "")
    (cut : cutAt? part.toList whole.toList = some (before, after))
    (occurs : whole.toByteArray = front ++ part.toByteArray ++ back) :
    (String.ofList before).utf8ByteSize ≤ front.size := by
  obtain ⟨lead, rest, parts, rfl⟩ := exists_append_of_bytes proper occurs
  have others : whole.toList = lead.toList ++ part.toList ++ rest.toList := by
    rw [parts, String.toList_append, String.toList_append]
  have leads : before <+: whole.toList := by
    rw [eq_of_cutAt? cut, List.append_assoc]
    exact List.prefix_append _ _
  have least := length_le_of_cutAt? cut others
  rw [others, List.append_assoc] at leads
  obtain ⟨more, same⟩ := List.prefix_of_prefix_length_le leads (List.prefix_append _ _) least
  have longer : lead = String.ofList before ++ String.ofList more := by
    rw [← String.ofList_append, same, String.ofList_toList]
  rw [String.size_toByteArray, longer, String.utf8ByteSize_append]
  exact Nat.le_add_right _ _

end Bytes

end MiniScript.Text
