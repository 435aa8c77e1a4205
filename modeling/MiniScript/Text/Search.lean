/-!
# Searching and splitting text

The first occurrence of one text in another cuts it into what stands before and
what stands after; cutting again and again splits it. A place between characters
is the number of the bytes in front of it; a search answers such a place, and it is
the one where the text is cut.
-/

namespace MiniScript.Text

/-- The number of bytes that the characters take. -/
def byteSize (chars : List Char) : Nat :=
  chars.foldr (fun char size => char.utf8Size + size) 0

theorem byteSize_append (left right : List Char) :
    byteSize (left ++ right) = byteSize left + byteSize right := by
  induction left with
  | nil => simp [byteSize]
  | cons char rest ih =>
      simp only [byteSize, List.cons_append, List.foldr_cons] at ih ⊢
      omega

/-- What follows `lead` in `text`, if `text` starts with it. -/
def afterLead? : List Char → List Char → Option (List Char)
  | [], text => some text
  | _ :: _, [] => none
  | char :: lead, next :: text => if char = next then afterLead? lead text else none

theorem afterLead?_eq_some_iff {lead text rest : List Char} :
    afterLead? lead text = some rest ↔ text = lead ++ rest := by
  induction lead generalizing text with
  | nil => simp [afterLead?]
  | cons char lead ih =>
      cases text with
      | nil => simp [afterLead?]
      | cons next text =>
          unfold afterLead?
          split
          · rename_i same
            subst same
            simp [ih]
          · rename_i apart
            simp only [List.cons_append, List.cons.injEq, reduceCtorEq, false_iff]
            exact fun both => apart both.1.symm

/-- What stands before and after the first occurrence of `needle`. -/
def cutAt? (needle : List Char) : List Char → Option (List Char × List Char)
  | [] =>
      match afterLead? needle [] with
      | some rest => some ([], rest)
      | none => none
  | char :: text =>
      match afterLead? needle (char :: text) with
      | some rest => some ([], rest)
      | none => (cutAt? needle text).map fun (before, after) => (char :: before, after)

theorem eq_of_cutAt? {needle text before after : List Char}
    (cut : cutAt? needle text = some (before, after)) : text = before ++ needle ++ after := by
  induction text generalizing before after with
  | nil =>
      unfold cutAt? at cut
      split at cut
      · rename_i rest found
        simp only [Option.some.injEq, Prod.mk.injEq] at cut
        obtain ⟨rfl, rfl⟩ := cut
        simpa using afterLead?_eq_some_iff.mp found
      · exact nomatch cut
  | cons char text ih =>
      unfold cutAt? at cut
      split at cut
      · rename_i rest found
        simp only [Option.some.injEq, Prod.mk.injEq] at cut
        obtain ⟨rfl, rfl⟩ := cut
        simpa using afterLead?_eq_some_iff.mp found
      · rw [Option.map_eq_some_iff] at cut
        obtain ⟨⟨inner, rest⟩, found, same⟩ := cut
        simp only [Prod.mk.injEq] at same
        obtain ⟨rfl, rfl⟩ := same
        simpa using ih found

/-- The bytes in front of the first occurrence of `needle`, if `offset` are in front of the text. -/
def findFrom? (needle : List Char) : List Char → Nat → Option Nat
  | [], offset => (afterLead? needle []).map fun _ => offset
  | char :: text, offset =>
      match afterLead? needle (char :: text) with
      | some _ => some offset
      | none => findFrom? needle text (offset + char.utf8Size)

/-- The byte offset of the first occurrence of `needle`. -/
def find? (needle text : List Char) : Option Nat :=
  findFrom? needle text 0

/-- The text up to a byte offset. -/
def takeBytes : Nat → List Char → List Char
  | 0, _ => []
  | _, [] => []
  | offset, char :: text => char :: takeBytes (offset - char.utf8Size) text

/-- The text from a byte offset on. -/
def dropBytes : Nat → List Char → List Char
  | 0, text => text
  | _, [] => []
  | offset, char :: text => dropBytes (offset - char.utf8Size) text

/-- The offset that is found is where the text is cut. -/
theorem findFrom?_eq (needle text : List Char) (offset : Nat) :
    findFrom? needle text offset =
      (cutAt? needle text).map fun (before, _) => offset + byteSize before := by
  induction text generalizing offset with
  | nil =>
      unfold findFrom? cutAt?
      cases afterLead? needle [] <;> rfl
  | cons char text ih =>
      unfold findFrom? cutAt?
      cases afterLead? needle (char :: text) with
      | some rest => rfl
      | none =>
          simp only [ih, Option.map_map]
          refine congrArg (Option.map · _) (funext fun parts => ?_)
          simp only [Function.comp_apply, byteSize, List.foldr_cons, Nat.add_assoc]

theorem find?_eq (needle text : List Char) :
    find? needle text = (cutAt? needle text).map fun (before, _) => byteSize before := by
  rw [find?, findFrom?_eq]
  simp only [Nat.zero_add]

theorem byteSize_cons (char : Char) (text : List Char) :
    byteSize (char :: text) = char.utf8Size + byteSize text := rfl

theorem takeBytes_byteSize (before after : List Char) :
    takeBytes (byteSize before) (before ++ after) = before := by
  induction before with
  | nil => cases after <;> rfl
  | cons char before ih =>
      have size := char.utf8Size_pos
      rw [byteSize_cons, List.cons_append, takeBytes, Nat.add_sub_cancel_left, ih]
      omega

theorem dropBytes_byteSize (before after : List Char) :
    dropBytes (byteSize before) (before ++ after) = after := by
  induction before with
  | nil => cases after <;> rfl
  | cons char before ih =>
      have size := char.utf8Size_pos
      rw [byteSize_cons, List.cons_append, dropBytes, Nat.add_sub_cancel_left, ih]
      omega

/-- The pieces between the occurrences of `needle`, cutting at most `fuel` times. -/
def splitWithin (needle : List Char) : Nat → List Char → List (List Char)
  | 0, text => [text]
  | fuel + 1, text =>
      match cutAt? needle text with
      | none => [text]
      | some (before, after) => before :: splitWithin needle fuel after

/-- The pieces between the occurrences of `needle`, which is not empty. -/
def splitOn (needle text : List Char) : List (List Char) :=
  splitWithin needle text.length text

/-- The text without `tail` at its end, if it ends with it. -/
def dropTail (tail text : List Char) : List Char :=
  match afterLead? tail.reverse text.reverse with
  | some rest => rest.reverse
  | none => text

end MiniScript.Text
